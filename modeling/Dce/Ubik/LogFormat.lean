import Dce.Ubik.ReplayLog

open lib

namespace dce.ubik

def Update.scanItem : Update → ScanItem
  | .write file pos data => .data file.toLong pos.toLong data.len.toLong
  | .truncate file length => .truncate file.toLong length.toLong

/-- What the second pass should make of an update. -/
def Update.replayItem : Update → ReplayItem
  | .write file pos data => .data file.toLong pos.toLong data.val
  | .truncate file length => .truncate file.toLong length.toLong

def Update.apply (d : Disk) : Update → Disk
  | .write file pos data => uphys_write d file pos data.val
  | .truncate file length => uphys_truncate d file length

/-- Both `long`s of the version hold its values. -/
def Version.InRange (v : Version) : Prop :=
  v.epoch = (BitVec.ofInt 32 v.epoch).toInt ∧ v.counter = (BitVec.ofInt 32 v.counter).toInt

instance (v : Version) : Decidable v.InRange := inferInstanceAs (Decidable (_ ∧ _))

/-- Both passes of `ReplayLog` parse exactly the records of the transaction, and
the second one replays its updates and sets its label. -/
def RoundTrips (order : ByteOrder) (d : Disk) (updates : List Update) (version : Version) : Prop :=
  ∃ fuel r,
    scanLog order (logTransaction order d updates version) fuel 0 =
      some (true, .new :: updates.map Update.scanItem ++ [.commit]) ∧
    replayPass order fuel 0 (logTransaction order d updates version) = some r ∧
    r.code = .ok ∧ r.items = .new :: updates.map Update.replayItem ++ [.setlabel version] ∧
    r.disk = uphys_setlabel (updates.foldl Update.apply (logTransaction order d updates version)) 0 version

variable (before : List Byte) {d : Disk}

theorem readLog_middle (before middle after : List Byte)
    (hlog : (d LOGFILE).data = ByteFile.ofList (before ++ middle ++ after)) :
    readLog d before.length middle.length = some middle := by
  rw [readLog, if_neg (by omega), uphys_read, hlog, Int.toNat_natCast, ByteFile.read_ofList_middle]

theorem readLog_end {bytes : List Byte} (hlog : (d LOGFILE).data = ByteFile.ofList bytes) {tpos : ℤ}
    (htpos : (bytes.length : ℤ) ≤ tpos) {length : ℕ} (hlength : 0 < length) : readLog d tpos length = none := by
  rw [readLog]
  split
  · rfl
  · rw [uphys_read, hlog]
    exact ByteFile.read_none _ (by rw [ByteFile.ofList_length]; omega) hlength

theorem encodeLongs_cons (v : Long) (data : List Long) : encodeLongs (v :: data) = networkBytes v ++ encodeLongs data := by
  simp [encodeLongs]

@[simp] theorem length_encodeLongs (data : List Long) : (encodeLongs data).length = 4 * data.length := by
  induction data with
  | nil => rfl
  | cons v data ih =>
    rw [encodeLongs_cons, List.length_append, ih, length_networkBytes, List.length_cons]
    omega

theorem longAt_encodeLongs (order : ByteOrder) (data : List Long) (k : ℕ) (hk : k < data.length) :
    longAt order (encodeLongs data) k = order.htonl (data.get ⟨k, hk⟩) := by
  induction data generalizing k with
  | nil => exact absurd hk (Nat.not_lt_zero k)
  | cons v data ih =>
    rw [encodeLongs_cons, longAt]
    cases k with
    | zero =>
      have hhead : ((networkBytes v ++ encodeLongs data).drop (4 * 0)).take 4 = networkBytes v :=
        @List.take_left _ (networkBytes v) _
      rw [hhead]
      rfl
    | succ k =>
      have hdrop : (networkBytes v ++ encodeLongs data).drop (4 * (k + 1)) = (encodeLongs data).drop (4 * k) := by
        rw [Nat.mul_succ, Nat.add_comm, ← List.drop_drop]
        congr 1
      rw [hdrop]
      exact ih k (Nat.lt_of_succ_lt_succ hk)

theorem encodeUpdates_cons (update : Update) (updates : List Update) :
    encodeUpdates (update :: updates) = update.encode ++ encodeUpdates updates := by
  simp [encodeUpdates]

theorem readLog_record (opcode : Long) (params : List Long) (after : List Byte)
    (hlog : (d LOGFILE).data = ByteFile.ofList (before ++ encodeLongs (opcode :: params) ++ after)) :
    readLog d before.length 4 = some (encodeLongs [opcode]) ∧
      readLog d ((before.length : ℤ) + 4) (4 * params.length) = some (encodeLongs params) := by
  have hsplit : encodeLongs (opcode :: params) = encodeLongs [opcode] ++ encodeLongs params := by
    simp [encodeLongs]
  rw [hsplit] at hlog
  constructor
  · exact readLog_middle before (encodeLongs [opcode]) (encodeLongs params ++ after)
      (by rw [hlog]; simp only [List.append_assoc])
  · have hread := readLog_middle (d := d) (before ++ encodeLongs [opcode]) (encodeLongs params) after
      (by rw [hlog]; simp only [List.append_assoc])
    simpa using hread

@[simp] theorem longAt_opcode (opcode : Long) : longAt .big (encodeLongs [opcode]) 0 = opcode := by
  rw [longAt_encodeLongs .big [opcode] 0 (by simp), ByteOrder.htonl_big]
  rfl

@[simp] theorem longAt_two (x y : Long) :
    longAt .big (encodeLongs [x, y]) 0 = x ∧ longAt .big (encodeLongs [x, y]) 1 = y := by
  rw [longAt_encodeLongs .big [x, y] 0 (by simp), longAt_encodeLongs .big [x, y] 1 (by simp)]
  simp

@[simp] theorem longAt_three (x y z : Long) :
    longAt .big (encodeLongs [x, y, z]) 0 = x ∧ longAt .big (encodeLongs [x, y, z]) 1 = y ∧
      longAt .big (encodeLongs [x, y, z]) 2 = z := by
  rw [longAt_encodeLongs .big [x, y, z] 0 (by simp), longAt_encodeLongs .big [x, y, z] 1 (by simp),
    longAt_encodeLongs .big [x, y, z] 2 (by simp)]
  simp

theorem opcodes_distinct :
    (LOGABORT ≠ LOGNEW ∧ LOGEND ≠ LOGNEW ∧ LOGTRUNCATE ≠ LOGNEW ∧ LOGDATA ≠ LOGNEW) ∧
      (LOGEND ≠ LOGABORT ∧ LOGTRUNCATE ≠ LOGABORT ∧ LOGDATA ≠ LOGABORT) ∧
      (LOGTRUNCATE ≠ LOGEND ∧ LOGDATA ≠ LOGEND) ∧ LOGDATA ≠ LOGTRUNCATE := by decide

theorem write_encode (file pos : Offset) (data : Block) :
    (Update.write file pos data).encode =
      encodeLongs [LOGDATA, file.toLong, pos.toLong, data.len.toLong] ++ data.val := rfl

theorem truncate_encode (file length : Offset) :
    (Update.truncate file length).encode = encodeLongs [LOGTRUNCATE, file.toLong, length.toLong] := rfl

theorem scanLog_update (update : Update) (after : List Byte) (fuel : ℕ)
    (hlog : (d LOGFILE).data = ByteFile.ofList (before ++ update.encode ++ after)) :
    scanLog .big d (fuel + 1) before.length =
      (scanLog .big d fuel (before ++ update.encode).length).map fun (good, items) => (good, update.scanItem :: items) := by
  obtain ⟨⟨_, _, htn, hdn⟩, ⟨_, hta, hda⟩, ⟨hte, hde⟩, hdt⟩ := opcodes_distinct
  cases update with
  | write file pos data =>
    obtain ⟨hop, hparams⟩ := readLog_record before LOGDATA [file.toLong, pos.toLong, data.len.toLong]
      (data.val ++ after)
      (by rw [hlog, write_encode]; simp only [List.append_assoc])
    have hnext : (before.length : ℤ) + 4 + (data.len.toLong.toInt + 12) =
        ((before ++ (Update.write file pos data).encode).length : ℤ) := by
      rw [write_encode, Offset.toInt_toLong, Block.len, List.length_append, List.length_append, length_encodeLongs]
      simp only [List.length_cons, List.length_nil]
      omega
    rw [scanLog, hop]
    simp only [longAt_opcode, hdn, hda, hde, hdt, if_false, if_true]
    rw [show (12 : ℕ) = 4 * [file.toLong, pos.toLong, data.len.toLong].length from rfl, hparams]
    simp only [longAt_three, hnext, Update.scanItem]
  | truncate file length =>
    obtain ⟨hop, hparams⟩ := readLog_record before LOGTRUNCATE [file.toLong, length.toLong] after
      (by rw [hlog, truncate_encode])
    have hnext : (before.length : ℤ) + 4 + 8 = ((before ++ (Update.truncate file length).encode).length : ℤ) := by
      rw [truncate_encode, List.length_append, length_encodeLongs]
      simp only [List.length_cons, List.length_nil]
      omega
    rw [scanLog, hop]
    simp only [longAt_opcode, htn, hta, hte, if_false, if_true]
    rw [show (8 : ℕ) = 4 * [file.toLong, length.toLong].length from rfl, hparams]
    simp only [longAt_two, Update.scanItem, ← hnext]

theorem scanLog_updates (updates : List Update) (after : List Byte) (fuel : ℕ)
    (hlog : (d LOGFILE).data = ByteFile.ofList (before ++ encodeUpdates updates ++ after)) :
    scanLog .big d (fuel + updates.length) before.length =
      (scanLog .big d fuel (before ++ encodeUpdates updates).length).map fun (good, items) =>
        (good, updates.map Update.scanItem ++ items) := by
  induction updates generalizing before with
  | nil => simp [encodeUpdates]
  | cons update updates ih =>
    rw [encodeUpdates_cons] at hlog
    have hhead := scanLog_update before update (encodeUpdates updates ++ after) (fuel + updates.length)
      (by rw [hlog]; simp only [List.append_assoc])
    have hrest := ih (before ++ update.encode) (by rw [hlog]; simp only [List.append_assoc])
    rw [List.length_cons, ← Nat.add_assoc, hhead, hrest, Option.map_map, encodeUpdates_cons]
    simp only [List.append_assoc, List.map_cons, List.cons_append]
    rfl

theorem copyData_eq {file : ℤ} (hfile : file ≠ LOGFILE) (before data after : List Byte)
    (filePos : ℕ) (hlog : (d LOGFILE).data = ByteFile.ofList (before ++ data ++ after)) :
    copyData d file before.length filePos data.length =
      (uphys_write d file filePos data, ReplayCode.ok, ((before ++ data).length : ℤ), data) := by
  induction hn : data.length using Nat.strong_induction_on generalizing d data before filePos with
  | _ n ih =>
    rw [copyData]
    by_cases hzero : n = 0
    · obtain rfl : data = [] := List.length_eq_zero_iff.mp (hn.trans hzero)
      rw [dif_pos hzero]
      simp only [List.append_nil, Prod.mk.injEq, and_true]
      rw [uphys_write, if_pos rfl, ByteFile.write_nil]
      exact (Function.update_eq_self file d).symm
    · -- the loop takes the first `m` bytes, and the rest is a shorter loop
      rw [dif_neg hzero]
      obtain ⟨m, hm⟩ : ∃ m, m = min n 4096 := ⟨_, rfl⟩
      have htake : (data.take m).length = m := by rw [List.length_take]; omega
      have hdrop : (data.drop m).length = n - m := by rw [List.length_drop, hn]
      have hsplit : before ++ data ++ after = before ++ data.take m ++ (data.drop m ++ after) := by
        rw [List.append_assoc, List.append_assoc, ← List.append_assoc (data.take m), List.take_append_drop]
      have hread : readLog d before.length m = some (data.take m) := by
        have hmid := readLog_middle (d := d) before (data.take m) (data.drop m ++ after)
          (by rw [hlog, hsplit])
        rwa [htake] at hmid
      have hrest := ih (n - m) (by omega) (d := uphys_write d file filePos (data.take m)) (before ++ data.take m)
        (data.drop m) (filePos + m)
        (by rw [uphys_write_other _ _ _ (Ne.symm hfile), hlog, hsplit]; simp only [List.append_assoc]) hdrop
      have hpos : ((before ++ data.take m).length : ℤ) = before.length + (m : ℤ) := by
        rw [List.length_append, htake]
        omega
      have hwrites := uphys_write_append d file filePos (data.take m) (data.drop m)
      rw [htake, List.take_append_drop] at hwrites
      rw [hpos, hwrites, List.append_assoc, List.take_append_drop] at hrest
      simp only [← hm, hread, hrest, List.take_append_drop]

theorem Offset.ne_LOGFILE (file : Offset) : (file.val : ℤ) ≠ LOGFILE := by
  have hpos : (0 : ℤ) ≤ file.val := Int.natCast_nonneg _
  have hlog : LOGFILE < 0 := by decide
  omega

theorem Update.apply_log (d : Disk) (update : Update) : update.apply d LOGFILE = d LOGFILE := by
  cases update with
  | write file pos data => exact uphys_write_other d _ _ (Ne.symm (Offset.ne_LOGFILE file))
  | truncate file length => exact uphys_truncate_other d _ (Ne.symm (Offset.ne_LOGFILE file))

theorem foldl_apply_log (d : Disk) (updates : List Update) : updates.foldl Update.apply d LOGFILE = d LOGFILE := by
  induction updates generalizing d with
  | nil => rfl
  | cons update updates ih => exact (ih _).trans (update.apply_log d)

theorem replayPass_update (update : Update) (after : List Byte) (fuel : ℕ)
    (hlog : (d LOGFILE).data = ByteFile.ofList (before ++ update.encode ++ after)) :
    replayPass .big (fuel + 1) before.length d =
      (replayPass .big fuel (before ++ update.encode).length (update.apply d)).map (.cons update.replayItem) := by
  obtain ⟨⟨_, _, htn, hdn⟩, ⟨_, hta, hda⟩, ⟨hte, hde⟩, hdt⟩ := opcodes_distinct
  cases update with
  | write file pos data =>
    obtain ⟨hop, hparams⟩ := readLog_record before LOGDATA [file.toLong, pos.toLong, data.len.toLong]
      (data.val ++ after)
      (by rw [hlog, write_encode]; simp only [List.append_assoc])
    have hheader : ((before ++ encodeLongs [LOGDATA, file.toLong, pos.toLong, data.len.toLong]).length : ℤ) =
        before.length + 4 + 12 := by
      rw [List.length_append, length_encodeLongs]
      simp only [List.length_cons, List.length_nil]
      omega
    have hcopy := copyData_eq file.ne_LOGFILE
      (before ++ encodeLongs [LOGDATA, file.toLong, pos.toLong, data.len.toLong]) data.val after pos.val
      (by rw [hlog, write_encode]; simp only [List.append_assoc])
    rw [hheader, List.append_assoc, ← write_encode] at hcopy
    rw [replayPass, hop]
    simp only [longAt_opcode, hdn, hda, hde, hdt, if_false, if_true]
    rw [show (12 : ℕ) = 4 * [file.toLong, pos.toLong, data.len.toLong].length from rfl, hparams]
    simp only [longAt_three, ByteOrder.ntohl_big, Offset.toOffset_toLong, Offset.toInt_toLong, Int.toNat_natCast]
    rw [show data.len.val = data.val.length from rfl, hcopy]
    rfl
  | truncate file length =>
    obtain ⟨hop, hparams⟩ := readLog_record before LOGTRUNCATE [file.toLong, length.toLong] after
      (by rw [hlog, truncate_encode])
    have hnext : (before.length : ℤ) + 4 + 8 = ((before ++ (Update.truncate file length).encode).length : ℤ) := by
      rw [truncate_encode, List.length_append, length_encodeLongs]
      simp only [List.length_cons, List.length_nil]
      omega
    rw [replayPass, hop]
    simp only [longAt_opcode, htn, hta, hte, if_false, if_true]
    rw [show (8 : ℕ) = 4 * [file.toLong, length.toLong].length from rfl, hparams]
    simp only [longAt_two, ByteOrder.ntohl_big, Offset.toOffset_toLong, Offset.toInt_toLong, hnext]
    rfl

def Replay.prepend (items : List ReplayItem) (r : Replay) : Replay := { r with items := items ++ r.items }

theorem replayPass_updates (updates : List Update) (after : List Byte) (fuel : ℕ)
    (hlog : (d LOGFILE).data = ByteFile.ofList (before ++ encodeUpdates updates ++ after)) :
    replayPass .big (fuel + updates.length) before.length d =
      (replayPass .big fuel (before ++ encodeUpdates updates).length (updates.foldl Update.apply d)).map
        (.prepend (updates.map Update.replayItem)) := by
  induction updates generalizing before d with
  | nil =>
    have hid : Replay.prepend [] = id := rfl
    simp [encodeUpdates, hid]
  | cons update updates ih =>
    rw [encodeUpdates_cons] at hlog
    have hhead := replayPass_update before update (encodeUpdates updates ++ after) (fuel + updates.length)
      (by rw [hlog]; simp only [List.append_assoc])
    have hrest := ih (d := update.apply d) (before ++ update.encode)
      (by rw [update.apply_log, hlog]; simp only [List.append_assoc])
    rw [List.length_cons, ← Nat.add_assoc, hhead, hrest, Option.map_map, encodeUpdates_cons]
    simp only [List.append_assoc, List.map_cons, List.foldl_cons]
    rfl

theorem passes_end (version : Version) (hversion : version.InRange) (fuel : ℕ)
    (hlog : (d LOGFILE).data = ByteFile.ofList (before ++ encodeEnd version)) :
    scanLog .big d (fuel + 1) before.length = some (true, [.commit]) ∧
      replayPass .big (fuel + 1) before.length d = some ⟨uphys_setlabel d 0 version, .ok, [.setlabel version]⟩ := by
  obtain ⟨⟨_, hen, _, _⟩, ⟨hea, _, _⟩, _, _⟩ := opcodes_distinct
  obtain ⟨hop, hparams⟩ := readLog_record before LOGEND version.longs []
    (by rw [hlog, encodeEnd, List.append_nil])
  constructor
  · rw [scanLog, hop]
    simp only [longAt_opcode, hen, hea, if_false, if_true]
  · rw [replayPass, hop]
    simp only [longAt_opcode, hen, hea, if_false, if_true]
    rw [show (8 : ℕ) = 4 * version.longs.length from rfl, hparams]
    simp only [Version.longs, longAt_two, ← hversion.1, ← hversion.2]

theorem passes_new (after : List Byte) (fuel : ℕ)
    (hlog : (d LOGFILE).data = ByteFile.ofList (encodeLongs [LOGNEW] ++ after)) :
    scanLog .big d (fuel + 1) 0 = (scanLog .big d fuel (encodeLongs [LOGNEW]).length).map
        (fun (good, items) => (good, .new :: items)) ∧
      replayPass .big (fuel + 1) 0 d = (replayPass .big fuel (encodeLongs [LOGNEW]).length d).map (.cons .new) := by
  obtain ⟨hop, _⟩ := readLog_record [] LOGNEW [] after (by rw [hlog, List.nil_append])
  change readLog d 0 4 = _ at hop
  constructor
  · rw [scanLog, hop]
    simp only [longAt_opcode, if_true]
    rfl
  · rw [replayPass, hop]
    simp only [longAt_opcode, if_true]
    rfl

def encodeTransaction (updates : List Update) (version : Version) : List Byte :=
  encodeLongs [LOGNEW] ++ encodeUpdates updates ++ encodeEnd version

theorem passes_transaction (updates : List Update) (version : Version) (hversion : version.InRange)
    (hlog : (d LOGFILE).data = ByteFile.ofList (encodeTransaction updates version)) {fuel : ℕ}
    (hfuel : updates.length + 2 ≤ fuel) :
    scanLog .big d fuel 0 = some (true, .new :: updates.map Update.scanItem ++ [.commit]) ∧
      replayPass .big fuel 0 d = some ⟨uphys_setlabel (updates.foldl Update.apply d) 0 version, .ok,
        .new :: updates.map Update.replayItem ++ [.setlabel version]⟩ := by
  obtain ⟨more, rfl⟩ := Nat.exists_eq_add_of_le hfuel
  have hsplit : updates.length + 2 + more = more + 1 + updates.length + 1 := by omega
  rw [hsplit]
  have hstart := passes_new (encodeUpdates updates ++ encodeEnd version) (more + 1 + updates.length)
    (by rw [hlog, encodeTransaction, List.append_assoc])
  have hscan := scanLog_updates (encodeLongs [LOGNEW]) updates (encodeEnd version) (more + 1) hlog
  have hreplay := replayPass_updates (encodeLongs [LOGNEW]) updates (encodeEnd version) (more + 1) hlog
  have hscanEnd := (passes_end (encodeLongs [LOGNEW] ++ encodeUpdates updates) version hversion more hlog).1
  have hreplayEnd := (passes_end (d := updates.foldl Update.apply d)
    (encodeLongs [LOGNEW] ++ encodeUpdates updates) version hversion more (by rw [foldl_apply_log, hlog]; rfl)).2
  constructor
  · rw [hstart.1, hscan, hscanEnd]
    rfl
  · rw [hstart.2, hreplay, hreplayEnd]
    rfl

theorem roundTrips_big (d : Disk) (updates : List Update) (version : Version) (hversion : version.InRange)
    (hempty : (d LOGFILE).data = ByteFile.empty) : RoundTrips .big d updates version := by
  obtain ⟨hscan, hreplay⟩ := passes_transaction updates version hversion
    (logTransaction_logIs .big d updates version hempty).log le_rfl
  exact ⟨updates.length + 2, _, hscan, hreplay, rfl, rfl, rfl⟩

theorem scanLog_little (d : Disk) (updates : List Update) (version : Version)
    (hempty : (d LOGFILE).data = ByteFile.empty) (fuel : ℕ) :
    scanLog .little (logTransaction .little d updates version) (fuel + 1) 0 = some (false, []) := by
  have hlog := (logTransaction_logIs .little d updates version hempty).log
  obtain ⟨hop, _⟩ := readLog_record [] LOGNEW [] (encodeUpdates updates ++ encodeEnd version)
    (by rw [hlog, List.nil_append, List.append_assoc])
  change readLog _ 0 4 = _ at hop
  obtain ⟨hn, ha, he, ht, hd⟩ : longAt .little (encodeLongs [LOGNEW]) 0 ≠ LOGNEW ∧
      longAt .little (encodeLongs [LOGNEW]) 0 ≠ LOGABORT ∧ longAt .little (encodeLongs [LOGNEW]) 0 ≠ LOGEND ∧
      longAt .little (encodeLongs [LOGNEW]) 0 ≠ LOGTRUNCATE ∧ longAt .little (encodeLongs [LOGNEW]) 0 ≠ LOGDATA := by
    decide
  rw [scanLog, hop]
  simp only [hn, ha, he, ht, hd, if_false]

/-- The log format round trips on exactly the big-endian hosts. -/
theorem roundTrips_iff (order : ByteOrder) (d : Disk) (updates : List Update) (version : Version)
    (hversion : version.InRange) (hempty : (d LOGFILE).data = ByteFile.empty) :
    RoundTrips order d updates version ↔ order = .big := by
  constructor
  · rintro ⟨fuel, _, hscan, _⟩
    cases order with
    | big => rfl
    | little =>
      cases fuel with
      | zero => cases hscan
      | succ fuel =>
        rw [scanLog_little d updates version hempty fuel] at hscan
        cases hscan
  · rintro rfl
    exact roundTrips_big d updates version hversion hempty

def freshDisk : Disk := fun file => ⟨if file = 0 then some ⟨1, 1⟩ else none, ByteFile.empty⟩

def oneByte : List Update := [.write 0 0 ⟨[7], by decide⟩]

/-- A little-endian host loses a committed transaction: `ReplayLog` discards the
log and leaves the database as it was. -/
theorem committed_log_discarded :
    ¬RoundTrips .little freshDisk oneByte ⟨1, 2⟩ ∧
      ReplayLog .little 1 (logTransaction .little freshDisk oneByte ⟨1, 2⟩) =
        some (uphys_truncate (logTransaction .little freshDisk oneByte ⟨1, 2⟩) LOGFILE 0, .ok) := by
  constructor
  · rintro ⟨fuel, _, hscan, _⟩
    cases fuel with
    | zero => cases hscan
    | succ fuel =>
      rw [scanLog_little freshDisk oneByte ⟨1, 2⟩ rfl fuel] at hscan
      cases hscan
  · rw [ReplayLog, scanLog_little freshDisk oneByte ⟨1, 2⟩ rfl 0]

/-- `roundTrips_iff` at one write of one byte. -/
theorem roundTrips_iff_oneByte : RoundTrips .big freshDisk oneByte ⟨1, 2⟩ ↔ ByteOrder.big = .big :=
  roundTrips_iff .big freshDisk oneByte ⟨1, 2⟩ (by decide) rfl

end dce.ubik
