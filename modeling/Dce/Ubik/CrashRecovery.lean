import Dce.Ubik.LogFormat
import Dce.Ubik.MergedTruncation

open lib

namespace dce.ubik

theorem ReplayLog_committed {d : Disk} (updates : List Update) (version : Version) (hversion : version.InRange)
    (hlog : (d LOGFILE).data = ByteFile.ofList (encodeTransaction updates version)) {fuel : ℕ}
    (hfuel : updates.length + 2 ≤ fuel) :
    ReplayLog .big fuel d =
      some (uphys_truncate (uphys_setlabel (updates.foldl Update.apply d) 0 version) LOGFILE 0, .ok) := by
  obtain ⟨hscan, hreplay⟩ := passes_transaction updates version hversion hlog hfuel
  rw [ReplayLog, hscan, hreplay]
  rfl

/-- A log in which the first pass comes to the end of the bytes without a commit
record: only the start and some updates are there, and perhaps the header of the
next one. -/
inductive Uncommitted : List Byte → Prop where
  | empty : Uncommitted []
  | updates (updates : List Update) : Uncommitted (encodeLongs [LOGNEW] ++ encodeUpdates updates)
  | header (updates : List Update) (file pos len : Offset) :
      Uncommitted (encodeLongs [LOGNEW] ++ encodeUpdates updates ++
        encodeLongs [LOGDATA, file.toLong, pos.toLong, len.toLong])

theorem scanLog_end {d : Disk} {bytes : List Byte} (hlog : (d LOGFILE).data = ByteFile.ofList bytes) {tpos : ℤ}
    (htpos : (bytes.length : ℤ) ≤ tpos) (fuel : ℕ) : scanLog .big d (fuel + 1) tpos = some (false, []) := by
  rw [scanLog, readLog_end hlog htpos (by decide)]

theorem scanLog_uncommitted {d : Disk} {bytes : List Byte} (hbytes : Uncommitted bytes)
    (hlog : (d LOGFILE).data = ByteFile.ofList bytes) :
    ∃ enough, ∀ fuel, enough ≤ fuel → ∃ items, scanLog .big d fuel 0 = some (false, items) := by
  cases hbytes with
  | empty =>
    refine ⟨1, fun fuel hfuel => ⟨[], ?_⟩⟩
    obtain ⟨more, rfl⟩ := Nat.exists_eq_add_of_le' hfuel
    exact scanLog_end hlog (by simp) more
  | updates updates =>
    refine ⟨updates.length + 2, fun fuel hfuel => ⟨.new :: updates.map Update.scanItem ++ [], ?_⟩⟩
    obtain ⟨more, rfl⟩ := Nat.exists_eq_add_of_le hfuel
    have hsplit : updates.length + 2 + more = more + 1 + updates.length + 1 := by omega
    have hscan := scanLog_updates (encodeLongs [LOGNEW]) updates [] (more + 1) (by rw [hlog, List.append_nil])
    rw [hsplit, (passes_new (encodeUpdates updates) _ hlog).1, hscan, scanLog_end hlog (Int.le_refl _)]
    rfl
  | header updates file pos len =>
    obtain ⟨⟨_, _, _, hdn⟩, ⟨_, _, hda⟩, ⟨_, hde⟩, hdt⟩ := opcodes_distinct
    refine ⟨updates.length + 3, fun fuel hfuel =>
      ⟨.new :: updates.map Update.scanItem ++ [.data file.toLong pos.toLong len.toLong], ?_⟩⟩
    obtain ⟨more, rfl⟩ := Nat.exists_eq_add_of_le hfuel
    have hsplit : updates.length + 3 + more = more + 1 + 1 + updates.length + 1 := by omega
    have hscan := scanLog_updates (encodeLongs [LOGNEW]) updates
      (encodeLongs [LOGDATA, file.toLong, pos.toLong, len.toLong]) (more + 1 + 1) hlog
    obtain ⟨hop, hparams⟩ := readLog_record (encodeLongs [LOGNEW] ++ encodeUpdates updates) LOGDATA
      [file.toLong, pos.toLong, len.toLong] [] (by rw [hlog, List.append_nil])
    -- the data is missing, so the record ends at or behind the end of the log
    have hskip : scanLog .big d (more + 1 + 1) (encodeLongs [LOGNEW] ++ encodeUpdates updates).length =
        some (false, [.data file.toLong pos.toLong len.toLong]) := by
      rw [scanLog, hop]
      simp only [longAt_opcode, hdn, hda, hde, hdt, if_false, if_true]
      rw [show (12 : ℕ) = 4 * [file.toLong, pos.toLong, len.toLong].length from rfl, hparams]
      simp only [longAt_three, Offset.toInt_toLong]
      rw [scanLog_end hlog (by simp only [List.length_append, length_encodeLongs, List.length_cons, List.length_nil]; omega)]
      rfl
    rw [hsplit, (passes_new _ _ (by rw [hlog, List.append_assoc])).1, hscan, hskip]
    simp

theorem ReplayLog_uncommitted {d : Disk} {bytes : List Byte} (hbytes : Uncommitted bytes)
    (hlog : (d LOGFILE).data = ByteFile.ofList bytes) :
    ∃ enough, ∀ fuel, enough ≤ fuel → ReplayLog .big fuel d = some (uphys_truncate d LOGFILE 0, .ok) := by
  obtain ⟨enough, henough⟩ := scanLog_uncommitted hbytes hlog
  refine ⟨enough, fun fuel hfuel => ?_⟩
  obtain ⟨items, hscan⟩ := henough fuel hfuel
  rw [ReplayLog, hscan]

def Touched (script : List FileOp) (page : ℕ) : Prop :=
  ∃ offset data, FileOp.write offset data ∈ script ∧ touches offset data.length page

open Classical in
/-- A byte of the file that commit leaves, as long as it lies inside. -/
noncomputable def committedByte (d : Disk) (b : Buffers) (script : List FileOp) (i : ℕ) : Byte :=
  if Touched script (i / UBIK_PAGESIZE) then (lastWritten script i).getD (buffered d b i) else (d 0).data.byte i

/-- Below the final length, the pages that commit writes hold the bytes that the
updates leave one by one. A byte no update touches is in the buffer as it is in
the file. A byte that a truncation has cut off for good is zero where commit finds
it: in the last write to it, in the buffer, or in the file. -/
structure BytesAgree (d : Disk) (b : Buffers) (script : List FileOp) : Prop where
  untouched : ∀ i < finalLength script (d 0).data.length, lastTouch script i = .untouched →
    Touched script (i / UBIK_PAGESIZE) → buffered d b i = (d 0).data.byte i
  cutWritten : ∀ i < finalLength script (d 0).data.length, lastTouch script i = .cut →
    ∀ byte, lastWritten script i = some byte → byte = 0
  cutBuffered : ∀ i < finalLength script (d 0).data.length, lastTouch script i = .cut →
    lastWritten script i = none → Touched script (i / UBIK_PAGESIZE) → buffered d b i = 0
  cutFile : ∀ i < finalLength script (d 0).data.length, lastTouch script i = .cut →
    ¬Touched script (i / UBIK_PAGESIZE) → (d 0).data.byte i = 0

theorem touched_of_written {script : List FileOp} {i : ℕ} {byte : Byte} (hwritten : lastWritten script i = some byte) :
    Touched script (i / UBIK_PAGESIZE) := by
  induction script using List.reverseRecOn with
  | nil => simp [lastWritten] at hwritten
  | append_singleton script op ih =>
    have hgrow : Touched script (i / UBIK_PAGESIZE) → Touched (script ++ [op]) (i / UBIK_PAGESIZE) := by
      rintro ⟨offset, data, hmem, htouch⟩
      exact ⟨offset, data, List.mem_append_left _ hmem, htouch⟩
    cases op with
    | truncate length =>
      rw [lastWritten_snoc_truncate] at hwritten
      exact hgrow (ih hwritten)
    | write offset data =>
      rw [lastWritten_snoc_write] at hwritten
      by_cases hin : covers offset data i
      · exact ⟨offset, data, List.mem_append_right _ (List.mem_singleton_self _), i, hin.1, hin.2, rfl⟩
      · rw [if_neg hin] at hwritten
        exact hgrow (ih hwritten)

theorem BytesAgree.value_eq {d : Disk} {b : Buffers} {script : List FileOp} (hagree : BytesAgree d b script) {i : ℕ}
    (hi : i < finalLength script (d 0).data.length) :
    (lastTouch script i).value ((d 0).data.byte i) = committedByte d b script i := by
  unfold committedByte
  cases htouch : lastTouch script i with
  | untouched =>
    rw [(lastWritten_of_lastTouch script i).2 htouch]
    split
    · next hpage => exact (hagree.untouched i hi htouch hpage).symm
    · rfl
  | written byte =>
    have hwritten := (lastWritten_of_lastTouch script i).1 byte htouch
    rw [if_pos (touched_of_written hwritten), hwritten]
    rfl
  | cut =>
    cases hwritten : lastWritten script i with
    | some byte =>
      rw [if_pos (touched_of_written hwritten), hagree.cutWritten i hi htouch byte hwritten]
      rfl
    | none =>
      split
      · next hpage => exact (hagree.cutBuffered i hi htouch hwritten hpage).symm
      · next hpage => exact (hagree.cutFile i hi htouch hpage).symm

section

variable {d : Disk} {b : Buffers} {script : List FileOp} {committed : ByteFile}
  (hcommitted : ∀ i < committed.length, committed.byte i = committedByte d b script i)

include hcommitted

theorem runScript_eq_iff :
    runScript script (d 0).data = committed ↔
      finalLength script (d 0).data.length = committed.length ∧ BytesAgree d b script := by
  constructor
  · rintro rfl
    have hlength := runScript_length script (d 0).data
    have hbyte : ∀ i < finalLength script (d 0).data.length, (lastTouch script i).value ((d 0).data.byte i) =
        committedByte d b script i := fun i hi => by
      rw [← hcommitted i (by rwa [hlength]), runScript_byte]
    refine ⟨hlength.symm, ?_, ?_, ?_, ?_⟩
    · intro i hi htouch hpage
      have hi' := hbyte i hi
      rw [htouch, committedByte, if_pos hpage, (lastWritten_of_lastTouch script i).2 htouch] at hi'
      exact hi'.symm
    · intro i hi htouch byte hwritten
      have hi' := hbyte i hi
      rw [htouch, committedByte, if_pos (touched_of_written hwritten), hwritten] at hi'
      exact hi'.symm
    · intro i hi htouch hwritten hpage
      have hi' := hbyte i hi
      rw [htouch, committedByte, if_pos hpage, hwritten] at hi'
      exact hi'.symm
    · intro i hi htouch hpage
      have hi' := hbyte i hi
      rw [htouch, committedByte, if_neg hpage] at hi'
      exact hi'.symm
  · rintro ⟨hlength, hagree⟩
    have hlen : (runScript script (d 0).data).length = committed.length := (runScript_length _ _).trans hlength
    refine ByteFile.ext hlen fun i hi => ?_
    rw [runScript_length] at hi
    rw [hcommitted i (hlength ▸ hi), runScript_byte]
    exact hagree.value_eq hi

theorem runScript_crashed (hlength : finalLength script (d 0).data.length = committed.length)
    (hagree : BytesAgree d b script) {crashed : ByteFile}
    (hcrashed : Grows script → (d 0).data.length ≤ crashed.length ∧ crashed.length ≤ committed.length)
    (hbyte : ∀ i < committed.length,
      crashed.byte i = (d 0).data.byte i ∨ crashed.byte i = committedByte d b script i) :
    runScript script crashed = committed := by
  have hfinal : finalLength script crashed.length = committed.length := by
    by_cases hgrows : Grows script
    · obtain ⟨hlo, hhi⟩ := hcrashed hgrows
      refine le_antisymm ((hgrows.finalLength_le_iff _ _).mpr ⟨hhi, ?_⟩) ?_
      · exact ((hgrows.finalLength_le_iff _ _).mp (le_of_eq hlength)).2
      · rw [← hlength]
        obtain ⟨hfrom, hends⟩ := (hgrows.finalLength_le_iff _ _).mp (le_refl (finalLength script crashed.length))
        exact (hgrows.finalLength_le_iff _ _).mpr ⟨hlo.trans hfrom, hends⟩
    · rw [finalLength_of_truncate hgrows _ (d 0).data.length, hlength]
  refine ByteFile.ext ((runScript_length _ _).trans hfinal) fun i hi => ?_
  rw [runScript_length, hfinal] at hi
  have hvalue := hagree.value_eq (i := i) (hlength ▸ hi)
  rw [hcommitted i hi, runScript_byte]
  cases htouch : lastTouch script i with
  | untouched =>
    rw [htouch] at hvalue
    rcases hbyte i hi with hold | hnew
    · exact hold.trans hvalue
    · exact hnew
  | cut => rwa [htouch] at hvalue
  | written byte => rwa [htouch] at hvalue

end

theorem flush_spec {b : Buffers} (hheld : b.Held) (d : Disk) (pages : List ℕ) (hpages : ∀ p ∈ pages, p ∈ b.dirty) :
    (∀ file, file ≠ 0 → pages.foldl (flushPage b) d file = d file) ∧
      (∀ i, (pages.foldl (flushPage b) d 0).data.byte i =
        if i / UBIK_PAGESIZE ∈ pages then buffered d b i else (d 0).data.byte i) ∧
      ∀ n, (pages.foldl (flushPage b) d 0).data.length ≤ n ↔
        (d 0).data.length ≤ n ∧ ∀ p ∈ pages, (p + 1) * UBIK_PAGESIZE ≤ n := by
  induction pages using List.reverseRecOn with
  | nil => simp
  | append_singleton pages page ih =>
    obtain ⟨hother, hbyte, hlength⟩ := ih fun p hp => hpages p (List.mem_append_left _ hp)
    have hpage : page ∈ b.dirty := hpages page (by simp)
    have hbytes : (b.bytes page).length = UBIK_PAGESIZE := b.bytes_length page
    have hne : b.bytes page ≠ [] := List.ne_nil_of_length_pos (by rw [hbytes]; exact Nat.succ_pos _)
    simp only [List.foldl_append, List.foldl_cons, List.foldl_nil, flushPage]
    refine ⟨fun file hfile => ?_, fun i => ?_, fun n => ?_⟩
    · rw [uphys_write_other _ _ _ hfile, hother file hfile]
    · rw [uphys_write_data]
      by_cases hin : i / UBIK_PAGESIZE = page
      · have hmem : i / UBIK_PAGESIZE ∈ pages ++ [page] := List.mem_append_right _ (List.mem_singleton.mpr hin)
        have hmod := Nat.div_add_mod' i UBIK_PAGESIZE
        have hlt : i % UBIK_PAGESIZE < UBIK_PAGESIZE := Nat.mod_lt _ (Nat.succ_pos _)
        rw [hin] at hmod
        have hcover : page * UBIK_PAGESIZE ≤ i ∧ i < page * UBIK_PAGESIZE + (b.bytes page).length := by
          rw [hbytes]
          exact ⟨by omega, by omega⟩
        have hoffset : i - page * UBIK_PAGESIZE = i % UBIK_PAGESIZE := by omega
        rw [ByteFile.write_byte_inside _ _ _ hcover.1 hcover.2, if_pos hmem, hoffset, hheld.bytes_getD d hpage hin]
      · have hout : ¬(page * UBIK_PAGESIZE ≤ i ∧ i < page * UBIK_PAGESIZE + (b.bytes page).length) := by
          rw [hbytes]
          simp only [UBIK_PAGESIZE] at hin ⊢
          omega
        rw [ByteFile.write_byte_outside _ _ _ hout, hbyte i]
        simp [hin]
    · rw [uphys_write_data, ByteFile.write_length_of_ne_nil _ _ hne, Nat.max_le, hlength n, hbytes]
      simp only [List.mem_append, List.mem_singleton, or_imp, forall_and, forall_eq, Nat.add_mul, Nat.one_mul, and_assoc]

theorem replay_spec (script : List DbUpdate) (d : Disk) :
    (∀ file, file ≠ 0 → (script.map DbUpdate.toUpdate).foldl Update.apply d file = d file) ∧
      ((script.map DbUpdate.toUpdate).foldl Update.apply d 0).data =
        runScript (script.map DbUpdate.toOp) (d 0).data := by
  induction script generalizing d with
  | nil => exact ⟨fun _ _ => rfl, rfl⟩
  | cons update script ih =>
    obtain ⟨hother, hdata⟩ := ih (update.toUpdate.apply d)
    have hhead : (∀ file, file ≠ 0 → update.toUpdate.apply d file = d file) ∧
        (update.toUpdate.apply d 0).data = update.toOp.apply (d 0).data := by
      cases update with
      | write pos data =>
        exact ⟨fun file hfile => uphys_write_other d pos data.val hfile, uphys_write_data d 0 pos data.val⟩
      | truncate length =>
        exact ⟨fun file hfile => uphys_truncate_other d length hfile, uphys_truncate_data d 0 length⟩
    refine ⟨fun file hfile => (hother file hfile).trans (hhead.1 file hfile), ?_⟩
    rw [List.map_cons, List.foldl_cons, hdata, hhead.2]
    rfl

theorem labelled_eq_iff {d d' : Disk} (hother : ∀ file, file ≠ 0 → d' file = d file) (version : Version) :
    uphys_truncate (uphys_setlabel d' 0 version) LOGFILE 0 = uphys_truncate (uphys_setlabel d 0 version) LOGFILE 0 ↔
      (d' 0).data = (d 0).data := by
  constructor
  · intro heq
    have hfile := congrFun heq 0
    rw [uphys_truncate_other _ _ (by decide), uphys_truncate_other _ _ (by decide)] at hfile
    simpa using congrArg PhysFile.data hfile
  · intro heq
    have hlabelled : uphys_setlabel d' 0 version = uphys_setlabel d 0 version := by
      funext file
      by_cases hfile : file = 0
      · subst hfile
        simp [uphys_setlabel, heq]
      · rw [uphys_setlabel_other _ _ hfile, uphys_setlabel_other _ _ hfile, hother file hfile]
    rw [hlabelled]

def atCommit (d : Disk) (b : Buffers) (script : List DbUpdate) (version : Version) : WriteTrans :=
  commitLog .big ((udisk_begin .big d b).updates .big script) version

section

variable {d : Disk} {b : Buffers} (script : List DbUpdate) (version : Version)
  (hclean : b.dirty = []) (hempty : (d LOGFILE).data = ByteFile.empty)

include hclean hempty

theorem atCommit_log : LogIs d (atCommit d b script version).disk
    (encodeTransaction (script.map DbUpdate.toUpdate) version) :=
  (WriteTrans.Ran.updates .big hclean hempty script).log.appendLongs .big (LOGEND :: version.longs)

theorem atCommit_dirty (page : ℕ) :
    page ∈ (atCommit d b script version).buffers.dirty ↔ Touched (script.map DbUpdate.toOp) page := by
  have hdirty := (WriteTrans.Ran.updates .big hclean hempty script).dirty page
  rw [hclean] at hdirty
  simpa [atCommit, commitLog, Touched] using hdirty

theorem atCommit_buffered (i : ℕ) :
    buffered d (atCommit d b script version).buffers i =
      (lastWritten (script.map DbUpdate.toOp) i).getD (buffered d b i) :=
  (WriteTrans.Ran.updates .big hclean hempty script).buffered i

theorem atCommit_flush (pages : List ℕ) (hpages : ∀ p ∈ pages, p ∈ (atCommit d b script version).buffers.dirty) :
    let t := atCommit d b script version
    (∀ file, file ≠ 0 → pages.foldl (flushPage t.buffers) t.disk file = t.disk file) ∧
      (∀ i, (pages.foldl (flushPage t.buffers) t.disk 0).data.byte i =
        if i / UBIK_PAGESIZE ∈ pages then buffered d t.buffers i else (d 0).data.byte i) ∧
      ∀ n, (pages.foldl (flushPage t.buffers) t.disk 0).data.length ≤ n ↔
        (d 0).data.length ≤ n ∧ ∀ p ∈ pages, (p + 1) * UBIK_PAGESIZE ≤ n := by
  have hheld := (WriteTrans.Ran.updates .big hclean hempty script).held
  have hdb := (atCommit_log script version hclean hempty).db
  obtain ⟨hother, hbyte, hlength⟩ := flush_spec hheld (atCommit d b script version).disk pages hpages
  refine ⟨hother, fun i => ?_, fun n => ?_⟩
  · rw [← buffered_congr hdb, ← hdb]
    exact hbyte i
  · rw [← hdb]
    exact hlength n

theorem atCommit_data :
    let t := atCommit d b script version
    (∀ file, file ≠ 0 → (DoTruncs (commitFlush t)).disk file = t.disk file) ∧
      ((DoTruncs (commitFlush t)).disk 0).data.length =
        pagedLength (script.map DbUpdate.toOp) (DFlush t.buffers t.disk 0).data.length ∧
      ∀ i < ((DoTruncs (commitFlush t)).disk 0).data.length, ((DoTruncs (commitFlush t)).disk 0).data.byte i =
        if i / UBIK_PAGESIZE ∈ t.buffers.dirty then buffered d t.buffers i else (d 0).data.byte i := by
  obtain ⟨hother, hbyte, _⟩ := atCommit_flush script version hclean hempty _ fun _ hp => hp
  have htruncs : (commitFlush (atCommit d b script version)).truncs =
      mergedTruncation none (script.map DbUpdate.toOp) :=
    (WriteTrans.Ran.updates .big hclean hempty script).truncs
  simp only [DoTruncs, htruncs, pagedLength]
  cases mergedTruncation none (script.map DbUpdate.toOp) with
  | none => exact ⟨hother, rfl, fun i _ => hbyte i⟩
  | some length =>
    refine ⟨fun file hfile => (uphys_truncate_other _ _ hfile).trans (hother file hfile), ?_, fun i hi => ?_⟩
    · rw [uphys_truncate_data]
      rfl
    · rw [uphys_truncate_data, ByteFile.truncate_length] at hi
      rw [uphys_truncate_data, ByteFile.truncate_byte_of_lt _ hi]
      exact hbyte i

end

/-- The disks that a crash can leave before the commit record is on disk: the log
holds some of the updates, and perhaps the header of the next one. -/
inductive CrashedBefore (d : Disk) (b : Buffers) (script : List DbUpdate) : Disk → Prop where
  | notBegun : CrashedBefore d b script d
  | logged (done rest : List DbUpdate) : script = done ++ rest →
      CrashedBefore d b script ((udisk_begin .big d b).updates .big done).disk
  | header (done : List DbUpdate) (pos : Offset) (data : Block) (rest : List DbUpdate) :
      script = done ++ .write pos data :: rest →
      CrashedBefore d b script (logWriteHeader .big ((udisk_begin .big d b).updates .big done).disk
        (0 : Offset).toLong pos.toLong data.len.toLong)

/-- The disks that a crash can leave in `udisk_commit` after the commit record is on
disk and before the log is discarded: any of the dirty pages may have reached the
disk, or all of them and perhaps the truncation and the label. -/
inductive CrashedAfter (t : WriteTrans) (version : Version) : Disk → Prop where
  | flushing (pages : List ℕ) : (∀ p ∈ pages, p ∈ t.buffers.dirty) →
      CrashedAfter t version (pages.foldl (flushPage t.buffers) t.disk)
  | truncated : CrashedAfter t version (DoTruncs (commitFlush t)).disk
  | labelled : CrashedAfter t version (uphys_setlabel (DoTruncs (commitFlush t)).disk 0 version)

/-- With enough fuel, recovery ends in the given disk and version. -/
def Recovers (d d' : Disk) (version : Version) : Prop :=
  ∃ enough, ∀ fuel, enough ≤ fuel → urecovery_Initialize .big fuel d = some (d', some version)

/-- Recovery after a crash undoes a transaction whose commit record is not on disk,
and completes one whose commit record is as `udisk_commit` does. -/
structure RecoveryEqualsCommit (d : Disk) (b : Buffers) (script : List DbUpdate) (version : Version) : Prop where
  before : ∀ crashed, CrashedBefore d b script crashed →
    ∃ recovered, Recovers crashed recovered version ∧ recovered 0 = d 0
  after : ∀ crashed, CrashedAfter (atCommit d b script { version with counter := version.counter + 1 })
      { version with counter := version.counter + 1 } crashed →
    Recovers crashed (udisk_commit .big ((udisk_begin .big d b).updates .big script) version).2.disk
      (udisk_commit .big ((udisk_begin .big d b).updates .big script) version).1
  beyond : ∀ crashed recovered v, Recovers crashed recovered v → ∀ pos len, 0 < len →
    uphys_stat recovered 0 < pos + len → uphys_read recovered 0 pos len = none

/-- A host that can log and replay this version, and a database that is ready for a
write transaction. -/
structure Ready (d : Disk) (b : Buffers) (version : Version) : Prop where
  clean : b.dirty = []
  emptyLog : (d LOGFILE).data = ByteFile.empty
  label : (d 0).label = some version
  inRange : Version.InRange { version with counter := version.counter + 1 }

theorem recovers_unique {d d' d'' : Disk} {v' v'' : Version} (h' : Recovers d d' v') (h'' : Recovers d d'' v'') :
    d' = d'' ∧ v' = v'' := by
  obtain ⟨enough', hrun'⟩ := h'
  obtain ⟨enough'', hrun''⟩ := h''
  have heq := (hrun' (max enough' enough'') (Nat.le_max_left ..)).symm.trans (hrun'' _ (Nat.le_max_right ..))
  simpa using heq

theorem recovers_committed {d : Disk} (updates : List Update) (version : Version) (hversion : version.InRange)
    (hlog : (d LOGFILE).data = ByteFile.ofList (encodeTransaction updates version)) :
    Recovers d (uphys_truncate (uphys_setlabel (updates.foldl Update.apply d) 0 version) LOGFILE 0) version := by
  refine ⟨updates.length + 2, fun fuel hfuel => ?_⟩
  have hlabel : (uphys_truncate (uphys_setlabel (updates.foldl Update.apply d) 0 version) LOGFILE 0 0).label =
      some version := by
    rw [uphys_truncate_other _ _ (by decide), uphys_setlabel_label]
  simp only [urecovery_Initialize, ReplayLog_committed updates version hversion hlog hfuel, InitializeDB, uphys_getlabel,
    hlabel]

theorem recovers_uncommitted {d d' : Disk} {version : Version} (hlabel : (d 0).label = some version)
    {bytes : List Byte} (hbytes : Uncommitted bytes) (hlog : LogIs d d' bytes) :
    Recovers d' (uphys_truncate d' LOGFILE 0) version ∧ uphys_truncate d' LOGFILE 0 0 = d 0 := by
  have hdb : uphys_truncate d' LOGFILE 0 0 = d 0 := (uphys_truncate_other _ _ (by decide)).trans hlog.db
  obtain ⟨enough, hreplay⟩ := ReplayLog_uncommitted hbytes hlog.log
  refine ⟨⟨enough, fun fuel hfuel => ?_⟩, hdb⟩
  have hlabel' : (uphys_truncate d' LOGFILE 0 0).label = some version := by rw [hdb, hlabel]
  simp only [urecovery_Initialize, hreplay fuel hfuel, InitializeDB, uphys_getlabel, hlabel']

section

variable {d : Disk} {b : Buffers} {version : Version} (hready : Ready d b version) (script : List DbUpdate)

include hready

theorem recovers_before {crashed : Disk} (hcrashed : CrashedBefore d b script crashed) :
    ∃ recovered, Recovers crashed recovered version ∧ recovered 0 = d 0 := by
  have hstart : LogIs d d [] := ⟨hready.emptyLog.trans ByteFile.ofList_nil.symm, fun _ _ => rfl⟩
  cases hcrashed with
  | notBegun => exact ⟨_, recovers_uncommitted hready.label .empty hstart⟩
  | logged done rest hscript =>
    have hran := WriteTrans.Ran.updates .big hready.clean hready.emptyLog done
    exact ⟨_, recovers_uncommitted hready.label (.updates _) hran.log⟩
  | header done pos data rest hscript =>
    have hran := WriteTrans.Ran.updates .big hready.clean hready.emptyLog done
    exact ⟨_, recovers_uncommitted hready.label (.header _ _ _ _) (hran.log.logWriteHeader .big _ _ _)⟩

end

/-- The disk that commit leaves, except that the label is not set and the log not
discarded. -/
abbrev committedDisk (d : Disk) (b : Buffers) (script : List DbUpdate) (version : Version) : Disk :=
  (DoTruncs (commitFlush (atCommit d b script version))).disk

section

variable {d : Disk} {b : Buffers} (script : List DbUpdate) (version : Version)
  (hclean : b.dirty = []) (hempty : (d LOGFILE).data = ByteFile.empty)

include hclean hempty

theorem committedDisk_byte : ∀ i < (committedDisk d b script version 0).data.length,
    (committedDisk d b script version 0).data.byte i = committedByte d b (script.map DbUpdate.toOp) i := by
  intro i hi
  rw [committedDisk, (atCommit_data script version hclean hempty).2.2 i hi, atCommit_buffered script version hclean hempty,
    committedByte]
  by_cases hpage : Touched (script.map DbUpdate.toOp) (i / UBIK_PAGESIZE)
  · rw [if_pos ((atCommit_dirty script version hclean hempty _).mpr hpage), if_pos hpage]
  · rw [if_neg fun hmem => hpage ((atCommit_dirty script version hclean hempty _).mp hmem), if_neg hpage]

theorem committedDisk_length_iff :
    finalLength (script.map DbUpdate.toOp) (d 0).data.length = (committedDisk d b script version 0).data.length ↔
      LengthAgrees (script.map DbUpdate.toOp) (d 0).data.length := by
  rw [(atCommit_data script version hclean hempty).2.1]
  refine lengthAgrees_iff fun n => ?_
  rw [DFlush, (atCommit_flush script version hclean hempty _ fun _ hp => hp).2.2 n]
  simp only [atCommit_dirty script version hclean hempty, Touched]

theorem crashedAfter_spec {crashed : Disk} (hcrashed : CrashedAfter (atCommit d b script version) version crashed) :
    (∀ file, file ≠ 0 → crashed file = (atCommit d b script version).disk file) ∧
      (Grows (script.map DbUpdate.toOp) → (d 0).data.length ≤ (crashed 0).data.length ∧
        (crashed 0).data.length ≤ (committedDisk d b script version 0).data.length) ∧
      ∀ i < (committedDisk d b script version 0).data.length, (crashed 0).data.byte i = (d 0).data.byte i ∨
        (crashed 0).data.byte i = committedByte d b (script.map DbUpdate.toOp) i := by
  obtain ⟨hother, hlength, _⟩ := atCommit_data script version hclean hempty
  have hflush := atCommit_flush script version hclean hempty _ fun _ hp => hp
  have hbyte := committedDisk_byte script version hclean hempty
  have hgrown : Grows (script.map DbUpdate.toOp) → (committedDisk d b script version 0).data.length =
      (DFlush (atCommit d b script version).buffers (atCommit d b script version).disk 0).data.length := fun hgrows => by
    rw [committedDisk, hlength, pagedLength, mergedTruncation_none_of_grows hgrows, Option.getD_none]
  have hcommitted : Grows (script.map DbUpdate.toOp) →
      (d 0).data.length ≤ (committedDisk d b script version 0).data.length := fun hgrows => by
    rw [hgrown hgrows]
    exact ((hflush.2.2 _).mp (le_refl _)).1
  cases hcrashed with
  | flushing pages hpages =>
    obtain ⟨hsome, hsomebyte, hsomelength⟩ := atCommit_flush script version hclean hempty pages hpages
    refine ⟨hsome, fun hgrows => ⟨((hsomelength _).mp (le_refl _)).1, ?_⟩, fun i _ => ?_⟩
    · rw [hgrown hgrows, hsomelength]
      obtain ⟨hfrom, hall⟩ := (hflush.2.2 _).mp (le_refl _)
      exact ⟨hfrom, fun p hp => hall p (hpages p hp)⟩
    · rw [hsomebyte i]
      split
      · next hmem =>
        refine Or.inr ?_
        rw [committedByte, if_pos ((atCommit_dirty script version hclean hempty _).mp (hpages _ hmem)),
          atCommit_buffered script version hclean hempty]
      · exact Or.inl rfl
  | truncated => exact ⟨hother, fun hgrows => ⟨hcommitted hgrows, le_refl _⟩, fun i hi => Or.inr (hbyte i hi)⟩
  | labelled =>
    refine ⟨fun file hfile => (uphys_setlabel_other _ _ hfile).trans (hother file hfile), ?_, ?_⟩
    · rw [uphys_setlabel_data]
      exact fun hgrows => ⟨hcommitted hgrows, le_refl _⟩
    · rw [uphys_setlabel_data]
      exact fun i hi => Or.inr (hbyte i hi)

theorem recovers_commit_iff (hversion : version.InRange) {crashed : Disk}
    (hcrashed : CrashedAfter (atCommit d b script version) version crashed) :
    Recovers crashed (uphys_truncate (uphys_setlabel (committedDisk d b script version) 0 version) LOGFILE 0) version ↔
      runScript (script.map DbUpdate.toOp) (crashed 0).data = (committedDisk d b script version 0).data := by
  obtain ⟨hother, _, _⟩ := crashedAfter_spec script _ hclean hempty hcrashed
  obtain ⟨hcommitted, _⟩ := atCommit_data script version hclean hempty
  obtain ⟨hreplayed, hdata⟩ := replay_spec script crashed
  have hlog : (crashed LOGFILE).data = ByteFile.ofList (encodeTransaction (script.map DbUpdate.toUpdate) version) := by
    rw [hother LOGFILE (by decide)]
    exact (atCommit_log script version hclean hempty).log
  have hrecovers := recovers_committed _ version hversion hlog
  have hsame : ∀ file, file ≠ 0 → (script.map DbUpdate.toUpdate).foldl Update.apply crashed file =
      committedDisk d b script version file := fun file hfile =>
    (hreplayed file hfile).trans ((hother file hfile).trans (hcommitted file hfile).symm)
  rw [← hdata, ← labelled_eq_iff hsame version]
  constructor
  · exact fun hrec => (recovers_unique hrecovers hrec).1
  · exact fun heq => heq ▸ hrecovers

end

section

variable {d : Disk} {b : Buffers} {version : Version} (hready : Ready d b version) {script : List DbUpdate}

include hready

theorem RecoveryEqualsCommit.agree (hrecovery : RecoveryEqualsCommit d b script version) :
    LengthAgrees (script.map DbUpdate.toOp) (d 0).data.length ∧ BytesAgree d b (script.map DbUpdate.toOp) := by
  have hclean := hready.clean
  have hempty := hready.emptyLog
  have hbyte := committedDisk_byte script { version with counter := version.counter + 1 } hclean hempty
  have hstart : CrashedAfter (atCommit d b script { version with counter := version.counter + 1 })
      { version with counter := version.counter + 1 }
      ([].foldl (flushPage (atCommit d b script { version with counter := version.counter + 1 }).buffers)
        (atCommit d b script { version with counter := version.counter + 1 }).disk) :=
    .flushing [] fun p hp => absurd hp (List.not_mem_nil)
  have hrun := (recovers_commit_iff script _ hclean hempty hready.inRange hstart).mp (hrecovery.after _ hstart)
  have hdb := (atCommit_log script { version with counter := version.counter + 1 } hclean hempty).db
  rw [List.foldl_nil, hdb] at hrun
  obtain ⟨hlength, hagree⟩ := (runScript_eq_iff hbyte).mp hrun
  exact ⟨(committedDisk_length_iff script _ hclean hempty).mp hlength, hagree⟩

theorem RecoveryEqualsCommit.of_agree (hlength : LengthAgrees (script.map DbUpdate.toOp) (d 0).data.length)
    (hagree : BytesAgree d b (script.map DbUpdate.toOp)) : RecoveryEqualsCommit d b script version := by
  have hclean := hready.clean
  have hempty := hready.emptyLog
  have hbyte := committedDisk_byte script { version with counter := version.counter + 1 } hclean hempty
  have hfinal := (committedDisk_length_iff script { version with counter := version.counter + 1 } hclean hempty).mpr
    hlength
  refine ⟨fun crashed hcrashed => recovers_before hready script hcrashed, fun crashed hcrashed => ?_,
    fun _ _ _ _ pos len hlen hbeyond => ByteFile.read_none _ hbeyond hlen⟩
  obtain ⟨_, hlen, hbytes⟩ := crashedAfter_spec script _ hclean hempty hcrashed
  exact (recovers_commit_iff script _ hclean hempty hready.inRange hcrashed).mpr
    (runScript_crashed hbyte hfinal hagree hlen hbytes)

end

/-- Recovery equals commit exactly for the transactions whose lengths and bytes
agree. -/
theorem recovery_equals_commit_iff {d : Disk} {b : Buffers} {version : Version} (hready : Ready d b version)
    (script : List DbUpdate) :
    RecoveryEqualsCommit d b script version ↔
      LengthAgrees (script.map DbUpdate.toOp) (d 0).data.length ∧ BytesAgree d b (script.map DbUpdate.toOp) :=
  ⟨fun hrecovery => hrecovery.agree hready, fun ⟨hlength, hagree⟩ => .of_agree hready hlength hagree⟩

def newDisk : Disk := fun file => ⟨if file = 0 then some ⟨1, 1⟩ else none, ByteFile.empty⟩

def noBuffers : Buffers := ⟨fun _ => none, []⟩

theorem newDisk_ready : Ready newDisk noBuffers ⟨1, 1⟩ := ⟨rfl, rfl, rfl, by decide⟩

/-- A byte written at the end of the first page of a new database fills the page. -/
theorem recovery_equals_commit_iff_fullPage :
    RecoveryEqualsCommit newDisk noBuffers [.write ⟨1023, by decide⟩ ⟨[7], by decide⟩] ⟨1, 1⟩ := by
  refine (recovery_equals_commit_iff newDisk_ready [.write ⟨1023, by decide⟩ ⟨[7], by decide⟩]).mpr ⟨⟨?_, ?_⟩, ?_⟩
  · intro _ offset data hmem _
    obtain ⟨rfl, rfl⟩ : offset = 1023 ∧ data = [7] := FileOp.write.inj (List.mem_singleton.mp hmem)
    decide
  · intro before last after hsplit
    have hmem : FileOp.truncate last ∈ [FileOp.write 1023 [7]] := by
      rw [show [FileOp.write 1023 [7]] = before ++ .truncate last :: after from hsplit]
      simp
    simp at hmem
  · have hbuffered : ∀ i, buffered newDisk noBuffers i = 0 := fun i => rfl
    have hwritten : ∀ i, lastTouch [FileOp.write 1023 [7]] i ≠ .cut := fun i => by
      rw [lastTouch, List.foldl_cons, List.foldl_nil, FileOp.touch]
      split <;> simp
    exact ⟨fun i _ _ _ => hbuffered i, fun i _ hcut => absurd hcut (hwritten i), fun i _ hcut => absurd hcut (hwritten i),
      fun i _ hcut => absurd hcut (hwritten i)⟩

/-- One byte written to a new database: commit leaves a whole page, recovery a file
of one byte. -/
theorem recovery_shortens :
    Ready newDisk noBuffers ⟨1, 1⟩ ∧
      ¬RecoveryEqualsCommit newDisk noBuffers [.write ⟨0, by decide⟩ ⟨[7], by decide⟩] ⟨1, 1⟩ := by
  refine ⟨newDisk_ready, fun hrecovery => ?_⟩
  have hgrows : Grows [FileOp.write 0 [7]] := fun length hmem => by simp at hmem
  have hpage := (hrecovery.agree newDisk_ready).1.pages hgrows 0 [7] (List.mem_singleton_self _) (List.cons_ne_nil _ _)
  exact absurd hpage (by decide)

end dce.ubik
