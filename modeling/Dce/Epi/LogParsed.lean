import Dce.Epi.LogRoundTrip

open lib

namespace dce.episode.logbuf

variable {log : Log} {lmP : logMap} {all : List logRec}

theorem type_eq (type : BitVec 16) :
    type = LOGREC_BASE_TYPE type ||| type &&& LOGREC_OLDDATA ||| type &&& LOGREC_NEWDATA := by
  have hall : LOGREC_TYPE_MASK ||| LOGREC_OLDDATA ||| LOGREC_NEWDATA = BitVec.allOnes 16 := by decide
  rw [LOGREC_BASE_TYPE, ← BitVec.and_or_distrib_left, ← BitVec.and_or_distrib_left, hall, BitVec.and_allOnes]

theorem and_flag (type : BitVec 16) {flag : BitVec 16} {i : ℕ} (hflag : flag = BitVec.twoPow 16 i) : type &&& flag = 0 ∨ type &&& flag = flag := by
  rw [hflag, BitVec.and_twoPow]
  split
  · exact .inr rfl
  · exact .inl rfl

theorem recoverable_of_data {type : BitVec 16} (hdata : LOGREC_ISDATA type) (hhas : LOGREC_HASDATA type) :
    LOGREC_ISRECOVERABLE type := by
  have htype := type_eq type
  rw [LOGREC_ISDATA, beq_iff_eq] at hdata
  rw [hdata] at htype
  rw [LOGREC_HASDATA_eq, LOGREC_HASOLDDATA, LOGREC_HASNEWDATA] at hhas
  rcases and_flag type (show LOGREC_OLDDATA = BitVec.twoPow 16 15 by decide) with hold | hold <;>
    rcases and_flag type (show LOGREC_NEWDATA = BitVec.twoPow 16 14 by decide) with hnew | hnew <;>
    rw [hold, hnew] at htype hhas <;> rw [htype] <;> revert hhas <;> decide

theorem VerifyRecord_data {u : Update} (tranId : BitVec 32) (refCount prev : BitVec 16)
    (h : LOGREC_ISRECOVERABLE u.recType) :
    VerifyRecord (u.hdr tranId refCount prev) = (tranId != 0 || u.recType == LOGREC_RSTRT || u.recType == LOGREC_CKPT) := by
  have hrecoverable : LOGREC_ISRECOVERABLE (u.hdr tranId refCount prev).recType = true := h
  rw [VerifyRecord, hrecoverable, Bool.true_or, Bool.and_true]
  rfl

theorem Renders.verify_iff {tranId lsn : BitVec 32} {refCount : BitVec 16} {u : Update} {recs : List logRec}
    (h : Renders tranId lsn refCount u recs) :
    (∀ r ∈ recs, VerifyRecord r.hdr) ↔ VerifyRecord (u.hdr tranId refCount 0) := by
  induction h with
  | whole lsn refCount u prev =>
    rw [List.forall_mem_singleton]
    exact Iff.rfl
  | @cut lsn refCount u prev len recs hdata hhas _ _ _ ih =>
    have hrecoverable := recoverable_of_data hdata hhas
    rw [List.forall_mem_cons, ih, Update.record, VerifyRecord_data (u := u.take len) _ _ _ hrecoverable,
      VerifyRecord_data (u := u.drop len) _ _ _ hrecoverable, VerifyRecord_data _ _ _ hrecoverable]
    exact and_self_iff

theorem LogHolds.verify_iff {lsn : BitVec 32} {entries : List Entry} {recs : List logRec} (h : LogHolds lsn entries recs) :
    (∀ r ∈ recs, VerifyRecord r.hdr) ↔ ∀ e ∈ entries, VerifyRecord (e.u.hdr e.tranId e.refCount 0) := by
  induction h with
  | nil lsn => simp
  | cons hrenders _ ih => rw [List.forall_mem_append, List.forall_mem_cons, hrenders.verify_iff, ih]

variable {calls : List Call} {c : Call}

theorem InBlock_congr {trans trans' : ℕ → elbt_TranRec} (hdev : ∀ t, (trans' t).dev = (trans t).dev) :
    c.InBlock trans' ↔ c.InBlock trans := by
  cases c <;> simp only [Call.InBlock, hdev]

theorem Call.Returns.unique {returned returned' : Code × logMap} (h : c.Returns log lmP returned)
    (h' : c.Returns log lmP returned') : returned = returned' := by
  obtain ⟨enough, h⟩ := h
  obtain ⟨enough', h'⟩ := h'
  exact Option.some.inj ((h (max enough enough') (le_max_left _ _)).symm.trans (h' _ (le_max_right _ _)))

theorem mem_entry_of_mem_logged {code : Code} {e : Entry} (h : e ∈ c.logged log lmP code) :
    code = .BUFFER_OK ∧ e ∈ c.entry log lmP := by
  unfold Call.logged at h
  split at h
  · exact ⟨‹_›, Option.mem_toList.mp h⟩
  · exact absurd h (List.not_mem_nil)

theorem run_returns (hadmissible : AllAdmissible log lmP calls)
    (hblock : ∀ c ∈ calls, c.InBlock lmP.trans) (h : Logs log lmP all) :
    ∃ lmP' entries new, (∃ enough, ∀ fuel, enough ≤ fuel → run log fuel lmP calls = some (lmP', entries)) ∧
      Behind log lmP lmP' all entries new ∧ ∀ e ∈ entries, Admissible log e := by
  induction calls generalizing lmP all with
  | nil => exact ⟨lmP, [], [], ⟨0, fun _ _ => rfl⟩, .idle h rfl rfl, by simp⟩
  | cons c calls ih =>
    obtain ⟨hfirst, hrest⟩ := hadmissible
    rw [List.forall_mem_cons] at hblock
    obtain ⟨code, lmP₁, new, hreturns, hbehind, hcode⟩ :=
      perform_spec h hblock.1 fun hroom e he => (hfirst hroom e he).1
    obtain ⟨lmP', entries, new', ⟨enough', hrun⟩, hbehind', hall⟩ :=
      ih (hrest _ hreturns) (fun c hc => (InBlock_congr hbehind.dev).mpr (hblock.2 c hc)) hbehind.logs
    obtain ⟨enough, hperform⟩ := hreturns
    refine ⟨lmP', c.logged log lmP code ++ entries, new ++ new', ⟨max enough enough', fun fuel hfuel => ?_⟩,
      hbehind.trans hbehind', List.forall_mem_append.mpr ⟨fun e he => ?_, hall⟩⟩
    · rw [run, hperform fuel ((le_max_left _ _).trans hfuel), Option.bind_some, hrun fuel ((le_max_right _ _).trans hfuel)]
      rfl
    · obtain ⟨hok, he⟩ := mem_entry_of_mem_logged he
      exact hfirst (hcode.mp hok) e he

theorem Logs.pages (h : Logs log lmP all) :
    ∃ groups : List (List logRec), groups.flatten = all ∧
      List.Forall₂ (fun page recs => Holds log.order page log.first recs ∧ recs ≠ []) lmP.pages groups := by
  obtain ⟨groups, recs, hlogged, hall⟩ := h
  unfold logMap.pages
  rcases eq_or_ne recs [] with rfl | hne
  · have hempty : lmP.current.hdr.lastLogRecOff = 0 := BitVec.eq_of_toNat_eq hlogged.current.last
    rw [if_pos hempty]
    exact ⟨groups, by simpa using hall, hlogged.written⟩
  · have hfirst := first_bounds log
    have hnonempty : lmP.current.hdr.lastLogRecOff ≠ 0 := by
      intro hzero
      have hlast := hlogged.current.last
      rw [hzero, lastOffset, if_neg hne, show (0 : BitVec 16).toNat = 0 from rfl] at hlast
      omega
    rw [if_neg hnonempty]
    exact ⟨groups ++ [recs], by simpa using hall, List.rel_append hlogged.written (.cons ⟨hlogged.current, hne⟩ .nil)⟩

theorem parsePages_iff {pages : List LogPage} {groups groups' : List (List logRec)}
    (h : List.Forall₂ (fun page recs => Holds log.order page log.first recs ∧ recs ≠ []) pages groups) :
    pages.map (parsePage log.order) = groups'.map some ↔ groups' = groups ∧ ∀ r ∈ groups.flatten, VerifyRecord r.hdr := by
  have hfirst := first_bounds log
  induction h generalizing groups' with
  | nil =>
    rw [List.map_nil, eq_comm, List.map_eq_nil_iff]
    simp
  | @cons page recs pages groups hpage _ ih =>
    have hparse := hpage.1.parsePage_eq (by omega) hpage.2
    rw [List.map_cons, hparse, List.flatten_cons, List.forall_mem_append]
    cases groups' with
    | nil => simp
    | cons recs' groups' =>
      have htail : pages.map (parsePage log.order) = groups'.map some ↔
          groups' = groups ∧ ∀ r ∈ groups.flatten, VerifyRecord r.hdr := ih
      rw [List.map_cons, List.cons.injEq, List.cons.injEq, htail]
      split
      · rename_i hverify
        rw [Option.some.injEq, eq_comm]
        tauto
      · rename_i hverify
        simp [hverify]

theorem pages_linked {pages : List LogPage} {groups : List (List logRec)}
    (h : List.Forall₂ (fun page recs => Holds log.order page log.first recs ∧ recs ≠ []) pages groups) :
    ∀ recs ∈ groups, Linked 0 log.first recs := by
  induction h with
  | nil => simp
  | cons hpage _ ih => exact List.forall_mem_cons.mpr ⟨hpage.1.linked, ih⟩

theorem parseFrom_verifies {order : ByteOrder} {page : LogPage} {offset : ℕ} {recs : List logRec}
    (h : parseFrom order page offset = some recs) : ∀ r ∈ recs, VerifyRecord r.hdr := by
  induction offset using parseFrom.induct order page generalizing recs with
  | case1 offset hbad => simp [parseFrom, hbad] at h
  | case2 offset hok hverify hend =>
    rw [parseFrom, if_neg hok] at h
    rw [if_pos hverify, if_pos hend] at h
    obtain rfl := Option.some.inj h
    simpa using hverify
  | case3 offset hok hverify hend ih =>
    rw [parseFrom, if_neg hok] at h
    rw [if_pos hverify, if_neg hend] at h
    obtain ⟨rest, hrest, rfl⟩ := Option.map_eq_some_iff.mp h
    exact List.forall_mem_cons.mpr ⟨hverify, ih hrest⟩
  | case4 offset hok hverify =>
    rw [parseFrom, if_neg hok] at h
    rw [if_neg hverify] at h
    exact absurd h (by simp)

theorem parsePage_verifies {order : ByteOrder} {page : LogPage} {recs : List logRec} (h : parsePage order page = some recs) :
    ∀ r ∈ recs, VerifyRecord r.hdr := by
  unfold parsePage at h
  split at h
  · exact absurd h (by simp)
  · split at h
    · obtain rfl := Option.some.inj h
      simp
    · obtain ⟨first, _, hparse⟩ := Option.bind_eq_some_iff.mp h
      exact parseFrom_verifies hparse

theorem logsBack_of_allAdmissible (hadmissible : AllAdmissible log lmP calls)
    (hblock : ∀ c ∈ calls, c.InBlock lmP.trans) (h : Logs log lmP []) : LogsBack log lmP calls := by
  obtain ⟨lmP', entries, new, hrun, hbehind, hall⟩ := run_returns hadmissible hblock h
  obtain ⟨groups, hflatten, hpages⟩ := hbehind.logs.pages
  rw [List.nil_append] at hflatten
  have hverify : ∀ r ∈ groups.flatten, VerifyRecord r.hdr := by
    rw [hflatten]
    exact hbehind.holds.verify_iff.mpr fun e he => (hall e he).2
  refine ⟨lmP', entries, hrun, groups, (parsePages_iff hpages).mpr ⟨rfl, hverify⟩, pages_linked hpages, ?_⟩
  rw [hflatten]
  exact hbehind.holds

theorem perform_endless (h : Logs log lmP all) (hroom : c.refused log lmP = false) {e : Entry}
    (he : e ∈ c.entry log lmP) (hnofit : ¬Fits log e.u) (fuel : ℕ) : c.perform log fuel lmP = none := by
  cases c with
  | Write tP recType dataLength data =>
    obtain rfl := Option.some.inj he
    have hnofit : ¬Fits log (writeUpdate tP recType dataLength data) := hnofit
    rw [Call.perform, elbl_Write, writeNext_endless h hnofit]
    split <;> rfl
  | WriteExtended u =>
    obtain rfl := Option.some.inj he
    have hnofit : ¬Fits log u := hnofit
    rw [Call.perform, elbl_WriteExtended, writeNext_endless h hnofit]
    split <;> rfl
  | WriteWithBuffer tP recType dataLength dataOffset bP newData =>
    obtain rfl := Option.some.inj he
    obtain ⟨groups, recs, hlogged, rfl⟩ := h
    have hoffset := hlogged.GetNewRecordOffset_eq
    rw [refused_eq hoffset] at hroom
    have hsame := LogTooFull_false hroom
    have hinside := hlogged.inside
    have hnofit : ¬Fits log (bufferUpdate tP recType dataLength dataOffset bP newData) := hnofit
    have hlong : log.adev.blkSize - log.first < NewLogrecSize recType dataLength :=
      Nat.lt_of_not_le (Classical.not_imp.mp hnofit).2
    have hbehind : log.adev.blkSize < log.first + extent recs + NewLogrecSize recType dataLength := by omega
    have hblocks : 0 < thisBlocks log recType dataLength (log.first + extent recs) := by
      unfold thisBlocks
      simp only [LogPageRemaining_eq hinside]
      rw [if_neg (by omega), if_neg (by omega)]
      omega
    rw [Call.perform]
    by_cases hlen : dataLength ≤ (lmP.trans tP).dev.blkSize
    · rw [elbl_WriteWithBuffer_eq hlen hoffset, hroom, if_neg Bool.false_ne_true, hsame, if_pos hblocks,
        WriteLocked_endless hbehind hnofit, Option.bind_none]
    · rw [elbl_WriteWithBuffer, if_neg hlen]
  | WriteBend t1P t2P tmpBuf =>
    obtain rfl := Option.some.inj he
    have hcounted : Logs log (countReference lmP t2P) all := h.congr rfl rfl rfl
    have hnofit : ¬Fits log (bendUpdate log (countReference lmP t2P) t1P t2P tmpBuf) := hnofit
    rw [Call.perform, elbl_WriteBend, writeNext_endless hcounted hnofit, Option.map_none]
  | ForceMap pageOffset => exact absurd he (Option.not_mem_none e)
  | Hold oldestBuffer oldestTran => exact absurd he (Option.not_mem_none e)

theorem allAdmissible_of_run {lmP' : logMap} {entries : List Entry}
    (hrun : ∃ enough, ∀ fuel, enough ≤ fuel → run log fuel lmP calls = some (lmP', entries))
    (hblock : ∀ c ∈ calls, c.InBlock lmP.trans) (h : Logs log lmP all)
    (hverify : ∀ e ∈ entries, VerifyRecord (e.u.hdr e.tranId e.refCount 0)) : AllAdmissible log lmP calls := by
  induction calls generalizing lmP all entries with
  | nil => trivial
  | cons c calls ih =>
    obtain ⟨enough, hrun⟩ := hrun
    rw [List.forall_mem_cons] at hblock
    have hfits : c.refused log lmP = false → ∀ e ∈ c.entry log lmP, Fits log e.u := by
      intro hroom e he
      by_contra hnofit
      have hstuck := hrun enough le_rfl
      rw [run, perform_endless h hroom he hnofit, Option.bind_none] at hstuck
      exact absurd hstuck (by simp)
    obtain ⟨code, lmP₁, new, hreturns, hbehind, hcode⟩ := perform_spec h hblock.1 hfits
    obtain ⟨enough₁, hperform⟩ := id hreturns
    have hstep : ∀ fuel, max enough enough₁ ≤ fuel →
        (run log fuel lmP₁ calls).map (fun behind => (behind.1, c.logged log lmP code ++ behind.2)) = some (lmP', entries) := by
      intro fuel hfuel
      have hall := hrun fuel ((le_max_left _ _).trans hfuel)
      rwa [run, hperform fuel ((le_max_right _ _).trans hfuel), Option.bind_some] at hall
    obtain ⟨⟨lmP₂, more⟩, _, hpair⟩ := Option.map_eq_some_iff.mp (hstep _ le_rfl)
    obtain ⟨rfl, rfl⟩ := Prod.mk.inj hpair
    rw [List.forall_mem_append] at hverify
    have htail : ∀ fuel, max enough enough₁ ≤ fuel → run log fuel lmP₁ calls = some (lmP₂, more) := by
      intro fuel hfuel
      obtain ⟨⟨lmP₃, more'⟩, hresult, hpair'⟩ := Option.map_eq_some_iff.mp (hstep fuel hfuel)
      obtain ⟨hstate, hmore⟩ := Prod.mk.inj hpair'
      exact hresult.trans (congrArg some (Prod.ext hstate (List.append_cancel_left hmore)))
    refine ⟨fun hroom e he => ⟨hfits hroom e he, hverify.1 e ?_⟩, fun returned hreturned => ?_⟩
    · rw [Call.logged, if_pos (hcode.mpr hroom)]
      exact Option.mem_toList.mpr he
    · obtain rfl := hreturned.unique hreturns
      exact ih ⟨_, htail⟩ (fun c hc => (InBlock_congr hbehind.dev).mpr (hblock.2 c hc)) hbehind.logs hverify.2

theorem allAdmissible_of_logsBack (hback : LogsBack log lmP calls)
    (hblock : ∀ c ∈ calls, c.InBlock lmP.trans) (h : Logs log lmP []) : AllAdmissible log lmP calls := by
  obtain ⟨lmP', entries, hrun, groups, hparse, _, hholds⟩ := hback
  refine allAdmissible_of_run hrun hblock h (hholds.verify_iff.mp fun r hr => ?_)
  obtain ⟨recs, hrecs, hr⟩ := List.mem_flatten.mp hr
  obtain ⟨page, _, hpage⟩ := List.mem_map.mp (hparse ▸ List.mem_map_of_mem hrecs)
  exact parsePage_verifies hpage r hr

section Data

variable {tranId lsn : BitVec 32} {refCount : BitVec 16} {u : Update} {recs : List logRec}

end Data

/-- The calls on a log are read back exactly if each is refused for want of room or logs a record that fits an empty page,
unless it is split, and that the parser accepts. -/
theorem logs_back_iff (log : Log) (passNumber : BitVec 16) (trans : ℕ → elbt_TranRec) (calls : List Call)
    (hblock : ∀ c ∈ calls, c.InBlock trans) :
    LogsBack log (elbl_InitLog log passNumber trans) calls ↔ AllAdmissible log (elbl_InitLog log passNumber trans) calls := by
  have hlogs : Logs log (elbl_InitLog log passNumber trans) [] := ⟨[], [], elbl_InitLog_logged log passNumber trans, rfl⟩
  exact ⟨fun h => allAdmissible_of_logsBack h hblock hlogs, fun h => logsBack_of_allAdmissible h hblock hlogs⟩

def plainDevice : async_device := ⟨8192, by decide, by decide, by decide⟩

def plainLog : Log where
  order := .big
  adev := plainDevice
  logLocnArraySize := 100
  numBufs := 8
  cksum_ver := LOGREC_CKSUMVER_CRC32_STD_ALL
  known := by decide
  buffer := fun _ _ => 0
  inTransit := fun _ => 0
  time := fun _ => 0
  CalcCRC32Std := fun _ => 0

def plainTrans (tP : ℕ) : elbt_TranRec := ⟨17, by decide, 0, plainDevice, 0, 0, tP⟩

def longCall : Call := .WriteWithBuffer 0 LOGREC_DATA 8001 3 ⟨5, fun _ => 1⟩ fun _ => 2

theorem logs_back_iff_long : LogsBack plainLog (elbl_InitLog plainLog 1 plainTrans) [longCall] ↔
    AllAdmissible plainLog (elbl_InitLog plainLog 1 plainTrans) [longCall] :=
  logs_back_iff plainLog 1 plainTrans [longCall] fun c hc => by
    obtain rfl := List.mem_singleton.mp hc
    exact ⟨by decide, by decide⟩

def fillCall : Call := .WriteWithBuffer 0 LOGREC_FILL 8 0 ⟨5, fun _ => 1⟩ fun _ => 2

/-- The parser refuses the page with it. -/
theorem fill_not_read_back : ¬LogsBack plainLog (elbl_InitLog plainLog 1 plainTrans) [fillCall] := by
  intro hback
  have hlogs : Logs plainLog (elbl_InitLog plainLog 1 plainTrans) [] :=
    ⟨[], [], elbl_InitLog_logged plainLog 1 plainTrans, rfl⟩
  have hblock : ∀ c ∈ [fillCall], c.InBlock (elbl_InitLog plainLog 1 plainTrans).trans := fun c hc => by
    obtain rfl := List.mem_singleton.mp hc
    exact ⟨by decide, by decide⟩
  have hadmissible := (allAdmissible_of_logsBack hback hblock hlogs).1 (by decide +kernel) _ rfl
  exact absurd hadmissible.2 (by decide +kernel)

end dce.episode.logbuf
