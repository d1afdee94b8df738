import Dce.Epi.LogSplit

open lib

namespace dce.episode.logbuf

variable {log : Log} {lmP : logMap} {all : List logRec}

/-- What a call leaves behind that has logged these entries as these records. -/
structure Behind (log : Log) (lmP lmP' : logMap) (all : List logRec) (entries : List Entry) (new : List logRec) : Prop where
  logs : Logs log lmP' (all ++ new)
  holds : LogHolds lmP.lsn entries new
  lsn : lmP'.lsn = nextLsn^[new.length] lmP.lsn
  dev : ∀ t, (lmP'.trans t).dev = (lmP.trans t).dev

theorem LogHolds.append {lsn : BitVec 32} {entries more : List Entry} {recs recs' : List logRec} (h : LogHolds lsn entries recs)
    (h' : LogHolds (nextLsn^[recs.length] lsn) more recs') : LogHolds lsn (entries ++ more) (recs ++ recs') := by
  induction h with
  | nil lsn => exact h'
  | @cons lsn e entries recs more hrenders _ ih =>
    rw [List.length_append, Nat.add_comm, Function.iterate_add_apply] at h'
    rw [List.append_assoc]
    exact .cons hrenders (ih h')

theorem Behind.trans {lmP' lmP'' : logMap} {entries more : List Entry} {new new' : List logRec}
    (h : Behind log lmP lmP' all entries new) (h' : Behind log lmP' lmP'' (all ++ new) more new') :
    Behind log lmP lmP'' all (entries ++ more) (new ++ new') where
  logs := by rw [← List.append_assoc]; exact h'.logs
  holds := h.holds.append (h.lsn ▸ h'.holds)
  lsn := by rw [h'.lsn, h.lsn, ← Function.iterate_add_apply, List.length_append, Nat.add_comm]
  dev t := (h'.dev t).trans (h.dev t)

theorem Behind.idle {lmP' : logMap} (hlogs : Logs log lmP' all) (hlsn : lmP'.lsn = lmP.lsn) (htrans : lmP'.trans = lmP.trans) :
    Behind log lmP lmP' all [] [] where
  logs := by rwa [List.append_nil]
  holds := .nil _
  lsn := hlsn
  dev t := by rw [htrans]

theorem Wrote.behind {lmP' : logMap} {u : Update} {new : List logRec} (h : Wrote log lmP lmP' u.tP all new)
    (hrenders : Renders (lmP.trans u.tP).tranId lmP.lsn (lmP.trans u.tP).refCount u new) :
    Behind log lmP lmP' all [.of lmP u] new where
  logs := h.logs
  holds := by
    have hone : LogHolds lmP.lsn [.of lmP u] (new ++ []) := .cons hrenders (.nil _)
    rwa [List.append_nil] at hone
  lsn := h.lsn
  dev := h.dev

theorem Logs.congr {lmP' : logMap} (h : Logs log lmP all) (hwritten : lmP'.written = lmP.written)
    (hcurrent : lmP'.current = lmP.current) (hpass : lmP'.passno = lmP.passno) : Logs log lmP' all := by
  obtain ⟨groups, recs, hlogged, hall⟩ := h
  exact ⟨groups, recs, ⟨⟨hwritten ▸ hlogged.written, hcurrent ▸ hlogged.current, hcurrent ▸ hlogged.version, hlogged.inside,
    hpass ▸ hlogged.pass⟩, hlogged.room⟩, hall⟩

theorem Logs.ForceMap (h : Logs log lmP all) (pageOffset : ℕ) : Logs log (lmP.ForceMap log pageOffset) all := by
  unfold logMap.ForceMap
  split
  · rename_i hforce
    obtain ⟨groups, recs, hlogged, hall⟩ := h
    have hne : recs ≠ [] := by
      rintro rfl
      exact hforce.2 (BitVec.eq_of_toNat_eq hlogged.current.last)
    exact ⟨_, _, hlogged.toPages.NewLogPage hne, by simpa using hall⟩
  · exact h

theorem ForceMap_lsn (log : Log) (lmP : logMap) (pageOffset : ℕ) : (lmP.ForceMap log pageOffset).lsn = lmP.lsn := by
  unfold logMap.ForceMap
  split
  · exact NewLogPage_lsn log lmP
  · rfl

theorem ForceMap_trans (log : Log) (lmP : logMap) (pageOffset : ℕ) : (lmP.ForceMap log pageOffset).trans = lmP.trans := by
  unfold logMap.ForceMap
  split
  · exact NewLogPage_trans log lmP
  · rfl

theorem activeSize_ForceMap (log : Log) (lmP : logMap) (pageOffset : ℕ) :
    lmP.activeSize ≤ (lmP.ForceMap log pageOffset).activeSize := by
  have hlater : ∀ {lmP' : logMap}, lmP.page ≤ lmP'.page → lmP'.oldestBuffer = lmP.oldestBuffer →
      lmP'.oldestTran = lmP.oldestTran → lmP.activeSize ≤ lmP'.activeSize := by
    intro lmP' hpage hbuffer htran
    have hfrom : ∀ oldest, lmP.activeSizeFrom oldest ≤ lmP'.activeSizeFrom oldest := by
      intro oldest
      cases oldest with
      | none => exact le_rfl
      | some first =>
        change 1 + (lmP.page - first) ≤ 1 + (lmP'.page - first)
        omega
    rw [logMap.activeSize, logMap.activeSize, hbuffer, htran]
    exact max_le_max (hfrom _) (hfrom _)
  unfold logMap.ForceMap
  split
  · refine hlater ?_ ?_ ?_
    · have hwritten : (lmP.NewLogPage log).written = lmP.written ++ [lmP.finished log] :=
        advance_written log { lmP with written := lmP.written ++ [lmP.finished log] }
      rw [logMap.page, logMap.page, hwritten, List.length_append]
      exact Nat.le_add_right _ _
    · unfold logMap.NewLogPage logMap.advance
      split <;> rfl
    · unfold logMap.NewLogPage logMap.advance
      split <;> rfl
  · exact le_rfl

theorem LogTooFull_false {blocks : ℕ} (h : (lmP.LogTooFull log blocks).1 = false) : (lmP.LogTooFull log blocks).2 = lmP := by
  have hforced := activeSize_ForceMap log lmP lmP.currentLogBlock
  unfold logMap.LogTooFull at *
  simp only at *
  split at h
  · rename_i hfits
    rw [if_pos hfits]
  · rename_i hfits
    split at h
    · exact absurd h (by simp)
    · split at h
      · omega
      · exact absurd h (by simp)

theorem Logs.LogTooFull (h : Logs log lmP all) (blocks : ℕ) : Logs log (lmP.LogTooFull log blocks).2 all ∧
    (lmP.LogTooFull log blocks).2.lsn = lmP.lsn ∧ (lmP.LogTooFull log blocks).2.trans = lmP.trans := by
  have hforced := And.intro (h.ForceMap lmP.currentLogBlock)
    (And.intro (ForceMap_lsn log lmP lmP.currentLogBlock) (ForceMap_trans log lmP lmP.currentLogBlock))
  unfold logMap.LogTooFull
  simp only
  split
  · exact ⟨h, rfl, rfl⟩
  · split
    · exact ⟨h, rfl, rfl⟩
    · split
      · exact hforced
      · exact hforced

theorem dataLength_lt {adev : async_device} {dataLength : ℕ} (h : dataLength ≤ adev.blkSize) : dataLength < 2 ^ 32 := by
  have hblk := blkSize_bounds adev
  omega

theorem writeNext_spec {u : Update} (h : Logs log lmP all) (hlen : u.dataLength < 2 ^ 32) (hfits : Fits log u) :
    ∃ lmP' new, (∀ fuel, u.dataLength + 3 ≤ fuel → writeNext log fuel lmP u = some lmP') ∧
      Behind log lmP lmP' all [.of lmP u] new := by
  obtain ⟨groups, recs, hlogged, rfl⟩ := h
  obtain ⟨lmP', new, hresult, hwrote, hrenders⟩ := WriteLocked_spec hlogged hlen hfits
  refine ⟨lmP', new, fun fuel hfuel => ?_, hwrote.behind hrenders⟩
  rw [writeNext, hlogged.GetNewRecordOffset_eq, Option.bind_some, hresult fuel hfuel]

theorem writeNext_endless {u : Update} (h : Logs log lmP all) (hnofit : ¬Fits log u) (fuel : ℕ) :
    writeNext log fuel lmP u = none := by
  obtain ⟨groups, recs, hlogged, rfl⟩ := h
  have hlong := (Classical.not_imp.mp hnofit).2
  have hinside := hlogged.inside
  rw [writeNext, hlogged.GetNewRecordOffset_eq, Option.bind_some]
  exact WriteLocked_endless (by omega) hnofit

end dce.episode.logbuf

open lib

namespace dce.episode.logbuf

variable {log : Log} {lmP : logMap} {all : List logRec}

theorem writeEasy_spec {groups : List (List logRec)} {recs : List logRec} {u : Update} (h : Logged log lmP groups recs)
    (hlen : u.dataLength < 2 ^ 32) (hroom : thisBlocks log u.recType u.dataLength (log.first + extent recs) = 0) :
    ∃ lmP' new, writeEasy log lmP u (log.first + extent recs) = some lmP' ∧
      Wrote log lmP lmP' u.tP (groups.flatten ++ recs) new ∧
      Renders (lmP.trans u.tP).tranId lmP.lsn (lmP.trans u.tP).refCount u new := by
  have hinside := h.inside
  have hsmallest : log.first + extent recs + NewLogrecSize u.recType u.dataLength + NewLogrecSize LOGREC_DATA ALIGN_SIZE ≤
      log.adev.blkSize := by
    unfold thisBlocks at hroom
    simp only [LogPageRemaining_eq hinside] at hroom
    split at hroom
    · omega
    · split at hroom <;> omega
  have hfirst := first_bounds log
  have hblk := blkSize_bounds log.adev
  obtain ⟨hwrite, hpages⟩ := h.fits_page hlen (by omega)
  have hrounded : extent (recs ++ [newRecord lmP u]) + NewLogrecSize LOGREC_DATA ALIGN_SIZE ≤ log.adev.blkSize - log.first := by
    have hsize : NewLogrecSize LOGREC_DATA ALIGN_SIZE = 44 := by decide
    have hnext : NextRecOffset (newRecord lmP u).hdr ≤ log.adev.blkSize - log.first - extent recs - 44 := by
      apply NextRecOffset_le_of_size
      · exact Nat.dvd_sub (Nat.dvd_sub (Nat.dvd_sub hblk.2.2 hfirst.2.2) (dvd_extent recs)) (by decide)
      · rw [newRecord_size hlen]
        omega
    rw [extent_append, extent_cons, extent_nil]
    omega
  have hremaining := LogPageRemaining_eq hpages.inside
  have hnotFull : ¬logMap.IsLogPageFull log (log.first + extent (recs ++ [newRecord lmP u])) := by
    rw [logMap.IsLogPageFull, hremaining]
    omega
  refine ⟨afterRecord log lmP u (log.first + extent recs), [newRecord lmP u], ?_,
    h.wrote_same hlen (by omega) (by omega), .whole _ _ _ _⟩
  rw [writeEasy, hwrite, Option.bind_some]
  change ((afterRecord log lmP u _).GetNewRecordOffset log).bind _ = _
  rw [hpages.GetNewRecordOffset_eq, Option.bind_some, if_neg hnotFull]
  rfl

theorem Logged.AgeBuffer {groups : List (List logRec)} {recs : List logRec} (h : Logged log lmP groups recs) :
    Logged log lmP.AgeBuffer groups recs :=
  ⟨⟨h.written, h.current, h.version, h.inside, h.pass⟩, h.room⟩

section Buffer

variable {tP : ℕ} {recType : BitVec 16} {dataLength dataOffset : ℕ} {bP : buffer} {newData : Memory}

theorem elbl_WriteWithBuffer_eq {fuel newRecOffset : ℕ} (hlen : dataLength ≤ (lmP.trans tP).dev.blkSize)
    (hoffset : lmP.GetNewRecordOffset log = some newRecOffset) :
    elbl_WriteWithBuffer log fuel lmP tP recType dataLength dataOffset bP newData =
      if (lmP.LogTooFull log (thisBlocks log recType dataLength newRecOffset)).1
      then some (.LOG_LOGFULL, (lmP.LogTooFull log (thisBlocks log recType dataLength newRecOffset)).2)
      else
        (if 0 < thisBlocks log recType dataLength newRecOffset
          then logMap.WriteLocked log fuel (lmP.LogTooFull log (thisBlocks log recType dataLength newRecOffset)).2.AgeBuffer
            (bufferUpdate tP recType dataLength dataOffset bP newData) newRecOffset
          else writeEasy log (lmP.LogTooFull log (thisBlocks log recType dataLength newRecOffset)).2.AgeBuffer
            (bufferUpdate tP recType dataLength dataOffset bP newData) newRecOffset).bind
        fun lmP => if labelled lmP tP then some (.BUFFER_OK, lmP) else none := by
  rw [elbl_WriteWithBuffer, if_pos hlen, hoffset, Option.bind_some]

theorem refused_eq {newRecOffset : ℕ} (hoffset : lmP.GetNewRecordOffset log = some newRecOffset) :
    (Call.WriteWithBuffer tP recType dataLength dataOffset bP newData).refused log lmP =
      (lmP.LogTooFull log (thisBlocks log recType dataLength newRecOffset)).1 := by
  rw [Call.refused, hoffset, Option.map_some, Option.getD_some]
theorem elbl_WriteWithBuffer_refused (h : Logs log lmP all) (hlen : dataLength ≤ (lmP.trans tP).dev.blkSize)
    (hrefused : (Call.WriteWithBuffer tP recType dataLength dataOffset bP newData).refused log lmP = true) :
    ∃ lmP', (∀ fuel, elbl_WriteWithBuffer log fuel lmP tP recType dataLength dataOffset bP newData = some (.LOG_LOGFULL, lmP')) ∧
      Behind log lmP lmP' all [] [] := by
  obtain ⟨groups, recs, hlogged, hall⟩ := id h
  have hoffset := hlogged.GetNewRecordOffset_eq
  rw [refused_eq hoffset] at hrefused
  obtain ⟨hlogs, hlsn, htrans⟩ := h.LogTooFull (thisBlocks log recType dataLength (log.first + extent recs))
  refine ⟨_, fun fuel => ?_, .idle hlogs hlsn htrans⟩
  rw [elbl_WriteWithBuffer_eq hlen hoffset, if_pos hrefused]

theorem elbl_WriteWithBuffer_spec (h : Logs log lmP all) (hlen : dataLength ≤ (lmP.trans tP).dev.blkSize)
    (hroom : (Call.WriteWithBuffer tP recType dataLength dataOffset bP newData).refused log lmP = false)
    (hfits : Fits log (bufferUpdate tP recType dataLength dataOffset bP newData)) :
    ∃ lmP' new, (∀ fuel, dataLength + 3 ≤ fuel →
        elbl_WriteWithBuffer log fuel lmP tP recType dataLength dataOffset bP newData = some (.BUFFER_OK, lmP')) ∧
      Behind log lmP lmP' all [.of lmP (bufferUpdate tP recType dataLength dataOffset bP newData)] new := by
  obtain ⟨groups, recs, hlogged, rfl⟩ := h
  have hoffset := hlogged.GetNewRecordOffset_eq
  rw [refused_eq hoffset] at hroom
  have hsame := LogTooFull_false hroom
  have hrun : ∀ fuel, elbl_WriteWithBuffer log fuel lmP tP recType dataLength dataOffset bP newData =
      (if 0 < thisBlocks log recType dataLength (log.first + extent recs)
        then logMap.WriteLocked log fuel lmP.AgeBuffer (bufferUpdate tP recType dataLength dataOffset bP newData)
          (log.first + extent recs)
        else writeEasy log lmP.AgeBuffer (bufferUpdate tP recType dataLength dataOffset bP newData) (log.first + extent recs)).bind
      fun lmP => if labelled lmP tP then some (.BUFFER_OK, lmP) else none := by
    intro fuel
    rw [elbl_WriteWithBuffer_eq hlen hoffset, hroom, if_neg Bool.false_ne_true, hsame]
  by_cases hblocks : 0 < thisBlocks log recType dataLength (log.first + extent recs)
  · obtain ⟨lmP', new, hresult, hwrote, hrenders⟩ := WriteLocked_spec hlogged.AgeBuffer (dataLength_lt hlen) hfits
    refine ⟨lmP', new, fun fuel hfuel => ?_, hwrote.logs, (hwrote.behind hrenders).holds, hwrote.lsn, hwrote.dev⟩
    have hlabel : labelled lmP' tP := hwrote.label
    rw [hrun, if_pos hblocks, hresult fuel hfuel, Option.bind_some, if_pos hlabel]
  · obtain ⟨lmP', new, hresult, hwrote, hrenders⟩ :=
      writeEasy_spec (u := bufferUpdate tP recType dataLength dataOffset bP newData) hlogged.AgeBuffer (dataLength_lt hlen)
        (Nat.eq_zero_of_not_pos hblocks)
    refine ⟨lmP', new, fun fuel _ => ?_, hwrote.logs, (hwrote.behind hrenders).holds, hwrote.lsn, hwrote.dev⟩
    have hlabel : labelled lmP' tP := hwrote.label
    rw [hrun, if_neg hblocks, hresult, Option.bind_some, if_pos hlabel]

end Buffer

theorem perform_spec {c : Call} (h : Logs log lmP all) (hblock : c.InBlock lmP.trans)
    (hfits : c.refused log lmP = false → ∀ e ∈ c.entry log lmP, Fits log e.u) :
    ∃ code lmP' new, c.Returns log lmP (code, lmP') ∧ Behind log lmP lmP' all (c.logged log lmP code) new ∧
      (code = .BUFFER_OK ↔ c.refused log lmP = false) := by
  cases c with
  | Write tP recType dataLength data =>
    have hlen : dataLength ≤ (lmP.trans tP).dev.blkSize := hblock
    obtain ⟨lmP', new, hresult, hbehind⟩ :=
      writeNext_spec (u := writeUpdate tP recType dataLength data) h (dataLength_lt hlen) (hfits rfl _ rfl)
    refine ⟨.BUFFER_OK, lmP', new, ⟨dataLength + 3, fun fuel hfuel => ?_⟩, hbehind, by simp [Call.refused]⟩
    rw [Call.perform, elbl_Write, if_pos hlen, hresult fuel hfuel, Option.map_some]
  | WriteExtended u =>
    obtain ⟨hoff, hinside⟩ := hblock
    have hlen : u.dataLength ≤ (lmP.trans u.tP).dev.blkSize := by omega
    obtain ⟨lmP', new, hresult, hbehind⟩ := writeNext_spec h (dataLength_lt hlen) (hfits rfl _ rfl)
    refine ⟨.BUFFER_OK, lmP', new, ⟨u.dataLength + 3, fun fuel hfuel => ?_⟩, hbehind, by simp [Call.refused]⟩
    rw [Call.perform, elbl_WriteExtended, if_pos hlen, hresult fuel hfuel, Option.map_some]
  | WriteWithBuffer tP recType dataLength dataOffset bP newData =>
    obtain ⟨hoff, hinside⟩ := hblock
    have hlen : dataLength ≤ (lmP.trans tP).dev.blkSize := by omega
    cases hrefused : (Call.WriteWithBuffer tP recType dataLength dataOffset bP newData).refused log lmP with
    | true =>
      obtain ⟨lmP', hresult, hbehind⟩ := elbl_WriteWithBuffer_refused h hlen hrefused
      exact ⟨.LOG_LOGFULL, lmP', [], ⟨0, fun fuel _ => hresult fuel⟩, hbehind, by simp⟩
    | false =>
      obtain ⟨lmP', new, hresult, hbehind⟩ := elbl_WriteWithBuffer_spec h hlen hrefused (hfits hrefused _ rfl)
      exact ⟨.BUFFER_OK, lmP', new, ⟨dataLength + 3, hresult⟩, hbehind, by simp⟩
  | WriteBend t1P t2P tmpBuf =>
    have hcounted : Logs log (countReference lmP t2P) all := h.congr rfl rfl rfl
    have hdev : ∀ t, ((countReference lmP t2P).trans t).dev = (lmP.trans t).dev := by
      intro t
      by_cases ht : t = t2P
      · subst ht
        simp [countReference]
      · simp [countReference, ht]
    obtain ⟨lmP', new, hresult, hbehind⟩ :=
      writeNext_spec (u := bendUpdate log (countReference lmP t2P) t1P t2P tmpBuf) hcounted
        (show NewLogrecSize LOGREC_END 0 < 2 ^ 32 by decide) (hfits rfl _ rfl)
    refine ⟨.BUFFER_OK, lmP', new, ⟨NewLogrecSize LOGREC_END 0 + 3, fun fuel hfuel => ?_⟩,
      ⟨hbehind.logs, hbehind.holds, hbehind.lsn, fun t => (hbehind.dev t).trans (hdev t)⟩, by simp [Call.refused]⟩
    rw [Call.perform, elbl_WriteBend, hresult fuel hfuel, Option.map_some]
  | ForceMap pageOffset =>
    exact ⟨.BUFFER_OK, _, [], ⟨0, fun fuel _ => rfl⟩,
      .idle (h.ForceMap pageOffset) (ForceMap_lsn log lmP pageOffset) (ForceMap_trans log lmP pageOffset), by simp [Call.refused]⟩
  | Hold oldestBuffer oldestTran =>
    exact ⟨.BUFFER_OK, _, [], ⟨0, fun fuel _ => rfl⟩, .idle (h.congr rfl rfl rfl) rfl rfl, by simp [Call.refused]⟩

end dce.episode.logbuf
