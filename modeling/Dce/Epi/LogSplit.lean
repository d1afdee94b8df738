import Dce.Epi.LogAppend

open lib

namespace dce.episode.logbuf

variable (log : Log)

/-- A log that holds these records, in their order, and is ready for the next one. -/
def Logs (lmP : logMap) (all : List logRec) : Prop := ∃ groups recs, Logged log lmP groups recs ∧ groups.flatten ++ recs = all

/-- What a call that logs records for a transaction leaves behind. -/
structure Wrote (lmP lmP' : logMap) (tP : ℕ) (all new : List logRec) : Prop where
  logs : Logs log lmP' (all ++ new)
  lsn : lmP'.lsn = nextLsn^[new.length] lmP.lsn
  tranId : ∀ t, (lmP'.trans t).tranId = (lmP.trans t).tranId
  dev : ∀ t, (lmP'.trans t).dev = (lmP.trans t).dev
  refCount : (lmP'.trans tP).refCount = (lmP.trans tP).refCount + BitVec.ofNat 16 new.length
  label : labelled lmP' tP

variable {log} {lmP : logMap} {groups : List (List logRec)} {recs : List logRec} {u : Update}

theorem Wrote.trans {lmP' lmP'' : logMap} {tP : ℕ} {all new more : List logRec} (h : Wrote log lmP lmP' tP all new)
    (h' : Wrote log lmP' lmP'' tP (all ++ new) more) : Wrote log lmP lmP'' tP all (new ++ more) where
  logs := by rw [← List.append_assoc]; exact h'.logs
  lsn := by rw [h'.lsn, h.lsn, ← Function.iterate_add_apply, List.length_append, Nat.add_comm]
  tranId t := (h'.tranId t).trans (h.tranId t)
  dev t := (h'.dev t).trans (h.dev t)
  refCount := by rw [h'.refCount, h.refCount, List.length_append, BitVec.ofNat_add, BitVec.add_assoc]
  label := h'.label

@[simp]
theorem NewLogPage_trans (log : Log) (lmP : logMap) : (lmP.NewLogPage log).trans = lmP.trans :=
  advance_trans log { lmP with written := lmP.written ++ [lmP.finished log] }

@[simp]
theorem NewLogPage_lsn (log : Log) (lmP : logMap) : (lmP.NewLogPage log).lsn = lmP.lsn :=
  advance_lsn log { lmP with written := lmP.written ++ [lmP.finished log] }

theorem LogPageRemaining_eq {offset : ℕ} (h : offset ≤ log.adev.blkSize) :
    logMap.LogPageRemaining log offset = log.adev.blkSize - offset := by
  have hblk := blkSize_bounds log.adev
  exact minus_of_le (by omega) h

/-- The log with the record behind the others and the transaction labelled. -/
def afterRecord (log : Log) (lmP : logMap) (u : Update) (newRecOffset : ℕ) : logMap :=
  (withRecord log lmP u newRecOffset).UpdateTran u.tP

theorem Logged.fits_page (h : Logged log lmP groups recs) (hlen : u.dataLength < 2 ^ 32)
    (hfit : log.first + extent recs + NewLogrecSize u.recType u.dataLength ≤ log.adev.blkSize) :
    lmP.WriteLogRecord log u (log.first + extent recs) = some (withRecord log lmP u (log.first + extent recs)) ∧
      Pages log (afterRecord log lmP u (log.first + extent recs)) groups (recs ++ [newRecord lmP u]) := by
  have hfirst := first_bounds log
  have hblk := blkSize_bounds log.adev
  have hroom : NextRecOffset (newRecord lmP u).hdr ≤ log.adev.blkSize - (log.first + extent recs) := by
    apply NextRecOffset_le_of_size
    · exact Nat.dvd_sub hblk.2.2 (dvd_add hfirst.2.2 (dvd_extent recs))
    · rw [newRecord_size hlen]
      omega
  have hinside := h.inside
  have hpages := h.toPages.withRecord hlen (by omega)
  exact ⟨WriteLogRecord_eq hlen (by omega), ⟨hpages.written, hpages.current, hpages.version, hpages.inside, hpages.pass⟩⟩

theorem afterRecord_label (log : Log) (lmP : logMap) (u : Update) (newRecOffset : ℕ) :
    ((afterRecord log lmP u newRecOffset).trans u.tP).lastPass = lmP.passno ∧
      ((afterRecord log lmP u newRecOffset).trans u.tP).lastOffset = lmP.currentLogBlock := by
  simp [afterRecord, logMap.UpdateTran, withRecord]

theorem afterRecord_trans (log : Log) (lmP : logMap) (u : Update) (newRecOffset t : ℕ) :
    ((afterRecord log lmP u newRecOffset).trans t).tranId = (lmP.trans t).tranId ∧
      ((afterRecord log lmP u newRecOffset).trans t).dev = (lmP.trans t).dev := by
  by_cases ht : t = u.tP
  · subst ht
    simp [afterRecord, logMap.UpdateTran, withRecord]
  · simp [afterRecord, logMap.UpdateTran, withRecord, ht]

theorem afterRecord_refCount (log : Log) (lmP : logMap) (u : Update) (newRecOffset : ℕ) :
    ((afterRecord log lmP u newRecOffset).trans u.tP).refCount = (lmP.trans u.tP).refCount + 1 := by
  simp [afterRecord, logMap.UpdateTran, withRecord]

section

variable (h : Logged log lmP groups recs) (hlen : u.dataLength < 2 ^ 32)
  (hfit : log.first + extent recs + NewLogrecSize u.recType u.dataLength ≤ log.adev.blkSize)

include h hlen hfit

theorem Logged.wrote_same
    (hroom : log.first + extent (recs ++ [newRecord lmP u]) + NewLogrecSize LOGREC_DATA ALIGN_SIZE ≤ log.adev.blkSize) :
    Wrote log lmP (afterRecord log lmP u (log.first + extent recs)) u.tP (groups.flatten ++ recs) [newRecord lmP u] where
  logs := ⟨groups, recs ++ [newRecord lmP u], ⟨(h.fits_page hlen hfit).2, hroom⟩, (List.append_assoc ..).symm⟩
  lsn := rfl
  tranId t := (afterRecord_trans log lmP u _ t).1
  dev t := (afterRecord_trans log lmP u _ t).2
  refCount := afterRecord_refCount log lmP u _
  label := by
    have hlast := (h.fits_page hlen hfit).2.current.last
    rw [lastOffset_append_singleton] at hlast
    have hfirst := first_bounds log
    refine fun hall => ?_
    have hzero := congrArg BitVec.toNat hall.2.2
    rw [hlast, show (0 : BitVec 16).toNat = 0 from rfl] at hzero
    omega

theorem Logged.wrote_next :
    Wrote log lmP ((afterRecord log lmP u (log.first + extent recs)).NewLogPage log) u.tP (groups.flatten ++ recs)
      [newRecord lmP u] where
  logs := by
    refine ⟨groups ++ [recs ++ [newRecord lmP u]], [], (h.fits_page hlen hfit).2.NewLogPage (by simp), ?_⟩
    simp
  lsn := NewLogPage_lsn log _
  tranId t := by rw [NewLogPage_trans]; exact (afterRecord_trans log lmP u _ t).1
  dev t := by rw [NewLogPage_trans]; exact (afterRecord_trans log lmP u _ t).2
  refCount := by rw [NewLogPage_trans]; exact afterRecord_refCount log lmP u _
  label := by
    rw [labelled, NewLogPage_trans, (afterRecord_label log lmP u _).1, (afterRecord_label log lmP u _).2]
    exact fun hall => advance_ne ⟨hall.1.symm, hall.2.1.symm⟩

theorem WriteFitting_spec : ∃ lmP', lmP.WriteFitting log u (log.first + extent recs) = some lmP' ∧
      Wrote log lmP lmP' u.tP (groups.flatten ++ recs) [newRecord lmP u] := by
  obtain ⟨hwrite, hpages⟩ := h.fits_page hlen hfit
  have hoffset := hpages.GetNewRecordOffset_eq
  have hremaining := LogPageRemaining_eq hpages.inside
  have hresult : lmP.WriteFitting log u (log.first + extent recs) =
      some (if logMap.IsLogPageFull log (log.first + extent (recs ++ [newRecord lmP u]))
        then (afterRecord log lmP u (log.first + extent recs)).NewLogPage log
        else afterRecord log lmP u (log.first + extent recs)) := by
    rw [logMap.WriteFitting, hwrite, Option.bind_some]
    change ((afterRecord log lmP u _).GetNewRecordOffset log).map _ = _
    rw [hoffset, Option.map_some]
    rfl
  refine ⟨_, hresult, ?_⟩
  by_cases hfull : logMap.IsLogPageFull log (log.first + extent (recs ++ [newRecord lmP u]))
  · rw [if_pos hfull]
    exact h.wrote_next hlen hfit
  · rw [if_neg hfull]
    have hinside := hpages.inside
    rw [logMap.IsLogPageFull, hremaining] at hfull
    exact h.wrote_same hlen hfit (by omega)

theorem WriteLocked_fitting :
    ∃ lmP', (∀ fuel, 0 < fuel → logMap.WriteLocked log fuel lmP u (log.first + extent recs) = some lmP') ∧
      Wrote log lmP lmP' u.tP (groups.flatten ++ recs) [newRecord lmP u] := by
  obtain ⟨lmP', hresult, hwrote⟩ := WriteFitting_spec h hlen hfit
  refine ⟨lmP', fun fuel hfuel => ?_, hwrote⟩
  obtain ⟨fuel, rfl⟩ := Nat.exists_eq_add_one_of_ne_zero hfuel.ne'
  have hroom := h.room
  have hsize : NewLogrecSize LOGREC_DATA ALIGN_SIZE = 44 := by decide
  rw [logMap.WriteLocked, if_neg (by omega), LogPageRemaining_eq h.inside, if_neg (by omega), hresult]

end

theorem not_ISFILL_of_ISDATA {type : BitVec 16} (h : LOGREC_ISDATA type) : LOGREC_ISFILL type = false := by
  unfold LOGREC_ISDATA LOGREC_ISFILL at *
  rw [beq_iff_eq] at h
  rw [h]
  decide

theorem chunk_spec {type : BitVec 16} {dataLength newRecOffset : ℕ} (hdata : LOGREC_ISDATA type) (hhas : LOGREC_HASDATA type)
    (hoff : newRecOffset + NewLogrecSize LOGREC_DATA ALIGN_SIZE ≤ log.adev.blkSize) (hdvd : ALIGN_SIZE ∣ newRecOffset)
    (hlong : log.adev.blkSize < newRecOffset + NewLogrecSize type dataLength) :
    0 < logMap.chunk log type newRecOffset ∧ logMap.chunk log type newRecOffset < dataLength ∧
      newRecOffset + NewLogrecSize type (logMap.chunk log type newRecOffset) ≤ log.adev.blkSize := by
  obtain ⟨hmin, hmax, k, hk⟩ := blkSize_bounds log.adev
  obtain ⟨j, hj⟩ := hdvd
  have hsize : NewLogrecSize LOGREC_DATA ALIGN_SIZE = 44 := by decide
  have hheader : NewLogrecSize LOGREC_DATA 0 = 36 := by decide
  have hrest : minus (logMap.LogPageRemaining log newRecOffset) (NewLogrecSize LOGREC_DATA 0) =
      log.adev.blkSize - newRecOffset - 36 := by
    rw [LogPageRemaining_eq (by omega), hheader, minus_of_le (by omega) (by omega)]
  have hfill := not_ISFILL_of_ISDATA hdata
  rw [LOGREC_HASDATA_eq] at hhas
  unfold ALIGN_SIZE at *
  unfold NewLogrecSize OldDataSize NewDataSize at hlong ⊢
  unfold logMap.chunk
  simp only [hrest, hfill, LOGREC_HASDATA_eq] at hlong ⊢
  cases hold : LOGREC_HASOLDDATA type <;> cases hnew : LOGREC_HASNEWDATA type <;>
    simp only [hold, hnew, sizeof_logRecHdr, sizeof_lsn, Bool.or_true, Bool.or_false, Bool.and_true, Bool.and_false,
      Bool.and_self, Bool.or_self, Bool.false_eq_true, if_true, if_false, Nat.zero_add, Nat.add_zero] at hhas hlong ⊢ <;>
    omega

theorem WriteSplit_fits {fuel newRecOffset : ℕ} (hinside : newRecOffset ≤ log.adev.blkSize)
    (hfits : newRecOffset + NewLogrecSize u.recType u.dataLength ≤ log.adev.blkSize) :
    logMap.WriteSplit log (fuel + 1) lmP u newRecOffset = logMap.WriteLocked log fuel lmP u newRecOffset := by
  rw [logMap.WriteSplit, LogPageRemaining_eq hinside, if_neg (by omega)]

theorem WriteSplit_turn {fuel newRecOffset newRecOffset₁ : ℕ} {lmP₁ : logMap} (hinside : newRecOffset ≤ log.adev.blkSize)
    (hlong : log.adev.blkSize < newRecOffset + NewLogrecSize u.recType u.dataLength)
    (hpiece : logMap.WriteLocked log fuel lmP (u.take (logMap.chunk log u.recType newRecOffset)) newRecOffset = some lmP₁)
    (hoffset : lmP₁.GetNewRecordOffset log = some newRecOffset₁) :
    logMap.WriteSplit log (fuel + 1) lmP u newRecOffset =
      logMap.WriteSplit log fuel lmP₁ (u.drop (logMap.chunk log u.recType newRecOffset)) newRecOffset₁ := by
  rw [logMap.WriteSplit, LogPageRemaining_eq hinside, if_pos (by omega), hpiece, Option.bind_some, hoffset, Option.bind_some]

theorem WriteSplit_spec (hdata : LOGREC_ISDATA u.recType) (hhas : LOGREC_HASDATA u.recType) (hlen : u.dataLength < 2 ^ 32)
    (h : Logged log lmP groups recs) :
    ∃ lmP' new, (∀ fuel, u.dataLength + 2 ≤ fuel →
        logMap.WriteSplit log fuel lmP u (log.first + extent recs) = some lmP') ∧
      Wrote log lmP lmP' u.tP (groups.flatten ++ recs) new ∧
      Renders (lmP.trans u.tP).tranId lmP.lsn (lmP.trans u.tP).refCount u new := by
  induction hn : u.dataLength using Nat.strong_induction_on generalizing lmP u groups recs with
  | _ n ih =>
    subst hn
    have hfirst := first_bounds log
    by_cases hlong : log.adev.blkSize < log.first + extent recs + NewLogrecSize u.recType u.dataLength
    · obtain ⟨hpos, hlt, hfit⟩ := chunk_spec hdata hhas h.room (dvd_add hfirst.2.2 (dvd_extent recs)) hlong
      generalize hchunk : logMap.chunk log u.recType (log.first + extent recs) = len at hpos hlt hfit
      obtain ⟨lmP₁, hpiece, hwrote⟩ := WriteLocked_fitting (u := u.take len) h (hlt.trans hlen) hfit
      obtain ⟨groups₁, recs₁, hlogged₁, hall⟩ := hwrote.logs
      have hless : (u.drop len).dataLength < u.dataLength := Nat.sub_lt (hpos.trans hlt) hpos
      obtain ⟨lmP', new, hloop, hwrote', hrenders⟩ :=
        ih (u.drop len).dataLength hless (u := u.drop len) hdata hhas (hless.trans hlen) hlogged₁ rfl
      refine ⟨lmP', newRecord lmP (u.take len) :: new, fun fuel hfuel => ?_, ?_, ?_⟩
      · obtain ⟨fuel, rfl⟩ : ∃ k, fuel = k + 1 := ⟨fuel - 1, by omega⟩
        have hpos : 0 < fuel := by omega
        have hmore : (u.drop len).dataLength + 2 ≤ fuel := by omega
        have hturn := WriteSplit_turn h.inside hlong (by rw [hchunk]; exact hpiece fuel hpos) hlogged₁.GetNewRecordOffset_eq
        rw [hchunk] at hturn
        exact hturn.trans (hloop fuel hmore)
      · rw [hall] at hwrote'
        exact hwrote.trans hwrote'
      · have href : (lmP₁.trans u.tP).refCount = (lmP.trans u.tP).refCount + 1 := hwrote.refCount
        have hid : (lmP₁.trans u.tP).tranId = (lmP.trans u.tP).tranId := hwrote.tranId u.tP
        have hlsn : lmP₁.lsn = nextLsn lmP.lsn := hwrote.lsn
        have hrenders : Renders (lmP₁.trans u.tP).tranId lmP₁.lsn (lmP₁.trans u.tP).refCount (u.drop len) new := hrenders
        rw [href, hid, hlsn] at hrenders
        exact .cut _ _ _ _ hdata hhas hpos hlt hrenders
    · obtain ⟨lmP', hone, hwrote⟩ := WriteLocked_fitting (u := u) h hlen (by omega)
      refine ⟨lmP', [newRecord lmP u], fun fuel hfuel => ?_, hwrote, .whole _ _ _ _⟩
      obtain ⟨fuel, rfl⟩ : ∃ k, fuel = k + 1 := ⟨fuel - 1, by omega⟩
      have hpos : 0 < fuel := by omega
      rw [WriteSplit_fits h.inside (by omega)]
      exact hone fuel hpos

theorem WriteLocked_spec (h : Logged log lmP groups recs) (hlen : u.dataLength < 2 ^ 32) (hfits : Fits log u) :
    ∃ lmP' new, (∀ fuel, u.dataLength + 3 ≤ fuel →
        logMap.WriteLocked log fuel lmP u (log.first + extent recs) = some lmP') ∧
      Wrote log lmP lmP' u.tP (groups.flatten ++ recs) new ∧
      Renders (lmP.trans u.tP).tranId lmP.lsn (lmP.trans u.tP).refCount u new := by
  have hroom := h.room
  have hsize : NewLogrecSize LOGREC_DATA ALIGN_SIZE = 44 := by decide
  have hfirst := first_bounds log
  by_cases hlong : log.adev.blkSize < log.first + extent recs + NewLogrecSize u.recType u.dataLength
  · cases hsplit : LOGREC_NOSPLIT u.recType with
    | true =>
      -- On an empty page the record would fit, so that the page that is left has records.
      have hfitsEmpty := hfits hsplit
      have hne : recs ≠ [] := by
        rintro rfl
        rw [extent_nil] at hlong
        omega
      have hnext := h.toPages.NewLogPage hne
      obtain ⟨lmP', hone, hwrote⟩ := WriteLocked_fitting (u := u) hnext hlen (by rw [extent_nil]; omega)
      rw [extent_nil, Nat.add_zero] at hone
      have hoffset := hnext.GetNewRecordOffset_eq
      rw [extent_nil, Nat.add_zero] at hoffset
      refine ⟨lmP', [newRecord (lmP.NewLogPage log) u], fun fuel hfuel => ?_, ?_, ?_⟩
      · obtain ⟨fuel, rfl⟩ : ∃ k, fuel = k + 1 := ⟨fuel - 1, by omega⟩
        rw [logMap.WriteLocked, if_neg (by omega), LogPageRemaining_eq h.inside, if_pos (by omega), if_pos hsplit, hoffset,
          Option.bind_some, hone fuel (by omega)]
      · refine ⟨?_, hwrote.lsn.trans (by rw [NewLogPage_lsn]), fun t => ?_, fun t => ?_, ?_, hwrote.label⟩
        · have hlogs := hwrote.logs
          rwa [List.append_nil, List.flatten_append, List.flatten_singleton] at hlogs
        · rw [hwrote.tranId, NewLogPage_trans]
        · rw [hwrote.dev, NewLogPage_trans]
        · rw [hwrote.refCount, NewLogPage_trans]
      · have hrecord : newRecord (lmP.NewLogPage log) u =
            u.record (lmP.trans u.tP).tranId ((lmP.trans u.tP).refCount + 1) (lmP.NewLogPage log).current.hdr.lastLogRecOff
              (nextLsn lmP.lsn) := by
          rw [newRecord, NewLogPage_trans, NewLogPage_lsn]
        rw [hrecord]
        exact .whole _ _ _ _
    | false =>
      have hdata : LOGREC_ISDATA u.recType := by simpa [LOGREC_NOSPLIT] using hsplit
      have hhas : LOGREC_HASDATA u.recType := by
        by_contra hnone
        have hheader : NewLogrecSize u.recType u.dataLength = 36 := by
          simp [NewLogrecSize, not_ISFILL_of_ISDATA hdata, hnone, sizeof_logRecHdr, sizeof_lsn]
        omega
      obtain ⟨lmP', new, hloop, hwrote, hrenders⟩ := WriteSplit_spec hdata hhas hlen h
      refine ⟨lmP', new, fun fuel hfuel => ?_, hwrote, hrenders⟩
      obtain ⟨fuel, rfl⟩ : ∃ k, fuel = k + 1 := ⟨fuel - 1, by omega⟩
      rw [logMap.WriteLocked, if_neg (by omega), LogPageRemaining_eq h.inside, if_pos (by omega), hsplit,
        if_neg Bool.false_ne_true, hloop fuel (by omega)]
  · obtain ⟨lmP', hone, hwrote⟩ := WriteLocked_fitting (u := u) h hlen (by omega)
    exact ⟨lmP', [newRecord lmP u], fun fuel hfuel => hone fuel (by omega), hwrote, .whole _ _ _ _⟩

theorem WriteLocked_endless {fuel newRecOffset : ℕ} (hoff : log.adev.blkSize < newRecOffset + NewLogrecSize u.recType u.dataLength)
    (hnofit : ¬Fits log u) : logMap.WriteLocked log fuel lmP u newRecOffset = none := by
  induction fuel generalizing lmP newRecOffset with
  | zero => rfl
  | succ fuel ih =>
    obtain ⟨hsplit, hlong⟩ := Classical.not_imp.mp hnofit
    have hfirst := first_bounds log
    have hblk := blkSize_bounds log.adev
    rw [logMap.WriteLocked]
    split
    · rfl
    · rename_i hinside
      have hoffset : (lmP.NewLogPage log).GetNewRecordOffset log = some log.first :=
        (if_neg (not_not.mpr rfl)).trans (elbr_FirstLogRecordOffset_eq log.known rfl)
      rw [LogPageRemaining_eq (by omega), if_pos (by omega), hoffset, Option.bind_some]
      exact ih (by omega)

end dce.episode.logbuf
