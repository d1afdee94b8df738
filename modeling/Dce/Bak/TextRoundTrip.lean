import Dce.Bak.Server

open lib

namespace dce.bak

/-- The pieces of a text saved in order, with `BUDB_TEXT_COMPLETE` on the last. -/
def saveAll (textLocks : ℕ) (db : memoryDB) (handle textType : ℕ) : ℕ → List (List Byte) → Except Stop memoryDB
  | _, [] => .ok db
  | offset, [piece] => BUDB_SaveText textLocks db true handle textType offset BUDB_TEXT_COMPLETE piece
  | offset, piece :: next :: pieces => do
    let db' ← BUDB_SaveText textLocks db true handle textType offset 0 piece
    saveAll textLocks db' handle textType (offset + piece.length) (next :: pieces)

/-- Pieces saved in order, none of them the last: the database when one of them fails, or after all. -/
def saveSome (textLocks : ℕ) (db : memoryDB) (handle textType : ℕ) : ℕ → List (List Byte) → memoryDB
  | _, [] => db
  | offset, piece :: pieces =>
    match BUDB_SaveText textLocks db true handle textType offset 0 piece with
    | .error _ => db
    | .ok db' => saveSome textLocks db' handle textType (offset + piece.length) pieces

/-- Calls of `BUDB_GetText` from an offset on, each with the `nextOffset` of the one before and its own `maxLength`, return
some octets and then stop. -/
inductive Reads (textLocks : ℕ) (db : memoryDB) (handle textType : ℕ) (maxLength : ℕ → ℕ) : ℕ → ℤ → List Byte → Prop
  | last {k : ℕ} {offset : ℤ} {charList : List Byte} :
    BUDB_GetText textLocks db true handle textType (maxLength k) offset = .ok ⟨charList, -1⟩ →
    Reads textLocks db handle textType maxLength k offset charList
  | more {k : ℕ} {offset nextOffset : ℤ} {charList rest : List Byte} :
    BUDB_GetText textLocks db true handle textType (maxLength k) offset = .ok ⟨charList, nextOffset⟩ → nextOffset ≠ -1 →
    Reads textLocks db handle textType maxLength (k + 1) nextOffset rest →
    Reads textLocks db handle textType maxLength k offset (charList ++ rest)

/-- The blocks of the previous text are unused afterwards, each of them once. -/
def FreedOnce (db db' : memoryDB) (textType : ℕ) : Prop :=
  ∃ old free, Chained db.next 0 (db.h.textBlock textType).textAddr old ∧ Chained db'.next 0 db'.h.freePtr free ∧
    ∀ a ∈ old, free.count a = 1

def RoundTrips (textLocks : ℕ) (db : memoryDB) (handle textType : ℕ) (pieces : List (List Byte)) (maxLength : ℕ → ℕ) : Prop :=
  ∃ db', saveAll textLocks db handle textType 0 pieces = .ok db' ∧
    (db'.h.textBlock textType).version = (db.h.textBlock textType).version + 1 ∧ FreedOnce db db' textType ∧
    Reads textLocks db' handle textType maxLength 0 0 pieces.flatten

/-- No piece but the first begins where a block ends. -/
def NoneAtBoundary (pieces : List (List Byte)) : Prop :=
  ∀ before piece after, pieces = before ++ piece :: after → before.flatten ≠ [] → ¬ BLOCK_DATA_SIZE ∣ before.flatten.length

/-- There are enough blocks for a text of this length: those not in use, those of a text that was not completed, and those
that fit in behind the last one. -/
def HasRoom (db : memoryDB) (textType len : ℕ) : Prop :=
  ∀ free new, Chained db.next 0 db.h.freePtr free → Chained db.next 0 (db.h.textBlock textType).newTextAddr new →
    blocksFor len ≤ free.length + (fileLimit - db.h.eofPtr) / BLOCKSIZE + new.length

/-- What each call of `BUDB_GetText` asks for fits in `charListT_val`. -/
def RepliesFit (len : ℕ) (maxLength : ℕ → ℕ) : Prop :=
  ∀ k, min (len - ((List.range k).map maxLength).sum) (maxLength k) ≤ BUDB_MAX_CHAR_LIST

/-- A call of `BUDB_GetText` is refused, or transfers octets inside of the text. -/
def Answers (textLocks : ℕ) (db : memoryDB) (handle textType maxLength offset : ℕ) : Prop :=
  BUDB_GetText textLocks db true handle textType maxLength offset = .error .BUDB_BADARGUMENT ∨
  ∃ reply, BUDB_GetText textLocks db true handle textType maxLength offset = .ok reply ∧
    offset + reply.charList.length ≤ (db.h.textBlock textType).size

variable {db : memoryDB} {blocks : Use → List ℕ} {textType textLocks handle lockName : ℕ}

theorem hasRoom_iff (h : Laid db blocks) (len : ℕ) : HasRoom db textType len ↔ blocksFor len ≤ available textType db blocks := by
  constructor
  · intro hroom
    exact hroom _ _ h.pool.free (h.newText textType)
  · intro hroom free new hfree hnew
    obtain rfl := hfree.unique h.pool.free
    obtain rfl := hnew.unique (h.newText textType)
    exact hroom

theorem reads_iff {maxLength : ℕ → ℕ} {k : ℕ} {offset : ℤ} {octets : List Byte} :
    Reads textLocks db handle textType maxLength k offset octets ↔
      BUDB_GetText textLocks db true handle textType (maxLength k) offset = .ok ⟨octets, -1⟩ ∨
      ∃ charList nextOffset rest,
        BUDB_GetText textLocks db true handle textType (maxLength k) offset = .ok ⟨charList, nextOffset⟩ ∧ nextOffset ≠ -1 ∧
        Reads textLocks db handle textType maxLength (k + 1) nextOffset rest ∧ octets = charList ++ rest := by
  constructor
  · intro hreads
    cases hreads with
    | last hok => exact .inl hok
    | more hok hnext hrest => exact .inr ⟨_, _, _, hok, hnext, hrest, rfl⟩
  · rintro (hok | ⟨charList, nextOffset, rest, hok, hnext, hrest, rfl⟩)
    · exact .last hok
    · exact .more hok hnext hrest

theorem Stores.exists_text (db : memoryDB) (blocks : Use → List ℕ) (n : ℕ) :
    ∃ text, (db.h.textBlock n).size = text.length ∧ Stores db (blocks (.text n)) text := by
  refine ⟨(List.range (db.h.textBlock n).size).map (dataAt db (blocks (.text n))), by simp, fun i hi => ?_⟩
  rw [List.getElem_map, List.getElem_range]

theorem Kept.completed {db₁ db' : memoryDB} {blocks₁ blocks' : Use → List ℕ} {text : List Byte}
    (hkept : Kept textType db blocks db₁ blocks₁) (h : Completed textType db₁ blocks₁ db' blocks' text) :
    Completed textType db blocks db' blocks' text := by
  refine ⟨h.laid, h.size, h.stores, by rw [h.version, hkept.version], fun a ha => h.freed a ?_, hkept.elsewhere.trans h.elsewhere⟩
  rwa [hkept.others (.text textType) (by simp) (by simp)]

/-- No piece begins where a block ends, when some octets have been written. -/
def NoneAtBoundaryFrom (written : List Byte) (pieces : List (List Byte)) : Prop :=
  ∀ before piece after, pieces = before ++ piece :: after → written ++ before.flatten ≠ [] →
    ¬ BLOCK_DATA_SIZE ∣ (written ++ before.flatten).length

theorem noneAtBoundaryFrom_cons {written piece : List Byte} {pieces : List (List Byte)} :
    NoneAtBoundaryFrom written (piece :: pieces) ↔
      (written ≠ [] → ¬ BLOCK_DATA_SIZE ∣ written.length) ∧ NoneAtBoundaryFrom (written ++ piece) pieces := by
  constructor
  · intro hall
    refine ⟨fun hne => ?_, fun before next after hsplit hne => ?_⟩
    · have hthis := hall [] piece pieces rfl
      simp only [List.flatten_nil, List.append_nil] at hthis
      exact hthis hne
    · have hthis := hall (piece :: before) next after (by rw [hsplit, List.cons_append])
      rw [List.flatten_cons, ← List.append_assoc] at hthis
      exact hthis hne
  · rintro ⟨hfirst, hrest⟩ before next after hsplit hne
    cases before with
    | nil =>
      simp only [List.flatten_nil, List.append_nil] at hne ⊢
      exact hfirst hne
    | cons p before =>
      obtain ⟨rfl, hmore⟩ := List.cons.inj hsplit
      rw [List.flatten_cons, ← List.append_assoc] at hne ⊢
      exact hrest before next after hmore hne

section Calls

variable (hhandle : checkLockHandle textLocks handle = some lockName) (htype : textType < TB_NUM)
include hhandle htype

theorem answers_iff (h : Laid db blocks) {maxLength : ℕ} (hmax : 0 < maxLength) (offset : ℕ) :
    Answers textLocks db handle textType maxLength offset ↔
      ((db.h.textBlock textType).size = 0 → offset = 0) ∧
        min ((db.h.textBlock textType).size - offset) maxLength ≤ BUDB_MAX_CHAR_LIST := by
  obtain ⟨text, hsize, hstores⟩ := Stores.exists_text db blocks textType
  have hspec := BUDB_GetText_spec h hsize hstores hhandle htype maxLength (Int.natCast_nonneg offset)
  rw [Answers, hspec, hsize, answer]
  by_cases hbehind : 0 < text.length ∧ (text.length : ℤ) ≤ offset
  · rw [if_pos hbehind]
    refine iff_of_true (.inl rfl) ⟨fun hnone => by omega, by omega⟩
  · rw [if_neg hbehind]
    dsimp only
    by_cases hoverrun : min ((text.length : ℤ) - offset) maxLength < 0 ∨
        (BUDB_MAX_CHAR_LIST : ℤ) < min ((text.length : ℤ) - offset) maxLength
    · rw [if_pos hoverrun]
      refine iff_of_false ?_ ?_
      · rintro (hbad | ⟨reply, hok, -⟩)
        · exact absurd hbad (by simp)
        · exact absurd hok (by simp)
      · rintro ⟨hnone, hfits⟩
        omega
    · rw [if_neg hoverrun]
      refine iff_of_true (.inr ⟨_, rfl, ?_⟩) ⟨fun hnone => by omega, by omega⟩
      simp only [List.length_take, List.length_drop, Int.toNat_natCast]
      omega

theorem reads_from_iff {text : List Byte} (h : Laid db blocks) (hsize : (db.h.textBlock textType).size = text.length)
    (hstores : Stores db (blocks (.text textType)) text) {maxLength : ℕ → ℕ} (hmax : ∀ k, 0 < maxLength k) (left k offset : ℕ)
    (hleft : text.length = offset + left) (hstart : 0 < left ∨ offset = 0) :
    Reads textLocks db handle textType maxLength k offset (text.drop offset) ↔
      ∀ j, min (text.length - (offset + ((List.range j).map fun i => maxLength (k + i)).sum)) (maxLength (k + j)) ≤
        BUDB_MAX_CHAR_LIST := by
  induction left using Nat.strongRecOn generalizing k offset with
  | ind left ih =>
    have hspec := BUDB_GetText_spec h hsize hstores hhandle htype (maxLength k) (Int.natCast_nonneg offset)
    have hnotBehind : ¬(0 < text.length ∧ (text.length : ℤ) ≤ offset) := by omega
    obtain ⟨transferSize, htransfer⟩ : ∃ n, n = min left (maxLength k) := ⟨_, rfl⟩
    have htransfer' : min ((text.length : ℤ) - offset) (maxLength k : ℤ) = transferSize := by omega
    rw [answer, if_neg hnotBehind] at hspec
    simp only [htransfer', Int.toNat_natCast] at hspec
    have hpositive := hmax k
    by_cases hfits : transferSize ≤ BUDB_MAX_CHAR_LIST
    · have hnotOver : ¬((transferSize : ℤ) < 0 ∨ (BUDB_MAX_CHAR_LIST : ℤ) < transferSize) := by omega
      rw [if_neg hnotOver] at hspec
      by_cases hend : left ≤ maxLength k
      · -- the last reply
        have hnext : (offset : ℤ) + transferSize = text.length := by omega
        have hall : (text.drop offset).take transferSize = text.drop offset :=
          List.take_of_length_le (by rw [List.length_drop]; omega)
        rw [if_pos hnext, hall] at hspec
        refine iff_of_true (.last hspec) fun j => ?_
        cases j with
        | zero =>
          simp only [List.range_zero, List.map_nil, List.sum_nil, Nat.add_zero]
          omega
        | succ j =>
          rw [List.range_succ_eq_map, List.map_cons, List.sum_cons, Nat.add_zero]
          omega
      · have hsum : transferSize = maxLength k := by omega
        have hnext : (offset : ℤ) + transferSize ≠ text.length := by omega
        rw [if_neg hnext] at hspec
        have hrest := ih (left - transferSize) (by omega) (k + 1) (offset + transferSize) (by omega) (.inl (by omega))
        have hshift : (∀ j, min (text.length - (offset + ((List.range j).map fun i => maxLength (k + i)).sum)) (maxLength (k + j)) ≤
            BUDB_MAX_CHAR_LIST) ↔
            ∀ j, min (text.length - (offset + transferSize + ((List.range j).map fun i => maxLength (k + 1 + i)).sum))
              (maxLength (k + 1 + j)) ≤ BUDB_MAX_CHAR_LIST := by
          have hstep : ∀ j, offset + ((List.range (j + 1)).map fun i => maxLength (k + i)).sum =
              offset + transferSize + ((List.range j).map fun i => maxLength (k + 1 + i)).sum := fun j => by
            rw [List.range_succ_eq_map, List.map_cons, List.sum_cons, List.map_map, Nat.add_zero, hsum, Nat.add_assoc]
            simp only [Function.comp_def, Nat.succ_eq_add_one, Nat.add_assoc, Nat.add_comm 1]
          constructor
          · intro hall j
            have hthis := hall (j + 1)
            rwa [hstep, ← Nat.add_assoc, Nat.add_right_comm k j 1] at hthis
          · intro hall j
            cases j with
            | zero =>
              simp only [List.range_zero, List.map_nil, List.sum_nil, Nat.add_zero]
              omega
            | succ j =>
              rw [hstep, ← Nat.add_assoc, Nat.add_right_comm k j 1]
              exact hall j
        have hsplit : text.drop offset = (text.drop offset).take transferSize ++ text.drop (offset + transferSize) := by
          rw [← List.drop_drop, List.take_append_drop]
        have hcast : ((offset + transferSize : ℕ) : ℤ) = offset + transferSize := by omega
        rw [hcast] at hrest
        rw [hshift, ← hrest]
        constructor
        · intro hreads
          rcases reads_iff.mp hreads with hlast | ⟨charList, nextOffset, rest, hok, -, hreads, happend⟩
          · have hminus := congrArg Reply.nextOffset (Except.ok.inj (hspec.symm.trans hlast))
            dsimp only at hminus
            omega
          · have hreply := Except.ok.inj (hspec.symm.trans hok)
            obtain ⟨rfl, rfl⟩ := Reply.mk.inj hreply
            have hsame := List.append_cancel_left (hsplit.symm.trans happend)
            rwa [← hsame] at hreads
        · intro hreads
          rw [hsplit]
          exact .more hspec (by omega) hreads
    · have hover : (transferSize : ℤ) < 0 ∨ (BUDB_MAX_CHAR_LIST : ℤ) < transferSize := by omega
      rw [if_pos hover] at hspec
      refine iff_of_false (fun hreads => ?_) fun hall => hfits ?_
      · rcases reads_iff.mp hreads with hok | ⟨_, _, _, hok, -⟩
        · exact absurd (hspec.symm.trans hok) (by simp)
        · exact absurd (hspec.symm.trans hok) (by simp)
      · have hthis := hall 0
        simp only [List.range_zero, List.map_nil, List.sum_nil, Nat.add_zero] at hthis
        omega

theorem saveAll_spec {pieces : List (List Byte)} (hne : pieces ≠ []) (hpieces : ∀ p ∈ pieces, p.length ≤ BLOCK_DATA_SIZE)
    {written : List Byte} (h : Laid db blocks) (hwritten : written = [] ∨ Written textType db blocks written) :
    (NoneAtBoundaryFrom written pieces ∧ blocksFor (written ++ pieces.flatten).length ≤ available textType db blocks ∧
      ∃ db' blocks', saveAll textLocks db handle textType written.length pieces = .ok db' ∧
        Completed textType db blocks db' blocks' (written ++ pieces.flatten)) ∨
    (¬(NoneAtBoundaryFrom written pieces ∧ blocksFor (written ++ pieces.flatten).length ≤ available textType db blocks) ∧
      ∃ stop, saveAll textLocks db handle textType written.length pieces = .error stop) := by
  induction pieces generalizing db blocks written with
  | nil => exact absurd rfl hne
  | cons piece pieces ih =>
    have hpiece := hpieces piece List.mem_cons_self
    have hmore := fun p hp => hpieces p (List.mem_cons_of_mem piece hp)
    rw [noneAtBoundaryFrom_cons]
    by_cases hboundary : written ≠ [] → ¬ BLOCK_DATA_SIZE ∣ written.length
    · have hstart : written = [] ∨ (Written textType db blocks written ∧ ¬ BLOCK_DATA_SIZE ∣ written.length) := by
        by_cases hnil : written = []
        · exact .inl hnil
        · exact .inr ⟨hwritten.resolve_left hnil, hboundary hnil⟩
      cases pieces with
      | nil =>
        have hflatten : written ++ [piece].flatten = written ++ piece := by simp
        have hnone : NoneAtBoundaryFrom (written ++ piece) [] := by
          intro before next after hsplit
          simp at hsplit
        rw [saveAll, hflatten]
        rcases BUDB_SaveText_complete BUDB_TEXT_COMPLETE hhandle htype hpiece h (by decide) hstart with
          ⟨db', blocks', hok, hcompleted, hroom⟩ | ⟨herror, hfew⟩
        · exact .inl ⟨⟨hboundary, hnone⟩, hroom, db', blocks', hok, hcompleted⟩
        · exact .inr ⟨fun hboth => by omega, _, herror⟩
      | cons next pieces =>
        have hflatten : written ++ (piece :: next :: pieces).flatten = written ++ piece ++ (next :: pieces).flatten := by
          rw [List.flatten_cons, List.append_assoc]
        rw [saveAll, hflatten]
        rcases BUDB_SaveText_partial 0 hhandle htype hpiece h (by decide) hstart with
          ⟨db₁, blocks₁, hok, hlaid₁, hwritten₁, hkept⟩ | ⟨herror, hfew⟩
        · have hsame : available textType db₁ blocks₁ = available textType db blocks := hkept.room
          have hrest := ih (by simp) hmore hlaid₁ (.inr hwritten₁)
          have hlength : (written ++ piece).length = written.length + piece.length := List.length_append
          rw [hsame] at hrest
          rw [hok, Stop.ok_bind, ← hlength]
          rcases hrest with ⟨hnone, hroom, db', blocks', hloop, hcompleted⟩ | ⟨hnot, stop, hloop⟩
          · exact .inl ⟨⟨hboundary, hnone⟩, hroom, db', blocks', hloop, hkept.completed hcompleted⟩
          · exact .inr ⟨fun hboth => hnot ⟨hboth.1.2, hboth.2⟩, stop, hloop⟩
        · rw [herror, Stop.error_bind]
          refine .inr ⟨fun hboth => ?_, _, rfl⟩
          have hmono : blocksFor (written ++ piece).length ≤ blocksFor (written ++ piece ++ (next :: pieces).flatten).length :=
            blocksFor_mono (by rw [@List.length_append _ _ (next :: pieces).flatten]; exact Nat.le_add_right ..)
          omega
    · -- the piece begins where a block ends
      rw [Classical.not_imp, not_not] at hboundary
      obtain ⟨hnil, hdvd⟩ := hboundary
      refine .inr ⟨fun hboth => hboth.1.1 hnil hdvd, ?_⟩
      have hrefused := fun flags => BUDB_SaveText_boundary flags hhandle htype hpiece (hwritten.resolve_left hnil) hnil hdvd
      cases pieces with
      | nil => exact ⟨_, hrefused BUDB_TEXT_COMPLETE⟩
      | cons next pieces =>
        rw [saveAll, hrefused 0, Stop.error_bind]
        exact ⟨_, rfl⟩

theorem Kept.getText {db' : memoryDB} {blocks' : Use → List ℕ} (h : Laid db blocks) (h' : Laid db' blocks')
    (hkept : Kept textType db blocks db' blocks') (maxLength offset : ℤ) :
    BUDB_GetText textLocks db' true handle textType maxLength offset =
      BUDB_GetText textLocks db true handle textType maxLength offset := by
  by_cases hoffset : 0 ≤ offset
  · obtain ⟨text, hsize, hstores⟩ := Stores.exists_text db blocks textType
    have hstores' : Stores db' (blocks' (.text textType)) text := by
      rw [hkept.others _ (by simp) (by simp)]
      refine hstores.congr fun k hk => ?_
      have hlength := h.size textType
      rw [hsize] at hlength
      have hk' : k < (blocks (.text textType)).length := by
        have hlt : k * BLOCK_DATA_SIZE < (blocks (.text textType)).length * BLOCK_DATA_SIZE := by
          rw [Nat.mul_comm (blocks (.text textType)).length]
          omega
        exact Nat.lt_of_mul_lt_mul_right hlt
      rw [List.getD_eq_getElem _ _ hk', hkept.disk _ (by simp) (by simp) _ (List.getElem_mem hk')]
    rw [BUDB_GetText_spec h hsize hstores hhandle htype maxLength hoffset,
      BUDB_GetText_spec h' (hkept.size.trans hsize) hstores' hhandle htype maxLength hoffset]
  · have hparameters : offset < 0 ∨ (textType : ℤ) < 0 ∨ (TB_NUM : ℤ) ≤ textType := .inl (by omega)
    have hpermitted : ¬(true = false) := by simp
    rw [BUDB_GetText, BUDB_GetText, if_neg hpermitted, if_neg hpermitted, if_pos hparameters, if_pos hparameters]

theorem saveSome_getText {pieces : List (List Byte)} (hpieces : ∀ p ∈ pieces, p.length ≤ BLOCK_DATA_SIZE) {written : List Byte}
    (h : Laid db blocks) (hwritten : written = [] ∨ Written textType db blocks written) (maxLength offset : ℤ) :
    BUDB_GetText textLocks (saveSome textLocks db handle textType written.length pieces) true handle textType maxLength offset =
      BUDB_GetText textLocks db true handle textType maxLength offset := by
  induction pieces generalizing db blocks written with
  | nil => rfl
  | cons piece pieces ih =>
    have hpiece := hpieces piece List.mem_cons_self
    rw [saveSome]
    cases hcall : BUDB_SaveText textLocks db true handle textType written.length 0 piece with
    | error stop => rfl
    | ok db₁ =>
      have hboundary : written ≠ [] → ¬ BLOCK_DATA_SIZE ∣ written.length := by
        intro hnil hdvd
        have hrefused := BUDB_SaveText_boundary 0 hhandle htype hpiece (hwritten.resolve_left hnil) hnil hdvd
        exact absurd (hcall.symm.trans hrefused) (by simp)
      have hstart : written = [] ∨ (Written textType db blocks written ∧ ¬ BLOCK_DATA_SIZE ∣ written.length) := by
        by_cases hnil : written = []
        · exact .inl hnil
        · exact .inr ⟨hwritten.resolve_left hnil, hboundary hnil⟩
      rcases BUDB_SaveText_partial 0 hhandle htype hpiece h (by decide) hstart with
        ⟨db', blocks₁, hok, hlaid₁, hwritten₁, hkept⟩ | ⟨herror, -⟩
      · obtain rfl : db' = db₁ := Except.ok.inj (hok.symm.trans hcall)
        have hrest := ih (fun p hp => hpieces p (List.mem_cons_of_mem piece hp)) hlaid₁ (.inr hwritten₁)
        rw [List.length_append] at hrest
        exact hrest.trans (hkept.getText hhandle htype h hlaid₁ maxLength offset)
      · exact absurd (hcall.symm.trans herror) (by simp)

end Calls

/-- A text is saved and read back exactly when no piece begins where a block ends, there is room for it and no reply is
longer than `charListT_val`. Pieces without a last one leave the previous text as it is. `BUDB_GetText` answers from every
offset unless the text is empty, and the offset is not zero, or the reply is too long. -/
theorem text_round_trips_iff (textLocks : ℕ) {s : Server} (hreach : (server textLocks).Reachable s) (handle lockName : ℕ)
    (hhandle : checkLockHandle textLocks handle = some lockName) (textType : ℕ) (htype : textType < TB_NUM)
    (pieces : List (List Byte)) (hne : pieces ≠ []) (hpieces : ∀ p ∈ pieces, p.length ≤ BLOCK_DATA_SIZE) (maxLength : ℕ → ℕ)
    (hmax : ∀ k, 0 < maxLength k) :
    (RoundTrips textLocks s.db handle textType pieces maxLength ↔
      NoneAtBoundary pieces ∧ HasRoom s.db textType pieces.flatten.length ∧ RepliesFit pieces.flatten.length maxLength) ∧
    (∀ len offset : ℤ, BUDB_GetText textLocks (saveSome textLocks s.db handle textType 0 pieces) true handle textType len offset =
      BUDB_GetText textLocks s.db true handle textType len offset) ∧
    ∀ len offset : ℕ, 0 < len → (Answers textLocks s.db handle textType len offset ↔
      ((s.db.h.textBlock textType).size = 0 → offset = 0) ∧
        min ((s.db.h.textBlock textType).size - offset) len ≤ BUDB_MAX_CHAR_LIST) := by
  obtain ⟨blocks, hlaid, -⟩ := Server.laid_of_reachable hreach
  have hspec := saveAll_spec hhandle htype hne hpieces hlaid (.inl rfl)
  have hsome := saveSome_getText hhandle htype hpieces hlaid (.inl rfl)
  rw [List.nil_append] at hspec
  refine ⟨?_, hsome, fun len offset hlen => answers_iff hhandle htype hlaid hlen offset⟩
  have hboundary : NoneAtBoundaryFrom [] pieces ↔ NoneAtBoundary pieces := Iff.rfl
  rw [hasRoom_iff hlaid, ← hboundary]
  rcases hspec with ⟨hnone, hroom, db', blocks', hsave, hcompleted⟩ | ⟨hnot, stop, hfail⟩
  · have hreads := reads_from_iff hhandle htype hcompleted.laid hcompleted.size hcompleted.stores hmax pieces.flatten.length 0 0
      (Nat.zero_add _).symm (.inr rfl)
    have hfits : Reads textLocks db' handle textType maxLength 0 0 pieces.flatten ↔ RepliesFit pieces.flatten.length maxLength := by
      refine hreads.trans (forall_congr' fun j => ?_)
      simp only [Nat.zero_add]
    have hfreed : FreedOnce s.db db' textType := by
      refine ⟨blocks (.text textType), blocks' .free, hlaid.text textType, hcompleted.laid.pool.free, fun a ha => ?_⟩
      exact List.count_eq_one_of_mem (hcompleted.laid.pool.apart.nodup .free) (hcompleted.freed a ha)
    constructor
    · rintro ⟨db₁, hok, -, -, hread⟩
      obtain rfl : db' = db₁ := Except.ok.inj (hsave.symm.trans hok)
      exact ⟨hnone, hroom, hfits.mp hread⟩
    · rintro ⟨-, -, hfit⟩
      exact ⟨db', hsave, hcompleted.version, hfreed, hfits.mpr hfit⟩
  · refine iff_of_false ?_ fun hboth => hnot ⟨hboth.1, hboth.2.1⟩
    rintro ⟨db', hok, -⟩
    exact absurd (hfail.symm.trans hok) (by simp)

theorem text_round_trips_iff_twoPieces : RoundTrips 4096 newServer.db 4096 0 [[72], [105]] fun _ => 1024 := by
  have hiff := text_round_trips_iff 4096 (.init newServer_new) 4096 0 (by decide) 0 (by decide) [[72], [105]] (by simp) (by decide)
    (fun _ => 1024) (fun _ => by decide)
  refine hiff.1.mpr ⟨fun before piece after hsplit hne hdvd => ?_, fun free new _ _ => ?_, fun k => Nat.min_le_right ..⟩
  · have hlength := congrArg (fun pieces => pieces.flatten.length) hsplit
    simp only [List.flatten_append, List.length_append] at hlength
    have hle := Nat.le_of_dvd (List.length_pos_iff.mpr hne) hdvd
    have htwo : [[72], [(105 : Byte)]].flatten.length = 2 := rfl
    unfold BLOCK_DATA_SIZE BLOCKSIZE sizeof_blockHeader at hle
    omega
  · have hroom : blocksFor [[72], [(105 : Byte)]].flatten.length ≤ (fileLimit - newServer.db.h.eofPtr) / BLOCKSIZE := by decide
    omega

/-- Two pieces, the first of which fills a block. -/
theorem text_lost_at_boundary : ¬ ∀ (textLocks : ℕ) (s : Server), (server textLocks).Reachable s →
    ∀ handle lockName textType, checkLockHandle textLocks handle = some lockName → textType < TB_NUM →
    ∀ pieces : List (List Byte), pieces ≠ [] → (∀ p ∈ pieces, p.length ≤ BLOCK_DATA_SIZE) →
    ∀ maxLength : ℕ → ℕ, (∀ k, 0 < maxLength k) → RoundTrips textLocks s.db handle textType pieces maxLength := by
  intro hall
  have hpieces : ∀ p ∈ [List.replicate BLOCK_DATA_SIZE (65 : Byte), [66]], p.length ≤ BLOCK_DATA_SIZE := by
    intro p hp
    rcases List.mem_cons.mp hp with rfl | hp
    · rw [List.length_replicate]
    · obtain rfl := List.mem_singleton.mp hp
      decide
  obtain ⟨db', hok, -⟩ := hall 4096 newServer (.init newServer_new) 4096 0 0 (by decide) (by decide)
    [List.replicate BLOCK_DATA_SIZE 65, [66]] (by simp) hpieces (fun _ => 1024) (fun _ => by decide)
  obtain ⟨blocks, hlaid, -⟩ := Server.New.laid newServer_new
  have hhandle : checkLockHandle 4096 4096 = some 0 := by decide
  rcases saveAll_spec hhandle (show 0 < TB_NUM by decide) (by simp) hpieces hlaid (.inl rfl) with ⟨hnone, -⟩ | ⟨-, stop, hfail⟩
  · refine hnone [List.replicate BLOCK_DATA_SIZE 65] [66] [] rfl ?_ ?_
    · refine List.ne_nil_of_length_pos ?_
      rw [List.nil_append, List.flatten_singleton, List.length_replicate]
      exact BLOCK_DATA_SIZE_pos
    · rw [List.nil_append, List.flatten_singleton, List.length_replicate]
  · exact absurd (hfail.symm.trans hok) (by simp)

end dce.bak
