import Dce.Epi.BitmapSearch
import Dce.Epi.MarkCounts
import Dce.Lib.System

open lib

namespace dce.episode.bitmap

/-- `struct epix_fragDescription`, with its place in the page; a whole block is one of all fragments of the block. -/
structure fragDescription where
  first : ℕ
  length : ℕ
  deriving DecidableEq, Repr

def fragDescription.holds (frags : fragDescription) (k : ℕ) : Bool :=
  decide (frags.first ≤ k ∧ k < frags.first + frags.length)

/-- A page of an allocation pool under the lock of its handle, and what the anodes have of it. -/
structure AllocationPool where
  page : bitmapPage
  h : allocationData
  held : List fragDescription

/-- What the exported functions do to a page, once a fragment that was freed by a transaction without a commit is passed over. -/
inductive PoolCall where
  /-- The search goes on at the block `start` of the page. -/
  | epib_Allocate (start : ℕ)
  | epib_Free (block : fragDescription)
  | epib_AllocateFrags (logged : Bool) (nFrags start : ℕ)
  /-- `epib_AllocateFrags` with `EPIB_EXTEND_FRAGS`, which tries for more fragments behind those of the anode. -/
  | extendFrags (logged : Bool) (frags : fragDescription) (tryFor : ℕ)
  | epib_FreeFrags (logged : Bool) (keep : ℕ) (frags : fragDescription)
  deriving DecidableEq, Repr

namespace AllocationPool

variable (s : AllocationPool)

def epib_Allocate (start : ℕ) : Option AllocationPool := do
  let block ← FindBlock s.page s.h (some ⟨start⟩)
  if block = EPIX_ANODE_BLOCKEMPTY then some s
  else
    let (page, h) ← MarkBlock s.page s.h block.toNat true
    let first := (block.toNat - s.page.baseOffset) * s.page.fragmentsPerBlock
    some ⟨page, h, ⟨first, s.page.fragmentsPerBlock⟩ :: s.held⟩

def epib_Free (block : fragDescription) : Option AllocationPool :=
  if block ∈ s.held ∧ block.length = s.h.fragmentsPerBlock then do
    let (page, h) ← MarkBlock s.page s.h (block.first / s.h.fragmentsPerBlock + s.page.baseOffset) false
    some ⟨page, h, s.held.erase block⟩
  else none

def epib_AllocateFrags (logged : Bool) (nFrags start : ℕ) : Option AllocationPool :=
  if 1 ≤ nFrags ∧ nFrags ≤ s.h.fragmentsPerBlock then do
    let (firstFrag, wholeBlockFree) ← FindFrags s.page s.h (kind logged) nFrags (some ⟨start⟩)
    if firstFrag = NO_FRAG then some s
    else
      let (page, h, _) ← MarkFrags s.page s.h (kind logged) firstFrag.toNat nFrags true wholeBlockFree
      some ⟨page, h, ⟨firstFrag.toNat, nFrags⟩ :: s.held⟩
  else none

def extendFrags (logged : Bool) (frags : fragDescription) (tryFor : ℕ) : Option AllocationPool :=
  if frags ∈ s.held ∧ 1 ≤ tryFor ∧ frags.first % s.h.fragmentsPerBlock + (frags.length + tryFor) ≤ s.h.fragmentsPerBlock then do
    let (firstFrag, wholeBlockFree) ← FindFrags s.page s.h (kind logged) tryFor (some ⟨frags.first + frags.length⟩)
    if firstFrag = (frags.first + frags.length : ℕ) then
      let (page, h, _) ← MarkFrags s.page s.h (kind logged) firstFrag.toNat tryFor true wholeBlockFree
      some ⟨page, h, ⟨frags.first, frags.length + tryFor⟩ :: s.held.erase frags⟩
    else some s
  else none

/-- What `epib_FreeFrags` knows of the block: a block of which it keeps a part is not empty. -/
def knownEmpty (keep : ℕ) (frags : fragDescription) : ℤ :=
  if keep ≠ 0 then if frags.length = s.h.fragmentsPerBlock then -2 else 0 else -1

def epib_FreeFrags (logged : Bool) (keep : ℕ) (frags : fragDescription) : Option AllocationPool :=
  if frags ∈ s.held ∧ keep < frags.length then do
    let (page, h, _) ←
      MarkFrags s.page s.h (kind logged) (frags.first + keep) (frags.length - keep) false (s.knownEmpty keep frags)
    some ⟨page, h, if keep = 0 then s.held.erase frags else ⟨frags.first, keep⟩ :: s.held.erase frags⟩
  else none

def step : PoolCall → Option AllocationPool
  | .epib_Allocate start => s.epib_Allocate start
  | .epib_Free block => s.epib_Free block
  | .epib_AllocateFrags logged nFrags start => s.epib_AllocateFrags logged nFrags start
  | .extendFrags logged frags tryFor => s.extendFrags logged frags tryFor
  | .epib_FreeFrags logged keep frags => s.epib_FreeFrags logged keep frags

end AllocationPool

def holders (held : List fragDescription) (k : ℕ) : ℕ := held.countP (·.holds k)

/-- The fragments that were free at first are free or belong to one anode, all others to none. The counts of the handle, which
are those of all pages, have changed by as much as what is free in this one. -/
structure AllocationPool.Sound (first s : AllocationPool) : Prop where
  formatted : s.h.Formatted
  frags : s.page.fragmentsPerBlock = s.h.fragmentsPerBlock
  header : SameHeader first.page s.page
  geometry : SameGeometry first.h s.h
  valid : s.h.blocksFreeValid = true
  blocksFree : s.h.blocksFree - pageBlocks s.page s.h = first.h.blocksFree - pageBlocks first.page first.h
  fragsFree : s.h.fragsFree - pageFrags s.page s.h = first.h.fragsFree - pageFrags first.page first.h
  inBlock : ∀ frags ∈ s.held, 0 < frags.length ∧ ∃ b < s.h.blocksPerPage, b * s.h.fragmentsPerBlock ≤ frags.first ∧
    frags.first + frags.length ≤ b * s.h.fragmentsPerBlock + s.h.fragmentsPerBlock
  taken : ∀ k, holders s.held k = if fragFree first.page first.h k ∧ ¬fragFree s.page s.h k then 1 else 0
  kept : ∀ k, fragFree s.page s.h k → fragFree first.page first.h k

theorem holders_cons (frags : fragDescription) (held : List fragDescription) (k : ℕ) :
    holders (frags :: held) k = holders held k + if frags.first ≤ k ∧ k < frags.first + frags.length then 1 else 0 := by
  rw [holders, List.countP_cons]
  exact congrArg _ (if_congr decide_eq_true_iff rfl rfl)

theorem holders_erase {held : List fragDescription} {frags : fragDescription} (hmem : frags ∈ held) (k : ℕ) :
    holders held k = holders (held.erase frags) k + if frags.first ≤ k ∧ k < frags.first + frags.length then 1 else 0 := by
  rw [← holders_cons]
  exact (List.perm_cons_erase hmem).countP_eq _

namespace AllocationPool.Sound

variable {first s s' : AllocationPool} {page' : bitmapPage} {h' : allocationData} {b firstFrag nFrags : ℕ} {alloc : Bool}
  {held' : List fragDescription}

theorem mark (hs : Sound first s) (hbalanced : Balanced s.page s.h page' h') (hmarked : Marked s.page page' s.h firstFrag nFrags alloc)
    (hbefore : alloc = true → ∀ k, firstFrag ≤ k → k < firstFrag + nFrags → fragFree s.page s.h k)
    (hheld : ∀ k, (if alloc then holders held' k = holders s.held k + if firstFrag ≤ k ∧ k < firstFrag + nFrags then 1 else 0
      else holders s.held k = holders held' k + if firstFrag ≤ k ∧ k < firstFrag + nFrags then 1 else 0))
    (hinBlock : ∀ frags ∈ held', frags ∈ s.held ∨ (0 < frags.length ∧ ∃ b < s.h.blocksPerPage,
      b * s.h.fragmentsPerBlock ≤ frags.first ∧
        frags.first + frags.length ≤ b * s.h.fragmentsPerBlock + s.h.fragmentsPerBlock)) : Sound first ⟨page', h', held'⟩ := by
  have hgeometry := hbalanced.geometry
  have hblocks := (hbalanced.blocks hs.valid).trans hs.blocksFree
  have hfrags := (hbalanced.frags hs.valid).trans hs.fragsFree
  have hfragments : page'.fragmentsPerBlock = s.page.fragmentsPerBlock := by rw [hbalanced.header]
  have hheader := hs.header.trans hbalanced.header
  clear hbalanced
  rw [SameGeometry] at hgeometry
  generalize h'.blocksFree = blocksFree at *
  generalize h'.fragsFree = fragsFree at *
  subst hgeometry
  have hbits : ∀ k, fragFree page' s.h k ↔ if firstFrag ≤ k ∧ k < firstFrag + nFrags then alloc = false else fragFree s.page s.h k :=
    hmarked.free_iff
  refine ⟨⟨hs.formatted.log_le, hs.formatted.size, hs.formatted.eight, hs.formatted.bytes, hs.formatted.kinds, hs.formatted.search,
    hs.formatted.cross⟩, hfragments.trans hs.frags, hheader, ?_, hs.valid, hblocks, hfrags, fun frags hmem => ?_, fun k => ?_, fun k hfree => ?_⟩
  · rw [SameGeometry, hs.geometry]
  · exact (hinBlock frags hmem).elim (hs.inBlock frags) id
  · have htaken := hs.taken k
    have hkept := hs.kept k
    have hk := hheld k
    change holders held' k = if fragFree first.page first.h k ∧ ¬fragFree page' s.h k then 1 else 0
    by_cases hin : firstFrag ≤ k ∧ k < firstFrag + nFrags
    · rw [if_pos hin] at hk
      have hnow := (hbits k).trans (iff_of_eq (if_pos hin))
      cases alloc with
      | true =>
        have hfree := hbefore rfl k hin.1 hin.2
        rw [if_neg fun hused => hused.2 hfree] at htaken
        rw [if_pos ⟨hkept hfree, fun hfree' => absurd (hnow.mp hfree') (by decide)⟩]
        exact hk.trans (congrArg (· + 1) htaken)
      | false =>
        rw [if_neg (by decide)] at hk
        rw [if_neg fun hused => hused.2 (hnow.mpr rfl)]
        split_ifs at htaken
        all_goals omega
    · rw [if_neg hin] at hk
      have hsame : holders held' k = holders s.held k := by
        cases alloc with
        | true => exact hk
        | false => exact hk.symm
      rw [hsame, htaken]
      exact if_congr (and_congr_right fun _ => not_congr ((hbits k).trans (iff_of_eq (if_neg hin))).symm) rfl rfl
  · have hnow : fragFree page' s.h k := hfree
    by_cases hin : firstFrag ≤ k ∧ k < firstFrag + nFrags
    · rw [hbits, if_pos hin] at hnow
      subst hnow
      have htaken := hs.taken k
      have hk := hheld k
      rw [if_neg (by decide), if_pos hin] at hk
      split_ifs at htaken with hused
      · exact hused.1
      · omega
    · rw [hbits, if_neg hin] at hnow
      exact hs.kept k hnow

variable {logged flag flag' : ℤ}

section group

variable (hh : s.h.Formatted) (hpos : 0 < nFrags) (hb : b < s.h.blocksPerPage) (hfirst : b * s.h.fragmentsPerBlock ≤ firstFrag)
  (hlast : firstFrag + nFrags ≤ b * s.h.fragmentsPerBlock + s.h.fragmentsPerBlock)

include hh hpos hb hfirst hlast

theorem allocGroup (hfree : Run (fragFree s.page s.h) firstFrag nFrags)
    (hflag : nFrags < s.h.fragmentsPerBlock → flag = if blockFree s.page s.h b then 1 else 0)
    (hmark : MarkFrags s.page s.h logged firstFrag nFrags true flag = some (page', h', flag')) :
    Balanced s.page s.h page' h' ∧ Marked s.page page' s.h firstFrag nFrags true := by
  by_cases hlt : nFrags < s.h.fragmentsPerBlock
  · exact ⟨allocPart_balanced hh hpos hlt hb hfirst hlast hfree (hflag hlt) hmark, (MarkFrags_part hh hpos hlt hmark).1⟩
  · obtain rfl : firstFrag = b * s.h.fragmentsPerBlock := by omega
    obtain rfl : nFrags = 1 * s.h.fragmentsPerBlock := by omega
    refine MarkFrags_blocks hh Nat.one_pos (fun b' hle hlt' => ?_) hmark
    obtain rfl : b' = b := by omega
    exact hfree.part le_rfl (by omega)

theorem freeGroup (hused : ∀ k, firstFrag ≤ k → k < firstFrag + nFrags → ¬fragFree s.page s.h k)
    (hflag : flag = -1 ∨ (flag = 0 ∨ flag = -2) ∧
      ∃ k, b * s.h.fragmentsPerBlock ≤ k ∧ k < b * s.h.fragmentsPerBlock + s.h.fragmentsPerBlock ∧
        ¬(firstFrag ≤ k ∧ k < firstFrag + nFrags) ∧ ¬fragFree s.page s.h k)
    (hmark : MarkFrags s.page s.h logged firstFrag nFrags false flag = some (page', h', flag')) :
    Balanced s.page s.h page' h' ∧ Marked s.page page' s.h firstFrag nFrags false := by
  by_cases hlt : nFrags < s.h.fragmentsPerBlock
  · exact ⟨freePart_balanced hh hpos hlt hb hfirst hlast hused hflag hmark, (MarkFrags_part hh hpos hlt hmark).1⟩
  · obtain rfl : firstFrag = b * s.h.fragmentsPerBlock := by omega
    obtain rfl : nFrags = 1 * s.h.fragmentsPerBlock := by omega
    refine MarkFrags_blocks hh Nat.one_pos (fun b' hle hlt' j hj => ?_) hmark
    obtain rfl : b' = b := by omega
    exact hused _ (by omega) (by omega)

end group

theorem MarkBlock_eq (hs : Sound first s) (hmark : MarkBlock s.page s.h (b + s.page.baseOffset) alloc = some (page', h')) :
    ∃ flag', MarkFrags s.page s.h (-1) (b * s.h.fragmentsPerBlock) s.h.fragmentsPerBlock alloc (-1) = some (page', h', flag') := by
  rw [MarkBlock, Option.ite_none_left_eq_some, Nat.add_sub_cancel, hs.frags] at hmark
  obtain ⟨⟨page₁, h₁, flag'⟩, hfrags, heq⟩ := Option.map_eq_some_iff.mp hmark.2
  obtain ⟨rfl, rfl⟩ := Prod.mk.inj heq
  exact ⟨flag', hfrags⟩

theorem not_free (hs : Sound first s) {frags : fragDescription} (hmem : frags ∈ s.held) {k : ℕ} (hle : frags.first ≤ k)
    (hlt : k < frags.first + frags.length) : ¬fragFree s.page s.h k := by
  intro hfree
  have htaken := hs.taken k
  rw [if_neg fun hused => hused.2 hfree, holders_erase hmem, if_pos ⟨hle, hlt⟩] at htaken
  omega

theorem epib_Allocate (hs : Sound first s) {start : ℕ} (hstep : s.epib_Allocate start = some s') : Sound first s' := by
  obtain ⟨block, hfind, hstep⟩ := Option.bind_eq_some_iff.mp hstep
  by_cases hon : start < s.h.blocksPerPage
  · have hhint : ∀ place ∈ some (⟨start⟩ : allocationHint), place.start < s.h.blocksPerPage := by simpa using hon
    obtain ⟨block', hfind', hfound⟩ := FindBlock_found hs.formatted hs.frags hhint
    obtain rfl := Option.some.inj (hfind.symm.trans hfind')
    by_cases hempty : block = EPIX_ANODE_BLOCKEMPTY
    · rw [if_pos hempty] at hstep
      obtain rfl := Option.some.inj hstep
      exact hs
    · rw [if_neg hempty] at hstep
      obtain ⟨⟨page', h'⟩, hmark, hstep⟩ := Option.bind_eq_some_iff.mp hstep
      obtain rfl := Option.some.inj hstep
      obtain ⟨b, hb⟩ := hfound.resolve_left fun hnone => hempty hnone.1
      have haddress : block.toNat = b + s.page.baseOffset := by
        rw [hb.address]
        omega
      rw [haddress] at hmark
      have hwhole := hb.free
      obtain ⟨flag', hmark⟩ := hs.MarkBlock_eq hmark
      obtain ⟨hbalanced, hmarked⟩ := allocGroup hs.formatted hs.formatted.pos hb.within le_rfl le_rfl hwhole
        (fun hlt => absurd hlt (lt_irrefl _)) hmark
      refine hs.mark hbalanced hmarked (fun _ k hle hlt => hwhole.place hle hlt) (fun k => ?_) fun frags hmem => ?_
      · rw [if_pos rfl, holders_cons, haddress, Nat.add_sub_cancel, hs.frags]
      · rcases List.mem_cons.mp hmem with rfl | hmem
        · refine .inr ⟨hs.frags ▸ hs.formatted.pos, b, hb.within, ?_⟩
          rw [haddress, Nat.add_sub_cancel, hs.frags]
          exact ⟨le_rfl, le_rfl⟩
        · exact .inl hmem
  · rw [FindBlock, if_pos ⟨rfl, hon⟩] at hfind
    exact absurd hfind (by simp)

theorem epib_Free (hs : Sound first s) {block : fragDescription} (hstep : s.epib_Free block = some s') : Sound first s' := by
  obtain ⟨⟨hmem, hlength⟩, hstep⟩ := Option.ite_none_right_eq_some.mp hstep
  obtain ⟨⟨page', h'⟩, hmark, hstep⟩ := Option.bind_eq_some_iff.mp hstep
  obtain rfl := Option.some.inj hstep
  obtain ⟨hpos, b, hb, hfirst, hlast⟩ := hs.inBlock block hmem
  have hplace : block.first = b * s.h.fragmentsPerBlock := by omega
  rw [hplace, Nat.mul_div_cancel _ hs.formatted.pos] at hmark
  obtain ⟨flag', hmark⟩ := hs.MarkBlock_eq hmark
  obtain ⟨hbalanced, hmarked⟩ := freeGroup hs.formatted hs.formatted.pos hb le_rfl le_rfl (fun k hle hlt =>
    hs.not_free hmem (by omega) (by omega)) (.inl rfl) hmark
  refine hs.mark hbalanced hmarked (fun halloc => absurd halloc (by decide)) (fun k => ?_) fun frags hfrags =>
    .inl (List.mem_of_mem_erase hfrags)
  rw [if_neg (by decide), holders_erase hmem, hplace, hlength]

theorem epib_AllocateFrags (hs : Sound first s) {logged : Bool} {start : ℕ}
    (hstep : s.epib_AllocateFrags logged nFrags start = some s') : Sound first s' := by
  obtain ⟨⟨hpos, hle⟩, hstep⟩ := Option.ite_none_right_eq_some.mp hstep
  obtain ⟨⟨firstFrag, wholeBlockFree⟩, hfind, hstep⟩ := Option.bind_eq_some_iff.mp hstep
  obtain ⟨result, hresult, hfound⟩ := FindFrags_found hs.formatted hs.frags logged hpos hle (some ⟨start⟩)
  obtain rfl := Option.some.inj (hresult.symm.trans hfind)
  dsimp only at hstep
  obtain ⟨hnone, -⟩ | ⟨b, place, hfound⟩ := hfound
  · rw [if_pos (congrArg Prod.fst hnone)] at hstep
    obtain rfl := Option.some.inj hstep
    exact hs
  · obtain rfl : firstFrag = place := hfound.frag
    rw [if_neg (by simp [NO_FRAG])] at hstep
    obtain ⟨⟨page', h', flag'⟩, hmark, hstep⟩ := Option.bind_eq_some_iff.mp hstep
    obtain rfl := Option.some.inj hstep
    have hends := hfound.group.ends
    rw [Nat.add_mul, Nat.one_mul] at hends
    have hfree : Run (fragFree s.page s.h) place nFrags := hfound.group.run.imp fun k _ _ hopen => hopen.2
    rw [Int.toNat_natCast] at hmark ⊢
    obtain ⟨hbalanced, hmarked⟩ :=
      allocGroup hs.formatted hpos hfound.within hfound.group.begins hends hfree (fun _ => hfound.whole) hmark
    refine hs.mark hbalanced hmarked (fun _ k => hfree.place) (fun k => ?_) fun frags hmem => ?_
    · rw [if_pos rfl, holders_cons]
    · rcases List.mem_cons.mp hmem with rfl | hmem
      · exact .inr ⟨hpos, b, hfound.within, hfound.group.begins, hends⟩
      · exact .inl hmem

theorem extendFrags (hs : Sound first s) {logged : Bool} {frags : fragDescription} {tryFor : ℕ}
    (hstep : s.extendFrags logged frags tryFor = some s') : Sound first s' := by
  obtain ⟨⟨hmem, hpos, hfits⟩, hstep⟩ := Option.ite_none_right_eq_some.mp hstep
  obtain ⟨⟨firstFrag, wholeBlockFree⟩, hfind, hstep⟩ := Option.bind_eq_some_iff.mp hstep
  dsimp only at hstep
  by_cases hnext : firstFrag = (frags.first + frags.length : ℕ)
  · rw [if_pos hnext] at hstep
    obtain ⟨⟨page', h', flag'⟩, hmark, hstep⟩ := Option.bind_eq_some_iff.mp hstep
    obtain rfl := Option.some.inj hstep
    obtain ⟨result, hresult, hfound⟩ := FindFrags_found hs.formatted hs.frags logged hpos (by omega)
      (some ⟨frags.first + frags.length⟩)
    obtain rfl := Option.some.inj (hresult.symm.trans hfind)
    obtain ⟨hnone, -⟩ | ⟨b, place, hfound⟩ := hfound
    · have hbad := hnext.symm.trans (congrArg Prod.fst hnone)
      simp [NO_FRAG] at hbad
      omega
    · have hplace : place = frags.first + frags.length := by
        have hfrag := hfound.frag
        dsimp only at hfrag
        omega
      subst hplace
      have hends := hfound.group.ends
      rw [Nat.add_mul, Nat.one_mul] at hends
      have hfree : Run (fragFree s.page s.h) (frags.first + frags.length) tryFor :=
        hfound.group.run.imp fun k _ _ hopen => hopen.2
      rw [hnext, Int.toNat_natCast] at hmark
      obtain ⟨hbalanced, hmarked⟩ :=
        allocGroup hs.formatted hpos hfound.within hfound.group.begins hends hfree (fun _ => hfound.whole) hmark
      refine hs.mark hbalanced hmarked (fun _ k => hfree.place) (fun k => ?_) fun frags' hmem' => ?_
      · rw [if_pos rfl, holders_cons, holders_erase hmem]
        dsimp only
        split_ifs <;> omega
      · rcases List.mem_cons.mp hmem' with rfl | hmem'
        · obtain ⟨-, b', hb', hfirst, hlast⟩ := hs.inBlock frags hmem
          have hblock : frags.first / s.h.fragmentsPerBlock = b' :=
            Nat.div_eq_of_lt_le hfirst (by rw [Nat.succ_mul]; have := hs.inBlock frags hmem; omega)
          have hmod := Nat.div_add_mod frags.first s.h.fragmentsPerBlock
          rw [hblock, Nat.mul_comm] at hmod
          exact .inr ⟨by dsimp only; omega, b', hb', hfirst, by dsimp only; omega⟩
        · exact .inl (List.mem_of_mem_erase hmem')
  · rw [if_neg hnext] at hstep
    obtain rfl := Option.some.inj hstep
    exact hs

theorem epib_FreeFrags (hs : Sound first s) {logged : Bool} {keep : ℕ} {frags : fragDescription}
    (hstep : s.epib_FreeFrags logged keep frags = some s') : Sound first s' := by
  obtain ⟨⟨hmem, hkeep⟩, hstep⟩ := Option.ite_none_right_eq_some.mp hstep
  obtain ⟨⟨page', h', flag'⟩, hmark, hstep⟩ := Option.bind_eq_some_iff.mp hstep
  obtain rfl := Option.some.inj hstep
  obtain ⟨hpos, b, hb, hfirst, hlast⟩ := hs.inBlock frags hmem
  have hempty : s.knownEmpty keep frags = -1 ∨
      keep ≠ 0 ∧ (s.knownEmpty keep frags = 0 ∨ s.knownEmpty keep frags = -2) := by
    rw [knownEmpty]
    split_ifs with hkept <;> simp [hkept]
  obtain ⟨hbalanced, hmarked⟩ := freeGroup hs.formatted (by omega) hb (by omega) (by omega)
    (fun k hle hlt => hs.not_free hmem (by omega) (by omega)) (hempty.imp_right fun ⟨hkept, hflag⟩ =>
      ⟨hflag, frags.first, hfirst, by omega, by omega, hs.not_free hmem le_rfl (by omega)⟩) hmark
  refine hs.mark hbalanced hmarked (fun halloc => absurd halloc (by decide)) (fun k => ?_) fun frags' hmem' => ?_
  · rw [if_neg (by decide), holders_erase hmem]
    by_cases hzero : keep = 0
    · rw [if_pos hzero, hzero, Nat.add_zero, Nat.sub_zero]
    · rw [if_neg hzero, holders_cons]
      dsimp only
      split_ifs <;> omega
  · split_ifs at hmem' with hzero
    · exact .inl (List.mem_of_mem_erase hmem')
    · rcases List.mem_cons.mp hmem' with rfl | hmem'
      · exact .inr ⟨Nat.pos_of_ne_zero hzero, b, hb, hfirst, by dsimp only; omega⟩
      · exact .inl (List.mem_of_mem_erase hmem')

theorem step (hs : Sound first s) {call : PoolCall} (hstep : s.step call = some s') : Sound first s' := by
  cases call with
  | epib_Allocate start => exact hs.epib_Allocate hstep
  | epib_Free block => exact hs.epib_Free hstep
  | epib_AllocateFrags logged nFrags start => exact hs.epib_AllocateFrags hstep
  | extendFrags logged frags tryFor => exact hs.extendFrags hstep
  | epib_FreeFrags logged keep frags => exact hs.epib_FreeFrags hstep

end AllocationPool.Sound

/-- A pool whose handle was made for its pages and has its counts, with nothing given out since. -/
structure AllocationPool.Fresh (first : AllocationPool) : Prop where
  formatted : first.h.Formatted
  frags : first.page.fragmentsPerBlock = first.h.fragmentsPerBlock
  valid : first.h.blocksFreeValid = true
  held : first.held = []

theorem AllocationPool.Fresh.sound {first : AllocationPool} (hfirst : first.Fresh) : first.Sound first where
  formatted := hfirst.formatted
  frags := hfirst.frags
  header := rfl
  geometry := rfl
  valid := hfirst.valid
  blocksFree := rfl
  fragsFree := rfl
  inBlock frags hmem := absurd hmem (by simp [hfirst.held])
  taken k := by rw [if_neg fun hused => hused.2 hused.1, hfirst.held, holders, List.countP_nil]
  kept _ := id

def allocationPool (first : AllocationPool) : System AllocationPool PoolCall := ⟨(· = first), AllocationPool.step⟩

variable {first s : AllocationPool}

theorem pool_sound (hfirst : first.Fresh) (hs : (allocationPool first).Reachable s) : first.Sound s := by
  refine hs.invariant (fun s' hinit => ?_) fun _ _ _ hsound => hsound.step
  obtain rfl : s' = first := hinit
  exact hfirst.sound

/-- Whatever is allocated and freed, no fragment has two anodes. One that was free at first is free again when no anode has it,
and one that was not is never given out. -/
theorem storage_held_once (first : AllocationPool) (hfirst : first.Fresh) (s : AllocationPool)
    (hs : (allocationPool first).Reachable s) (k : ℕ) :
    holders s.held k ≤ 1 ∧
    (fragFree first.page first.h k → (fragFree s.page s.h k ↔ holders s.held k = 0)) ∧
    (¬fragFree first.page first.h k → ¬fragFree s.page s.h k ∧ holders s.held k = 0) := by
  have hsound := pool_sound hfirst hs
  have htaken := hsound.taken k
  have hkept := hsound.kept k
  by_cases hfree : fragFree first.page first.h k
  · by_cases hnow : fragFree s.page s.h k
    · rw [if_neg fun hused => hused.2 hnow] at htaken
      simp [htaken, hfree, hnow]
    · rw [if_pos ⟨hfree, hnow⟩] at htaken
      simp [htaken, hfree, hnow]
  · rw [if_neg fun hused => hfree hused.1] at htaken
    have hnow : ¬fragFree s.page s.h k := fun hnow => hfree (hkept hnow)
    simp [htaken, hfree, hnow]

def usedPool : AllocationPool :=
  ⟨smallPage, { newHandle smallDevice smallPage with blocksFree := 14, fragsFree := 7, blocksFreeValid := true }, []⟩

theorem usedPool_fresh : usedPool.Fresh := by
  have hinit : InitHandle smallDevice (some ⟨0, 0, 8192⟩) smallPage = some (newHandle smallDevice smallPage) := rfl
  exact ⟨(InitHandle_formatted hinit).of_geometry rfl, rfl, rfl, rfl⟩

def poolCalls : List PoolCall :=
  [.epib_AllocateFrags false 3 0, .epib_Allocate 0, .extendFrags false ⟨9, 3⟩ 2, .epib_FreeFrags false 1 ⟨9, 5⟩, .epib_Free ⟨16, 8⟩]

theorem storage_held_once_calls : ∃ s, (allocationPool usedPool).Reachable s ∧ s.held = [⟨9, 1⟩] ∧
    (holders s.held 9 ≤ 1 ∧
    (fragFree usedPool.page usedPool.h 9 → (fragFree s.page s.h 9 ↔ holders s.held 9 = 0)) ∧
    (¬fragFree usedPool.page usedPool.h 9 → ¬fragFree s.page s.h 9 ∧ holders s.held 9 = 0)) := by
  obtain ⟨s, hs, hheld⟩ := (allocationPool usedPool).exists_reachable_of_exec poolCalls
    (P := fun s => decide (s.held = [⟨9, 1⟩])) rfl (by rfl)
  exact ⟨s, hs, of_decide_eq_true hheld, storage_held_once usedPool usedPool_fresh s hs 9⟩

def AllocationPool.freeBlocks (s : AllocationPool) : Finset ℕ :=
  (Finset.range s.h.blocksPerPage).filter (blockFree s.page s.h)

/-- The free fragments of the blocks of the page that are used in part. -/
def AllocationPool.freeFrags (s : AllocationPool) : Finset ℕ :=
  (Finset.range (s.h.blocksPerPage * s.h.fragmentsPerBlock)).filter fun k =>
    fragFree s.page s.h k ∧ ¬blockFree s.page s.h (k / s.h.fragmentsPerBlock)

/-- `blocksFree` and `fragsFree` follow the bitmap through all calls, whatever is left unallocated, split or joined by them. -/
theorem free_space_counted (first : AllocationPool) (hfirst : first.Fresh) (s : AllocationPool)
    (hs : (allocationPool first).Reachable s) :
    s.h.blocksFree - first.h.blocksFree = s.freeBlocks.card - first.freeBlocks.card ∧
    s.h.fragsFree - first.h.fragsFree = s.freeFrags.card - first.freeFrags.card := by
  have hsound := pool_sound hfirst hs
  have hblocks (t : AllocationPool) : pageBlocks t.page t.h = t.freeBlocks.card := wholeBlocks_eq_card ..
  have hfrags (t : AllocationPool) : pageFrags t.page t.h = t.freeFrags.card := partPlaces_eq_card ..
  rw [← hblocks, ← hblocks, ← hfrags, ← hfrags]
  have hblocksFree := hsound.blocksFree
  have hfragsFree := hsound.fragsFree
  omega

theorem free_space_counted_calls : ∃ s, (allocationPool usedPool).Reachable s ∧ s.h.fragsFree = 6 ∧
    (s.h.blocksFree - usedPool.h.blocksFree = s.freeBlocks.card - usedPool.freeBlocks.card ∧
    s.h.fragsFree - usedPool.h.fragsFree = s.freeFrags.card - usedPool.freeFrags.card) := by
  obtain ⟨s, hs, hcount⟩ := (allocationPool usedPool).exists_reachable_of_exec poolCalls
    (P := fun s => decide (s.h.fragsFree = 6)) rfl (by rfl)
  exact ⟨s, hs, of_decide_eq_true hcount, free_space_counted usedPool usedPool_fresh s hs⟩

end dce.episode.bitmap
