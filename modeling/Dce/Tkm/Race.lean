import Mathlib.Algebra.Ring.Nat
import Mathlib.Data.List.Nodup
import Mathlib.Data.List.Perm.Basic
import Dce.Lib.System

open lib

namespace dce.tkm

structure afsFid where
  Cell : UInt64
  Volume : UInt64
  Vnode : UInt32
  Unique : UInt32
  deriving DecidableEq, Repr

/-- Whether `FidCmp` is 0. -/
def FidCmp (a b : afsFid) : Bool :=
  a.Unique == b.Unique && a.Vnode == b.Vnode && a.Volume == b.Volume && a.Cell == b.Cell

@[simp] theorem FidCmp_iff {a b : afsFid} : FidCmp a b = true ↔ a = b := by
  cases a
  cases b
  simp only [FidCmp, Bool.and_eq_true, beq_iff_eq, afsFid.mk.injEq]
  tauto

/-- Token rights, an `afs_hyper_t`. -/
abbrev Rights := BitVec 64

variable {w : ℕ}

/-- `tkm_raceFile_t`. Its count of races is an integer of `w` bits. -/
structure RaceFile (w : ℕ) where
  fid : afsFid
  activeCount : ℕ
  raceCount : BitVec w
  racingRights : Rights

def atEntry (fidp : afsFid) (f : RaceFile w → Option (RaceFile w)) : List (RaceFile w) → List (RaceFile w)
  | [] => []
  | fp :: rest => if FidCmp fp.fid fidp then (f fp).toList ++ rest else fp :: atEntry fidp f rest

def findEntry (fidp : afsFid) (raceListp : List (RaceFile w)) : Option (RaceFile w) :=
  raceListp.find? fun fp => FidCmp fp.fid fidp

/-- `tkm_GetRaceEntry`: the list and the entry. -/
def tkm_GetRaceEntry (arp : List (RaceFile w)) (afidp : afsFid) : List (RaceFile w) × RaceFile w :=
  match findEntry afidp arp with
  | some fp =>
    let fp := { fp with activeCount := fp.activeCount + 1 }
    (atEntry afidp (fun _ => some fp) arp, fp)
  | none =>
    let fp := ⟨afidp, 1, 0, 0⟩
    (fp :: arp, fp)

/-- `tkm_StartRacingCall`: the list and the count that the call keeps. -/
def tkm_StartRacingCall (arp : List (RaceFile w)) (fidp : afsFid) : List (RaceFile w) × BitVec w :=
  ((tkm_GetRaceEntry arp fidp).1, (tkm_GetRaceEntry arp fidp).2.raceCount)

/-- `tkm_EndRacingCall`, which asserts that there is an entry: the list and the type
of the token. -/
def tkm_EndRacingCall (arp : List (RaceFile w)) (afidp : afsFid) (count : BitVec w) (type : Rights) :
    Option (List (RaceFile w) × Rights) :=
  (findEntry afidp arp).map fun fp =>
    let activeCount := fp.activeCount - 1
    (atEntry afidp (fun fp => if activeCount = 0 then none else some { fp with activeCount := activeCount }) arp,
      if count ≠ fp.raceCount then type &&& ~~~fp.racingRights else type)

def tkm_RegisterTokenRace (arp : List (RaceFile w)) (afidp : afsFid) (rights : Rights) : List (RaceFile w) :=
  atEntry afidp (fun fp => some
    { fp with racingRights := fp.racingRights ||| rights, raceCount := fp.raceCount + 1 }) arp

/-- A call between its start and its end, and what was registered for its file since
its start. -/
structure RacingCall (w : ℕ) where
  fid : afsFid
  count : BitVec w
  registered : List Rights

structure RaceState (w : ℕ) where
  raceListp : List (RaceFile w)
  calls : List (RacingCall w)

inductive RaceAction where
  | start (fidp : afsFid)
  /-- The end of one of the calls, with the type of its token. -/
  | end (j : ℕ) (type : Rights)
  | register (afidp : afsFid) (rights : Rights)

/-- The calls of any number of threads; each holds the lock while it works on the list. -/
def tokenRaces (w : ℕ) : System (RaceState w) RaceAction where
  init s := s = ⟨[], []⟩
  step s
    | .start fidp =>
      some ⟨(tkm_StartRacingCall s.raceListp fidp).1, ⟨fidp, (tkm_StartRacingCall s.raceListp fidp).2, []⟩ :: s.calls⟩
    | .end j type =>
      s.calls[j]?.bind fun call =>
        (tkm_EndRacingCall s.raceListp call.fid call.count type).map fun ended => ⟨ended.1, s.calls.eraseIdx j⟩
    | .register afidp rights =>
      some ⟨tkm_RegisterTokenRace s.raceListp afidp rights, s.calls.map fun call =>
        if call.fid = afidp then { call with registered := rights :: call.registered } else call⟩

/-! The list of entries -/

def OneEach (raceListp : List (RaceFile w)) : Prop := (raceListp.map RaceFile.fid).Nodup

variable {arp : List (RaceFile w)} {fidp : afsFid} {fp : RaceFile w}

theorem findEntry_fid (hfind : findEntry fidp arp = some fp) :
    fp.fid = fidp := by
  simpa using List.find?_some hfind

theorem findEntry_atEntry {f : RaceFile w → Option (RaceFile w)}
    (hone : OneEach arp) (hfid : ∀ fp fp', fp.fid = fidp → f fp = some fp' → fp'.fid = fidp) (fidp' : afsFid) :
    findEntry fidp' (atEntry fidp f arp) = if fidp' = fidp then (findEntry fidp arp).bind f else findEntry fidp' arp := by
  induction arp with
  | nil => simp [atEntry, findEntry]
  | cons fp rest ih =>
    obtain ⟨hfresh, hrest⟩ := List.nodup_cons.mp hone
    have ih := ih hrest
    rw [atEntry]
    by_cases heq : fp.fid = fidp
    · have hgone : findEntry fidp rest = none := by
        refine List.find?_eq_none.mpr fun fp' hfp' h => hfresh ?_
        exact List.mem_map.mpr ⟨fp', hfp', (FidCmp_iff.mp h).trans heq.symm⟩
      have hhere : findEntry fidp (fp :: rest) = some fp := by simp [findEntry, heq]
      rw [if_pos (FidCmp_iff.mpr heq), hhere, Option.bind_some]
      by_cases hself : fidp' = fidp
      · subst hself
        rw [if_pos rfl]
        cases hf : f fp with
        | none => simpa using hgone
        | some fp' => simp [findEntry, hfid fp fp' heq hf]
      · rw [if_neg hself]
        have hskip : ∀ fp' : RaceFile w, fp'.fid = fidp → findEntry fidp' (fp' :: rest) = findEntry fidp' rest :=
          fun fp' hfp' => by simp [findEntry, hfp', Ne.symm hself]
        cases hf : f fp with
        | none => exact (hskip fp heq).symm
        | some fp' => exact (hskip fp' (hfid fp fp' heq hf)).trans (hskip fp heq).symm
    · rw [if_neg fun h => heq (FidCmp_iff.mp h)]
      by_cases hhere : fp.fid = fidp'
      · subst hhere
        simp [findEntry, heq]
      · have hskip : ∀ rest : List (RaceFile w), findEntry fidp' (fp :: rest) = findEntry fidp' rest := fun rest => by
          simp [findEntry, hhere]
        have hother : findEntry fidp (fp :: rest) = findEntry fidp rest := by simp [findEntry, heq]
        rw [hskip, hskip, hother]
        exact ih

theorem OneEach.atEntry {f : RaceFile w → Option (RaceFile w)}
    (hone : OneEach arp) (hfid : ∀ fp fp', fp.fid = fidp → f fp = some fp' → fp'.fid = fidp) :
    OneEach (atEntry fidp f arp) := by
  have hsub : ((tkm.atEntry fidp f arp).map RaceFile.fid).Sublist (arp.map RaceFile.fid) := by
    clear hone
    induction arp with
    | nil => exact List.Sublist.refl _
    | cons fp rest ih =>
      rw [tkm.atEntry]
      split
      · next heq =>
        have heq := FidCmp_iff.mp heq
        cases hf : f fp with
        | none => exact List.sublist_cons_self _ _
        | some fp' =>
          simp only [Option.toList_some, List.cons_append, List.nil_append, List.map_cons, hfid fp fp' heq hf, heq]
          exact List.Sublist.refl _
      · exact ih.cons_cons _
  exact List.Nodup.sublist hsub hone

theorem findEntry_mem (hfind : findEntry fidp arp = some fp) :
    fp ∈ arp := List.mem_of_find?_eq_some hfind

theorem OneEach.findEntry (hone : OneEach arp) (hfp : fp ∈ arp) :
    findEntry fp.fid arp = some fp := by
  induction arp with
  | nil => simp at hfp
  | cons fp' rest ih =>
    obtain ⟨hfresh, hrest⟩ := List.nodup_cons.mp hone
    rcases List.mem_cons.mp hfp with rfl | hfp
    · simp [tkm.findEntry]
    · have hne : fp'.fid ≠ fp.fid := fun heq => hfresh (List.mem_map.mpr ⟨fp, hfp, heq.symm⟩)
      simpa [tkm.findEntry, hne] using ih hrest hfp

/-! Rights. That `r` is among the rights `s` is written `r &&& ~~~s = 0`. -/

theorem Rights.within_self (r s : Rights) : r &&& ~~~(s ||| r) = 0 := by
  rw [BitVec.not_or, ← BitVec.and_assoc, BitVec.and_comm r, BitVec.and_assoc, BitVec.and_not_self]
  exact BitVec.and_zero

theorem Rights.within_or {r s : Rights} (t : Rights) (h : r &&& ~~~s = 0) : r &&& ~~~(s ||| t) = 0 := by
  rw [BitVec.not_or, ← BitVec.and_assoc, h]
  exact BitVec.zero_and

theorem Rights.removed {r s : Rights} (type : Rights) (h : r &&& ~~~s = 0) : type &&& ~~~s &&& r = 0 := by
  rw [BitVec.and_assoc, BitVec.and_comm (~~~s), h]
  exact BitVec.and_zero

/-! Every run -/

def RaceState.outstanding (s : RaceState w) (fid : afsFid) : ℕ := s.calls.countP fun call => call.fid = fid

/-- An entry has what was registered since a call on its file started. -/
structure RaceFile.Knows (fp : RaceFile w) (call : RacingCall w) : Prop where
  raceCount : fp.raceCount = call.count + BitVec.ofNat w call.registered.length
  racingRights : ∀ r ∈ call.registered, r &&& ~~~fp.racingRights = 0

/-- The entries fit the calls. -/
structure RaceState.Sound (s : RaceState w) : Prop where
  one : OneEach s.raceListp
  active : ∀ fid, (findEntry fid s.raceListp).elim 0 RaceFile.activeCount = s.outstanding fid
  positive : ∀ fid fp, findEntry fid s.raceListp = some fp → 0 < fp.activeCount
  knows : ∀ call ∈ s.calls, ∀ fp, findEntry call.fid s.raceListp = some fp → fp.Knows call

namespace RaceState.Sound

variable {s s' : RaceState w}

theorem entry (hs : s.Sound) {call : RacingCall w} (hcall : call ∈ s.calls) :
    ∃ fp, findEntry call.fid s.raceListp = some fp ∧ fp.activeCount = s.outstanding call.fid := by
  have hactive := hs.active call.fid
  cases hfind : findEntry call.fid s.raceListp with
  | some fp => exact ⟨fp, rfl, by simpa [hfind] using hactive⟩
  | none =>
    have hpositive : 0 < s.outstanding call.fid := List.countP_pos_iff.mpr ⟨call, hcall, by simp⟩
    simp only [hfind, Option.elim_none] at hactive
    omega

theorem start (hs : s.Sound) (fidp : afsFid) :
    (⟨(tkm_StartRacingCall s.raceListp fidp).1, ⟨fidp, (tkm_StartRacingCall s.raceListp fidp).2, []⟩ :: s.calls⟩ :
      RaceState w).Sound := by
  have hcount : ∀ fid (call : RacingCall w), call.fid = fidp → (⟨s.raceListp, call :: s.calls⟩ : RaceState w).outstanding fid =
      s.outstanding fid + if fid = fidp then 1 else 0 := fun fid call hcall => by
    simp [outstanding, List.countP_cons, hcall, eq_comm]
  rw [tkm_StartRacingCall, tkm_GetRaceEntry]
  cases hfind : findEntry fidp s.raceListp with
  | none =>
    have hfresh : fidp ∉ s.raceListp.map RaceFile.fid := fun hmem => by
      obtain ⟨fp, hfp, rfl⟩ := List.mem_map.mp hmem
      simp [hs.one.findEntry hfp] at hfind
    have hnone : s.outstanding fidp = 0 := by simpa [hfind] using (hs.active fidp).symm
    have hlook : ∀ fid, findEntry fid (⟨fidp, 1, 0, 0⟩ :: s.raceListp : List (RaceFile w)) =
        if fid = fidp then some ⟨fidp, 1, 0, 0⟩ else findEntry fid s.raceListp := fun fid => by
      by_cases hfid : fid = fidp
      · simp [findEntry, hfid]
      · simp [findEntry, hfid, Ne.symm hfid]
    refine ⟨List.nodup_cons.mpr ⟨hfresh, hs.one⟩, fun fid => ?_, fun fid fp hfp => ?_, fun call hcall fp hfp => ?_⟩
    · rw [hlook]
      refine Eq.trans ?_ (hcount fid _ rfl).symm
      by_cases hfid : fid = fidp
      · simp [hfid, hnone]
      · simpa [hfid] using hs.active fid
    · rw [hlook] at hfp
      split at hfp
      · obtain rfl := Option.some.inj hfp
        exact Nat.one_pos
      · exact hs.positive fid fp hfp
    · rw [hlook] at hfp
      rcases List.mem_cons.mp hcall with rfl | hcall
      · rw [if_pos rfl] at hfp
        obtain rfl := Option.some.inj hfp
        exact ⟨by simp, by simp⟩
      · by_cases hfid : call.fid = fidp
        · have hpositive : 0 < s.outstanding fidp := List.countP_pos_iff.mpr ⟨call, hcall, by simp [hfid]⟩
          omega
        · rw [if_neg hfid] at hfp
          exact hs.knows call hcall fp hfp
  | some fp =>
    have hfid := findEntry_fid hfind
    have hkeep : ∀ fp₁ fp₂ : RaceFile w, fp₁.fid = fidp → some { fp with activeCount := fp.activeCount + 1 } = some fp₂ →
        fp₂.fid = fidp := fun _ fp₂ _ heq => Option.some.inj heq ▸ hfid
    have hlook := findEntry_atEntry hs.one hkeep
    dsimp only
    refine ⟨hs.one.atEntry hkeep, fun fid => ?_, fun fid fp' hfp => ?_, fun call hcall fp' hfp => ?_⟩
    · rw [hlook]
      refine Eq.trans ?_ (hcount fid _ rfl).symm
      by_cases hself : fid = fidp
      · have hactive := hs.active fidp
        rw [hfind] at hactive
        simpa [hself, hfind] using hactive
      · simpa [hself] using hs.active fid
    · rw [hlook] at hfp
      split at hfp
      · rw [hfind] at hfp
        obtain rfl := Option.some.inj hfp
        exact Nat.succ_pos _
      · exact hs.positive fid fp' hfp
    · rw [hlook] at hfp
      split at hfp
      · next hself =>
        rw [hfind] at hfp
        obtain rfl := Option.some.inj hfp
        rcases List.mem_cons.mp hcall with rfl | hcall
        · exact ⟨by simp, by simp⟩
        · obtain ⟨hcounts, hrights⟩ := hs.knows call hcall fp (hself ▸ hfind)
          exact ⟨hcounts, hrights⟩
      · next hself =>
        rcases List.mem_cons.mp hcall with rfl | hcall
        · exact absurd rfl hself
        · exact hs.knows call hcall fp' hfp

theorem «end» (hs : s.Sound) {j : ℕ} {call : RacingCall w} (hj : s.calls[j]? = some call) {type : Rights}
    {ended : List (RaceFile w) × Rights} (hend : tkm_EndRacingCall s.raceListp call.fid call.count type = some ended) :
    (⟨ended.1, s.calls.eraseIdx j⟩ : RaceState w).Sound := by
  obtain ⟨fp, hfind, rfl⟩ := Option.map_eq_some_iff.mp hend
  have hfid := findEntry_fid hfind
  have hperm : s.calls.Perm (call :: s.calls.eraseIdx j) := by
    obtain ⟨hlt, hget⟩ := List.getElem?_eq_some_iff.mp hj
    exact hget ▸ (List.getElem_cons_eraseIdx_perm hlt).symm
  have hcount : ∀ fid, s.outstanding fid =
      (⟨s.raceListp, s.calls.eraseIdx j⟩ : RaceState w).outstanding fid + if call.fid = fid then 1 else 0 := fun fid => by
    rw [outstanding, hperm.countP_eq]
    simp [outstanding, List.countP_cons]
  have hhere : fp.activeCount = s.outstanding call.fid := by
    have hactive := hs.active call.fid
    rwa [hfind] at hactive
  have hkeep : ∀ fp₁ fp₂ : RaceFile w, fp₁.fid = call.fid →
      (if fp.activeCount - 1 = 0 then none else some { fp₁ with activeCount := fp.activeCount - 1 }) = some fp₂ →
        fp₂.fid = call.fid := fun fp₁ fp₂ hfp₁ heq => by
    split at heq
    · simp at heq
    · exact Option.some.inj heq ▸ hfp₁
  have hlook := findEntry_atEntry hs.one hkeep
  refine ⟨hs.one.atEntry hkeep, fun fid => ?_, fun fid fp' hfp => ?_, fun call' hcall fp' hfp => ?_⟩
  · have hfewer := hcount fid
    dsimp only
    rw [hlook]
    by_cases hself : fid = call.fid
    · subst hself
      rw [if_pos rfl] at hfewer
      rw [if_pos rfl, hfind, Option.bind_some]
      split
      · next hlast =>
        rw [Option.elim_none]
        change 0 = (⟨s.raceListp, s.calls.eraseIdx j⟩ : RaceState w).outstanding call.fid
        omega
      · rw [Option.elim_some]
        change fp.activeCount - 1 = (⟨s.raceListp, s.calls.eraseIdx j⟩ : RaceState w).outstanding call.fid
        omega
    · rw [if_neg (Ne.symm hself), Nat.add_zero] at hfewer
      rw [if_neg hself, hs.active fid]
      exact hfewer
  · dsimp only at hfp
    rw [hlook] at hfp
    split at hfp
    · rw [hfind, Option.bind_some] at hfp
      split at hfp
      · simp at hfp
      · obtain rfl := Option.some.inj hfp
        dsimp only
        omega
    · exact hs.positive fid fp' hfp
  · have hold : call' ∈ s.calls := List.mem_of_mem_eraseIdx hcall
    dsimp only at hfp
    rw [hlook] at hfp
    split at hfp
    · next hself =>
      rw [hfind, Option.bind_some] at hfp
      split at hfp
      · simp at hfp
      · obtain rfl := Option.some.inj hfp
        obtain ⟨hcounts, hrights⟩ := hs.knows call' hold fp (hself ▸ hfind)
        exact ⟨hcounts, hrights⟩
    · exact hs.knows call' hold fp' hfp

theorem register (hs : s.Sound) (afidp : afsFid) (rights : Rights) :
    (⟨tkm_RegisterTokenRace s.raceListp afidp rights, s.calls.map fun call =>
      if call.fid = afidp then { call with registered := rights :: call.registered } else call⟩ : RaceState w).Sound := by
  have hkeep : ∀ fp₁ fp₂ : RaceFile w, fp₁.fid = afidp →
      some { fp₁ with racingRights := fp₁.racingRights ||| rights, raceCount := fp₁.raceCount + 1 } = some fp₂ →
        fp₂.fid = afidp := fun fp₁ fp₂ hfp₁ heq => Option.some.inj heq ▸ hfp₁
  have hlook := findEntry_atEntry hs.one hkeep
  have hfids : ∀ call : RacingCall w,
      (if call.fid = afidp then { call with registered := rights :: call.registered } else call).fid = call.fid :=
    fun call => by split <;> rfl
  refine ⟨hs.one.atEntry hkeep, fun fid => ?_, fun fid fp hfp => ?_, fun call hcall fp hfp => ?_⟩
  · refine Eq.trans ?_ ((hs.active fid).trans ?_)
    · dsimp only
      rw [tkm_RegisterTokenRace, hlook]
      split
      · next hself =>
        subst hself
        cases findEntry fid s.raceListp <;> rfl
      · rfl
    · simp only [outstanding, List.countP_map]
      exact List.countP_congr fun call _ => by simp [hfids]
  · dsimp only at hfp
    rw [tkm_RegisterTokenRace, hlook] at hfp
    split at hfp
    · obtain ⟨fp₀, hfind, heq⟩ := Option.bind_eq_some_iff.mp hfp
      obtain rfl := Option.some.inj heq
      exact hs.positive afidp fp₀ hfind
    · exact hs.positive fid fp hfp
  · obtain ⟨call₀, hcall₀, rfl⟩ := List.mem_map.mp hcall
    dsimp only at hfp
    rw [hfids, tkm_RegisterTokenRace, hlook] at hfp
    split at hfp
    · next hself =>
      obtain ⟨fp₀, hfind, heq⟩ := Option.bind_eq_some_iff.mp hfp
      obtain rfl := Option.some.inj heq
      obtain ⟨hcounts, hrights⟩ := hs.knows call₀ hcall₀ fp₀ (hself ▸ hfind)
      rw [if_pos hself]
      refine ⟨?_, fun r hr => ?_⟩
      · dsimp only
        rw [hcounts, List.length_cons, BitVec.ofNat_add, BitVec.add_assoc]
        rfl
      · dsimp only at hr ⊢
        rcases List.mem_cons.mp hr with rfl | hr
        · exact Rights.within_self _ _
        · exact Rights.within_or _ (hrights r hr)
    · next hself =>
      rw [if_neg hself]
      exact hs.knows call₀ hcall₀ fp hfp

theorem step (hs : s.Sound) {i : RaceAction} (hstep : (tokenRaces w).step s i = some s') : s'.Sound := by
  cases i with
  | start fidp =>
    obtain rfl := Option.some.inj hstep
    exact hs.start fidp
  | «end» j type =>
    obtain ⟨call, hj, hstep⟩ := Option.bind_eq_some_iff.mp hstep
    obtain ⟨ended, hend, rfl⟩ := Option.map_eq_some_iff.mp hstep
    exact hs.end hj hend
  | register afidp rights =>
    obtain rfl := Option.some.inj hstep
    exact hs.register afidp rights

end RaceState.Sound

theorem tokenRaces_sound {s : RaceState w} (hreach : (tokenRaces w).Reachable s) : s.Sound :=
  hreach.invariant (fun s hinit => by
    obtain rfl : s = ⟨[], []⟩ := hinit
    exact ⟨List.nodup_nil, fun _ => rfl, nofun, nofun⟩) fun _ _ _ hs hstep => hs.step hstep

/-- What the end of a call does to the type of its token. -/
structure RacingCall.Ends (call : RacingCall w) (type type' : Rights) : Prop where
  /-- A right that was registered in between is removed. -/
  removed : call.registered.length < 2 ^ w → ∀ r ∈ call.registered, type' &&& r = 0
  /-- Without a revoke in between nothing is. -/
  unchanged : call.registered = [] → type' = type

/-- The races that are to be detected. -/
structure RaceState.Detects (s : RaceState w) : Prop where
  /-- The assertion of `tkm_EndRacingCall` does not fail. -/
  ends : ∀ call ∈ s.calls, ∀ type, ∃ ended, tkm_EndRacingCall s.raceListp call.fid call.count type = some ended ∧
    call.Ends type ended.2
  one : OneEach s.raceListp
  active : ∀ fp ∈ s.raceListp, fp.activeCount = s.outstanding fp.fid ∧ 0 < fp.activeCount
  entry : ∀ call ∈ s.calls, ∃ fp ∈ s.raceListp, fp.fid = call.fid

/-- Races are detected after any sequence of starts, ends and revokes. -/
theorem races_detected {s : RaceState w} (hreach : (tokenRaces w).Reachable s) : s.Detects := by
  have hs := tokenRaces_sound hreach
  refine ⟨fun call hcall type => ?_, hs.one, fun fp hfp => ?_, fun call hcall => ?_⟩
  · obtain ⟨fp, hfind, _⟩ := hs.entry hcall
    obtain ⟨hcounts, hrights⟩ := hs.knows call hcall fp hfind
    refine ⟨_, by rw [tkm_EndRacingCall, hfind]; rfl, fun hwrap r hr => ?_, fun hnone => ?_⟩
    · have hrace : call.count ≠ fp.raceCount := by
        rw [hcounts]
        intro heq
        have hzero : BitVec.ofNat w call.registered.length = 0 := by simpa using heq
        have hlength : call.registered.length = 0 := by
          have hmod := congrArg BitVec.toNat hzero
          rwa [BitVec.toNat_ofNat, Nat.mod_eq_of_lt hwrap] at hmod
        rw [List.length_eq_zero_iff.mp hlength] at hr
        simp at hr
      dsimp only
      rw [if_pos hrace]
      exact Rights.removed type (hrights r hr)
    · have hsame : ¬call.count ≠ fp.raceCount := by simp [hcounts, hnone]
      dsimp only
      rw [if_neg hsame]
  · have hfind := hs.one.findEntry hfp
    have hactive := hs.active fp.fid
    rw [hfind] at hactive
    exact ⟨hactive, hs.positive fp.fid fp hfind⟩
  · obtain ⟨fp, hfind, _⟩ := hs.entry hcall
    exact ⟨fp, findEntry_mem hfind, findEntry_fid hfind⟩

/-- Two calls on a file overlap, and a revoke comes in before the first of them ends. -/
def overlappingCalls (fid : afsFid) : List RaceAction := [.start fid, .start fid, .register fid 5, .end 1 7]

theorem races_detected_overlappingCalls :
    ∃ s : RaceState 32, s.calls.length = 1 ∧ s.raceListp.length = 1 ∧ s.Detects := by
  obtain ⟨s, hreach, hs⟩ := (tokenRaces 32).exists_reachable_of_exec (overlappingCalls ⟨1, 1, 1, 1⟩) (s := ⟨[], []⟩)
    (P := fun s => s.calls.length == 1 && s.raceListp.length == 1) rfl (by decide +kernel)
  simp only [Bool.and_eq_true, beq_iff_eq] at hs
  exact ⟨s, hs.1, hs.2, races_detected hreach⟩

end dce.tkm
