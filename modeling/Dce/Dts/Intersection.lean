import Mathlib.Data.EReal.Basic
import Dce.Lib.Sweep
import Dce.Dts.Comptime

open lib

namespace dce.dts

inductive IntervalSize where
  | non_infinite
  | infinite
  deriving DecidableEq

inductive EndPointType where
  | min
  | max
  deriving DecidableEq

structure EndPointElement where
  value : UTCValue
  intervalSize : IntervalSize
  type : EndPointType
  deriving DecidableEq

open IntervalSize EndPointType

/-- `CalcIntervalEndPoints`: the minimum and the maximum. -/
def CalcIntervalEndPoints (T : UTCValue) (I : ExtInacc) : EndPointElement × EndPointElement :=
  if IsInfiniteInacc I then (⟨T, infinite, min⟩, ⟨T, infinite, max⟩)
  else (⟨UTCsub T I, non_infinite, min⟩, ⟨UTCadd T I, non_infinite, max⟩)

/-- `CalcMidpointAndInacc`: the midpoint and the inaccuracy, or the `BugCheck`. -/
def CalcMidpointAndInacc (minPoint maxPoint : EndPointElement) : Option (UTCValue × ExtInacc) :=
  let lowBits : UTCValue := if UTClow minPoint.value &&& 1 ≠ 0 ∨ UTClow maxPoint.value &&& 1 ≠ 0 then 1 else 0
  let midPoint := UTCadd (UTCdivideBy2 minPoint.value) (UTCdivideBy2 maxPoint.value)
  if minPoint.intervalSize = non_infinite then
    if maxPoint.intervalSize ≠ non_infinite then none
    else some (midPoint, UTCadd (UTCdivideBy2 (UTCsub maxPoint.value minPoint.value)) lowBits)
  else some (midPoint, K_INFINITE_INACC)

def CompareIntervalEndPoints (point1 point2 : EndPointElement) : ℤ :=
  if point1.intervalSize = non_infinite ∧ point2.intervalSize = non_infinite then
    if IsUTClt point1.value point2.value then -1
    else if IsUTCgt point1.value point2.value then 1
    else if point1.type = point2.type then 0
    else if point1.type = min then -1
    else 1
  else if point1.intervalSize = non_infinite then
    if point2.type = max then -1 else 1
  else if point2.intervalSize = non_infinite then
    if point1.type = min then -1 else 1
  else if point1.type = min ∧ point2.type = max then -1
  else if point1.type = max ∧ point2.type = min then 1
  else if IsUTClt point1.value point2.value then -1
  else if IsUTCgt point1.value point2.value then 1
  else 0

/-- The loop of `ComputedTimeMaximum` and `ComputedTimeMinimum` over the end points it
looks at, in its order. The end points of one type are counted up. -/
def intersectingLoop (counted : EndPointType) (want : ℤ) (endPoints : List EndPointElement) :
    ℤ × Option EndPointElement :=
  sweep (fun endPoint => endPoint.type = counted) want endPoints 0 0 none

/-- `ComputedTimeMaximum`, which looks at all end points but the first, from the last:
the most intersections and the end point with them. -/
def ComputedTimeMaximum (M f : ℕ) (endPointArr : List EndPointElement) : ℤ × Option EndPointElement :=
  intersectingLoop max (M - f) (endPointArr.take (2 * M)).tail.reverse

/-- `ComputedTimeMinimum`, which looks at all end points but the last. -/
def ComputedTimeMinimum (M f : ℕ) (endPointArr : List EndPointElement) : ℤ × Option EndPointElement :=
  intersectingLoop min (M - f) (endPointArr.take (2 * M - 1))

/-! What the end points mean -/

/-- The point where an end point is. -/
noncomputable def EndPointElement.point (endPoint : EndPointElement) : EReal :=
  match endPoint.intervalSize, endPoint.type with
  | non_infinite, _ => ((endPoint.value.toInt : ℝ) : EReal)
  | infinite, .min => ⊥
  | infinite, .max => ⊤

/-- The interval of a server. -/
noncomputable def serverInterval (server : UTCValue × ExtInacc) : EReal × EReal :=
  ((CalcIntervalEndPoints server.1 server.2).1.point, (CalcIntervalEndPoints server.1 server.2).2.point)

def endPoints (servers : List (UTCValue × ExtInacc)) : List EndPointElement :=
  servers.flatMap fun server => [(CalcIntervalEndPoints server.1 server.2).1, (CalcIntervalEndPoints server.1 server.2).2]

/-- How many of the servers have a time in their intervals. -/
noncomputable def agreeing (servers : List (UTCValue × ExtInacc)) (t : EReal) : ℕ := depth (servers.map serverInterval) t

theorem CalcIntervalEndPoints_type (T : UTCValue) (I : ExtInacc) :
    (CalcIntervalEndPoints T I).1.type = min ∧ (CalcIntervalEndPoints T I).2.type = max ∧
      (CalcIntervalEndPoints T I).1.intervalSize = (CalcIntervalEndPoints T I).2.intervalSize := by
  rw [CalcIntervalEndPoints]
  split <;> exact ⟨rfl, rfl, rfl⟩

theorem point_of_compare {a b : EndPointElement} (h : CompareIntervalEndPoints a b ≤ 0) :
    a.point < b.point ∨ a.point = b.point ∧ (a.type = min ∨ b.type = max) := by
  obtain ⟨av, as, at'⟩ := a
  obtain ⟨bv, bs, bt⟩ := b
  cases as <;> cases bs
  · simp only [EndPointElement.point]
    rcases lt_trichotomy av.toInt bv.toInt with hlt | heq | hgt
    · exact .inl (by exact_mod_cast hlt)
    · refine .inr ⟨by simp only [heq], ?_⟩
      have h1 : IsUTClt av bv = false := by simp [IsUTClt, BitVec.slt, heq]
      have h2 : IsUTCgt av bv = false := by simp [IsUTCgt, BitVec.slt, heq]
      cases at' <;> cases bt <;> simp [CompareIntervalEndPoints, h1, h2] at h ⊢
    · have h1 : IsUTClt av bv = false := by simp [IsUTClt, BitVec.slt, hgt.le]
      have h2 : IsUTCgt av bv = true := IsUTCgt_iff.mpr hgt
      simp [CompareIntervalEndPoints, h1, h2] at h
  · cases bt
    · simp [CompareIntervalEndPoints] at h
    · exact .inl (EReal.coe_lt_top _)
  · cases at'
    · exact .inl (EReal.bot_lt_coe _)
    · simp [CompareIntervalEndPoints] at h
  · cases at' <;> cases bt
    · exact .inr ⟨rfl, .inl rfl⟩
    · exact .inl (bot_lt_top)
    · simp [CompareIntervalEndPoints] at h
    · exact .inr ⟨rfl, .inr rfl⟩

/-- The intervals that the claim is about: no end point overflows. -/
def Ordered (servers : List (UTCValue × ExtInacc)) : Prop :=
  ∀ server ∈ servers, (CalcIntervalEndPoints server.1 server.2).1.value.toInt ≤
    (CalcIntervalEndPoints server.1 server.2).2.value.toInt

theorem serverInterval_le {T : UTCValue} {I : ExtInacc}
    (hle : (CalcIntervalEndPoints T I).1.value.toInt ≤ (CalcIntervalEndPoints T I).2.value.toInt) :
    (serverInterval (T, I)).1 ≤ (serverInterval (T, I)).2 := by
  rw [CalcIntervalEndPoints] at hle
  rw [serverInterval, CalcIntervalEndPoints]
  split
  · exact bot_le
  · next hfinite =>
    rw [if_neg hfinite] at hle
    simp only [EndPointElement.point]
    exact_mod_cast hle

theorem endPoints_sorted {servers : List (UTCValue × ExtInacc)} {endPointArr : List EndPointElement}
    (hordered : Ordered servers) (hperm : endPointArr.Perm (endPoints servers))
    (hsorted : endPointArr.Pairwise fun a b => CompareIntervalEndPoints a b ≤ 0) :
    EndPoints (servers.map serverInterval) EndPointElement.point (fun endPoint => endPoint.type = min) endPointArr where
  lower := by
    refine ((hperm.filter _).map _).trans (.of_eq ?_)
    rw [endPoints]
    clear hperm hordered
    induction servers with
    | nil => rfl
    | cons server servers ih =>
      obtain ⟨hmin, hmax, _⟩ := CalcIntervalEndPoints_type server.1 server.2
      rw [List.flatMap_cons, List.filter_append, List.map_append, ih]
      simp [hmin, hmax, serverInterval]
  upper := by
    refine ((hperm.filter _).map _).trans (.of_eq ?_)
    rw [endPoints]
    clear hperm hordered
    induction servers with
    | nil => rfl
    | cons server servers ih =>
      obtain ⟨hmin, hmax, _⟩ := CalcIntervalEndPoints_type server.1 server.2
      rw [List.flatMap_cons, List.filter_append, List.map_append, ih]
      simp [hmin, hmax, serverInterval]
  sorted := hsorted.imp fun {a b} h => by
    rcases point_of_compare h with hlt | ⟨heq, htype⟩
    · exact .inl hlt
    · refine .inr ⟨heq, htype.imp (fun h => by simp [h]) fun h => by simp [h]⟩
  le i hi := by
    obtain ⟨server, hserver, rfl⟩ := List.mem_map.mp hi
    exact serverInterval_le (hordered server hserver)

theorem endPoints_length (servers : List (UTCValue × ExtInacc)) : (endPoints servers).length = 2 * servers.length := by
  rw [endPoints, List.length_flatMap]
  simp [Nat.mul_comm]

/-- The best intersection of the intervals of the servers, of which `f` may be wrong. -/
structure BestIntersection (servers : List (UTCValue × ExtInacc)) (f : ℕ) (lower upper : EndPointElement) (k : ℤ) :
    Prop where
  /-- The intersections are those wanted, or the most there are. -/
  most : ∃ d, IsGreatest (Set.range fun t => (agreeing servers t : ℤ)) d ∧ k = (servers.length - f : ℤ) ⊓ d
  least : IsLeast {t | k ≤ agreeing servers t} lower.point
  greatest : IsGreatest {t | k ≤ agreeing servers t} upper.point
  le : lower.point ≤ upper.point
  sizes : lower.intervalSize = upper.intervalSize
  /-- There is no `BugCheck`. -/
  midpoint : (CalcMidpointAndInacc lower upper).isSome = true
  /-- The true time is in the intersection if at most `f` servers are wrong. -/
  correct : ∀ t : EReal, servers.length ≤ agreeing servers t + f → lower.point ≤ t ∧ t ≤ upper.point

theorem exists_most_agreeing (servers : List (UTCValue × ExtInacc)) :
    ∃ t, ∀ t', agreeing servers t' ≤ agreeing servers t := by
  have hle : ∀ t, agreeing servers t ≤ (servers.map serverInterval).length := fun t => List.countP_le_length
  let few : EReal → ℕ := fun t => (servers.map serverInterval).length - agreeing servers t
  obtain ⟨t, hfew⟩ : ∃ t, ∀ t', few t ≤ few t' := ⟨Function.argmin few, fun t' => Function.argmin_le few t'⟩
  refine ⟨t, fun t' => ?_⟩
  have hfew' : (servers.map serverInterval).length - agreeing servers t ≤
      (servers.map serverInterval).length - agreeing servers t' := hfew t'
  have ht := hle t
  have ht' := hle t'
  omega

theorem EndPointElement.infinite_iff (endPoint : EndPointElement) :
    endPoint.intervalSize = infinite ↔ endPoint.point = ⊥ ∨ endPoint.point = ⊤ := by
  obtain ⟨value, size, type⟩ := endPoint
  cases size
  · simp [point]
  · cases type <;> simp [point]

theorem serverInterval_infinite {T : UTCValue} {I : ExtInacc}
    (h : (serverInterval (T, I)).1 = ⊥ ∨ (serverInterval (T, I)).2 = ⊤) : serverInterval (T, I) = (⊥, ⊤) := by
  rw [serverInterval, CalcIntervalEndPoints] at h ⊢
  split
  · rfl
  · next hfinite => simp [hfinite, EndPointElement.point] at h

theorem agreeing_bot (servers : List (UTCValue × ExtInacc)) : agreeing servers ⊥ = agreeing servers ⊤ := by
  rw [agreeing, agreeing, depth, depth, List.countP_map, List.countP_map]
  refine List.countP_congr fun server _ => ?_
  have hboth := @serverInterval_infinite server.1 server.2
  simp only [Function.comp_apply, decide_eq_true_eq, le_bot_iff, bot_le, and_true, le_top, true_and, top_le_iff]
  exact ⟨fun h => by rw [hboth (.inl h)], fun h => by rw [hboth (.inr h)]⟩

/-- The sweeps find the best intersection. -/
theorem best_intersection {servers : List (UTCValue × ExtInacc)} {f : ℕ} {endPointArr : List EndPointElement}
    (hf : f < servers.length) (hordered : Ordered servers) (hperm : endPointArr.Perm (endPoints servers))
    (hsorted : endPointArr.Pairwise fun a b => CompareIntervalEndPoints a b ≤ 0) :
    ∃ k lower upper, ComputedTimeMinimum servers.length f endPointArr = (k, some lower) ∧
      ComputedTimeMaximum servers.length f endPointArr = (k, some upper) ∧
        BestIntersection servers f lower upper k := by
  have hends := endPoints_sorted hordered hperm hsorted
  have hlength : endPointArr.length = 2 * servers.length := hperm.length_eq.trans (endPoints_length servers)
  have hne : endPointArr ≠ [] := fun h => by
    rw [h, List.length_nil] at hlength
    omega
  have hwant : (1 : ℤ) ≤ servers.length - f := by omega
  obtain ⟨k, lower, hminimum, hk, hkwant, hlower, hlowerType, hleast, hmost⟩ := hends.sweep_least hne hwant
  obtain ⟨k', upper, hmaximum, _, hkwant', hupper, hupperType, hgreatest, hmost'⟩ :=
    hends.reverse.sweep_least (by simpa using hne) hwant
  have hmin : ComputedTimeMinimum servers.length f endPointArr = (k, some lower) := by
    rw [ComputedTimeMinimum, ← hlength, ← List.dropLast_eq_take]
    exact hminimum
  have hcounted : (fun b : EndPointElement => !decide (b.type = EndPointType.min)) = fun b => decide (b.type = EndPointType.max) := by
    funext b
    cases b.type <;> rfl
  have hmax : ComputedTimeMaximum servers.length f endPointArr = (k', some upper) := by
    rw [ComputedTimeMaximum, ← hlength, List.take_length, ← List.dropLast_reverse]
    rw [hcounted] at hmaximum
    exact hmaximum
  have hdual : ∀ t : EReal, depth ((servers.map serverInterval).map fun i => (OrderDual.toDual i.2, OrderDual.toDual i.1))
      (OrderDual.toDual t) = agreeing servers t := EndPoints.depth_reverse _
  have hgreatest : IsGreatest {t | k' ≤ agreeing servers t} upper.point := by
    refine ⟨?_, fun t ht => ?_⟩
    · have hmem := hgreatest.1
      rw [Set.mem_ofPred_eq, hdual] at hmem
      exact hmem
    · have hle : OrderDual.toDual upper.point ≤ OrderDual.toDual t := hgreatest.2 (by rwa [Set.mem_ofPred_eq, hdual])
      exact hle
  have hmost' : k' < servers.length - f → ∀ t, (agreeing servers t : ℤ) ≤ k' := fun hless t => by
    rw [← hdual]
    exact hmost' hless _
  have hatLower : k ≤ agreeing servers lower.point := hleast.1
  have hatUpper : k' ≤ agreeing servers upper.point := hgreatest.1
  have hsame : k' = k := by
    rcases lt_trichotomy k k' with hlt | heq | hgt
    · have := hmost (by omega) upper.point
      have : (agreeing servers upper.point : ℤ) ≤ k := this
      omega
    · exact heq.symm
    · have := hmost' (by omega) lower.point
      omega
  subst hsame
  refine ⟨k', lower, upper, hmin, hmax, ?_⟩
  obtain ⟨t, ht⟩ := exists_most_agreeing servers
  have hd : IsGreatest (Set.range fun t => (agreeing servers t : ℤ)) (agreeing servers t) :=
    ⟨⟨t, rfl⟩, fun n ⟨t', hn⟩ => hn ▸ Int.ofNat_le.mpr (ht t')⟩
  have hle : lower.point ≤ upper.point := hgreatest.2 hatLower
  have hsizes : lower.intervalSize = infinite ↔ upper.intervalSize = infinite := by
    have hlowerMin : lower.type = min := of_decide_eq_true hlowerType
    have hupperMax : upper.type = max := by
      have hnot : upper.type ≠ min := by simpa using hupperType
      cases htype : upper.type
      · exact absurd htype hnot
      · rfl
    constructor
    · intro hinfinite
      have hbot : lower.point = ⊥ := by simp [EndPointElement.point, hinfinite, hlowerMin]
      rw [hbot, agreeing_bot] at hatLower
      exact upper.infinite_iff.mpr (.inr (top_le_iff.mp (hgreatest.2 hatLower)))
    · intro hinfinite
      have htop : upper.point = ⊤ := by simp [EndPointElement.point, hinfinite, hupperMax]
      rw [htop, ← agreeing_bot] at hatUpper
      exact lower.infinite_iff.mpr (.inl (le_bot_iff.mp (hleast.2 hatUpper)))
  have hsizes : lower.intervalSize = upper.intervalSize := by
    cases hl : lower.intervalSize <;> cases hu : upper.intervalSize <;> simp [hl, hu] at hsizes ⊢
  refine ⟨⟨_, hd, ?_⟩, hleast, hgreatest, hle, hsizes, ?_, fun t' ht' => ?_⟩
  · have htop := Int.ofNat_le.mpr (ht lower.point)
    rcases lt_or_eq_of_le hkwant with hless | heq
    · have := hmost hless t
      have : (agreeing servers t : ℤ) ≤ k' := this
      omega
    · omega
  · rw [CalcMidpointAndInacc, ← hsizes]
    cases lower.intervalSize <;> simp
  · have hmem : k' ≤ agreeing servers t' := by omega
    exact ⟨hleast.2 hmem, hgreatest.2 hmem⟩

def threeServers : List (UTCValue × ExtInacc) := [(100, 10), (105, 10), (200, 10)]

def threeServersSorted : List EndPointElement :=
  [⟨90, non_infinite, min⟩, ⟨95, non_infinite, min⟩, ⟨110, non_infinite, max⟩, ⟨115, non_infinite, max⟩,
    ⟨190, non_infinite, min⟩, ⟨210, non_infinite, max⟩]

theorem best_intersection_threeServers : ∃ k lower upper,
    ComputedTimeMinimum threeServers.length 1 threeServersSorted = (k, some lower) ∧
      ComputedTimeMaximum threeServers.length 1 threeServersSorted = (k, some upper) ∧
        BestIntersection threeServers 1 lower upper k := by
  have hf : 1 < threeServers.length := by decide
  have hordered : Ordered threeServers := fun server hserver => by
    simp only [threeServers, List.mem_cons, List.not_mem_nil, or_false] at hserver
    obtain rfl | rfl | rfl := hserver <;> decide
  have hperm : threeServersSorted.Perm (endPoints threeServers) := by decide
  have hsorted : threeServersSorted.Pairwise fun a b => CompareIntervalEndPoints a b ≤ 0 := by decide
  exact best_intersection hf hordered hperm hsorted

end dce.dts
