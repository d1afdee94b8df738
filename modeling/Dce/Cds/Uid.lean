import Dce.Cds.Attributes
import Dce.Lib.Issuer
import Dce.Rpc.Uuid

open lib dce.dts dce.rpc

namespace dce.cds.uid

/-- `time_quad_t` on the hosts whose `long` has 32 bits. -/
structure time_quad_t where
  tq_lo : BitVec 32
  tq_hi : BitVec 32
  deriving DecidableEq, Repr

/-- The time of a timestamp, as `COPY_Time` takes it from the two words. -/
def time_quad_t.toTime (t : time_quad_t) : BitVec 64 := t.tq_hi ++ t.tq_lo

def time_quad_t.ofTime (t : BitVec 64) : time_quad_t where
  tq_lo := t.extractLsb' 0 32
  tq_hi := t.extractLsb' 32 32

/-- The status values of `ts_new`. -/
inductive dns_status_t where
  | DNS_SUCCESS
  | DNS_BADCLOCK
  deriving DecidableEq, Repr

def Low_Time (t : time_quad_t) : BitVec 32 := t.tq_lo
def High_Time (t : time_quad_t) : BitVec 32 := t.tq_hi

def GT_Time (t1 t2 : time_quad_t) : Bool :=
  High_Time t1 > High_Time t2 || High_Time t1 == High_Time t2 && Low_Time t1 > Low_Time t2

def GE_Time (t1 t2 : time_quad_t) : Bool :=
  High_Time t1 > High_Time t2 || High_Time t1 == High_Time t2 && Low_Time t1 >= Low_Time t2

/-- `UTCadd`: the carry is found from the sign bits of the low words. -/
def dns_qadd (add1 add2 : time_quad_t) : time_quad_t :=
  if (add1.tq_lo &&& 0x80000000) ^^^ (add2.tq_lo &&& 0x80000000) = 0 then
    if add1.tq_lo &&& 0x80000000 ≠ 0 then { tq_lo := add1.tq_lo + add2.tq_lo, tq_hi := add1.tq_hi + add2.tq_hi + 1 }
    else { tq_lo := add1.tq_lo + add2.tq_lo, tq_hi := add1.tq_hi + add2.tq_hi }
  else
    let sum : time_quad_t := { tq_lo := add1.tq_lo + add2.tq_lo, tq_hi := add1.tq_hi + add2.tq_hi }
    if sum.tq_lo &&& 0x80000000 = 0 then { sum with tq_hi := sum.tq_hi + 1 } else sum

def INIT_time_quad (a b : BitVec 32) : time_quad_t := { tq_lo := b, tq_hi := a }

def ODD_time_quad (p : time_quad_t) : time_quad_t := { p with tq_lo := p.tq_lo ||| 1 }

def two : time_quad_t := INIT_time_quad 0 2

/-- The static variables of the module. -/
structure uid_lib where
  theNode : BitVec 48
  lasttime : time_quad_t
  nexttime : time_quad_t
  this_node_init : Bool
  deriving DecidableEq

def uid_lib.statics : uid_lib where
  theNode := 0
  lasttime := INIT_time_quad 0 0
  nexttime := INIT_time_quad 0 0
  this_node_init := false

/-- `init_address`, as each function calls it, with the address that `dce_get_802_addr` gives. -/
def init_address (addr : BitVec 48) (s : uid_lib) : uid_lib :=
  if s.this_node_init then s else { s with theNode := addr, this_node_init := true }

def ts_set_last_ts (addr : BitVec 48) (ts_p : Timestamp_t) (s : uid_lib) : uid_lib :=
  { init_address addr s with lasttime := .ofTime ts_p.ts_time, nexttime := .ofTime ts_p.ts_time }

def ts_update_last_ts (addr : BitVec 48) (ts_p : Timestamp_t) (s : uid_lib) : uid_lib :=
  let s := init_address addr s
  if GT_Time (.ofTime ts_p.ts_time) s.nexttime then
    { s with lasttime := .ofTime ts_p.ts_time, nexttime := .ofTime ts_p.ts_time }
  else s

/-- `ts_new`; `now` is the time that `sys_time_to_utc` gives. -/
def ts_new (addr : BitVec 48) (now : time_quad_t) (s : uid_lib) : dns_status_t × Timestamp_t × uid_lib :=
  let s := init_address addr s
  let now := ODD_time_quad now
  let (status, s) :=
    if GT_Time now s.nexttime then (dns_status_t.DNS_SUCCESS, { s with lasttime := now, nexttime := now })
    else if GE_Time now s.lasttime then (.DNS_SUCCESS, { s with nexttime := dns_qadd two s.nexttime })
    else (.DNS_BADCLOCK, s)
  (status, { ts_time := s.nexttime.toTime, ts_node := s.theNode }, s)

/-- A call of the module. -/
inductive Call where
  | ts_new (now : time_quad_t)
  | ts_update_last_ts (ts_p : Timestamp_t)
  deriving DecidableEq

variable (addr : BitVec 48)

def after (s : uid_lib) : Call → uid_lib
  | .ts_new now => (ts_new addr now s).2.2
  | .ts_update_last_ts ts_p => ts_update_last_ts addr ts_p s

/-- The time a call makes known: that of the timestamp `ts_new` returns, whatever its status, or that of the one learned. -/
def seen (s : uid_lib) : Call → ℕ
  | .ts_new now => (ts_new addr now s).2.1.ts_time.toNat
  | .ts_update_last_ts ts_p => ts_p.ts_time.toNat

/-- The time a call takes from the clock, made odd, or from `ts_update_last_ts`. -/
def taken (s : uid_lib) : Call → Option ℕ
  | .ts_new now => if GT_Time (ODD_time_quad now) s.nexttime then some (ODD_time_quad now).toTime.toNat else none
  | .ts_update_last_ts ts_p => if GT_Time (.ofTime ts_p.ts_time) s.nexttime then some ts_p.ts_time.toNat else none

def run (s : uid_lib) (calls : List Call) : uid_lib := calls.foldl (after addr) s

def known : uid_lib → List Call → List ℕ
  | _, [] => []
  | s, c :: calls => seen addr s c :: known (after addr s c) calls

/-- The times a run of calls takes from the clock or from `ts_update_last_ts`, in order. -/
def takes : uid_lib → List Call → List ℕ
  | _, [] => []
  | s, c :: calls => (taken s c).toList ++ takes (after addr s c) calls

/-- A call that adds two finds the next time two below the end of the range or lower. -/
def Fits (s : uid_lib) : Call → Prop
  | .ts_new now => ¬ GT_Time (ODD_time_quad now) s.nexttime → GE_Time (ODD_time_quad now) s.lasttime →
      s.nexttime.toTime.toNat + 2 < 2 ^ 64
  | .ts_update_last_ts _ => True

/-- Every call of a run that adds two stays in the range. -/
def FitsAll : uid_lib → List Call → Prop
  | _, [] => True
  | s, c :: calls => Fits s c ∧ FitsAll (after addr s c) calls

/-- The variables where a run may begin: as the server starts, or as `ts_set_last_ts` leaves them. -/
inductive Started : uid_lib → Prop where
  | statics : Started uid_lib.statics
  | ts_set_last_ts (ts_p : Timestamp_t) (s : uid_lib) : Started (ts_set_last_ts addr ts_p s)

variable {addr} {s : uid_lib} {c : Call} {calls : List Call} {now : time_quad_t}

theorem toNat_toTime (t : time_quad_t) : t.toTime.toNat = t.tq_hi.toNat * 2 ^ 32 + t.tq_lo.toNat :=
  toNat_U64SET64 t.tq_hi t.tq_lo

@[simp] theorem toTime_ofTime (t : BitVec 64) : (time_quad_t.ofTime t).toTime = t := by
  have ht := t.isLt
  apply BitVec.eq_of_toNat_eq
  rw [toNat_toTime]
  simp only [time_quad_t.ofTime, BitVec.extractLsb'_toNat, Nat.shiftRight_eq_div_pow]
  omega

theorem GT_Time_iff (a b : time_quad_t) : GT_Time a b ↔ b.toTime.toNat < a.toTime.toNat := by
  have ha := a.tq_lo.isLt
  have hb := b.tq_lo.isLt
  simp only [GT_Time, High_Time, Low_Time, Bool.or_eq_true, Bool.and_eq_true, decide_eq_true_eq, beq_iff_eq, gt_iff_lt,
    BitVec.lt_def, ← BitVec.toNat_inj, toNat_toTime]
  omega

theorem GE_Time_iff (a b : time_quad_t) : GE_Time a b ↔ b.toTime.toNat ≤ a.toTime.toNat := by
  have ha := a.tq_lo.isLt
  have hb := b.tq_lo.isLt
  simp only [GE_Time, High_Time, Low_Time, Bool.or_eq_true, Bool.and_eq_true, decide_eq_true_eq, beq_iff_eq, gt_iff_lt,
    ge_iff_le, BitVec.lt_def, BitVec.le_def, ← BitVec.toNat_inj, toNat_toTime]
  omega

theorem dns_qadd_words (a b : time_quad_t) :
    (unsigned64.mk (dns_qadd a b).tq_hi (dns_qadd a b).tq_lo) =
      UADD_UVLW_2_UVLW ⟨a.tq_hi, a.tq_lo⟩ ⟨b.tq_hi, b.tq_lo⟩ := by
  by_cases hsame : (a.tq_lo &&& 0x80000000) ^^^ (b.tq_lo &&& 0x80000000) = 0
  · by_cases hset : a.tq_lo &&& 0x80000000 ≠ 0
    · rw [show dns_qadd a b = _ from (if_pos hsame).trans (if_pos hset)]
      exact ((if_pos hsame).trans (if_pos hset)).symm
    · rw [show dns_qadd a b = _ from (if_pos hsame).trans (if_neg hset)]
      exact ((if_pos hsame).trans (if_neg hset)).symm
  · by_cases hclear : a.tq_lo + b.tq_lo &&& 0x80000000 = 0
    · rw [show dns_qadd a b = _ from (if_neg hsame).trans (if_pos hclear)]
      exact ((if_neg hsame).trans (if_pos hclear)).symm
    · rw [show dns_qadd a b = _ from (if_neg hsame).trans (if_neg hclear)]
      exact ((if_neg hsame).trans (if_neg hclear)).symm

theorem toNat_dns_qadd (a b : time_quad_t) :
    (dns_qadd a b).toTime.toNat = (a.toTime.toNat + b.toTime.toNat) % 2 ^ 64 := by
  have hsum := toNat_UADD_UVLW_2_UVLW ⟨a.tq_hi, a.tq_lo⟩ ⟨b.tq_hi, b.tq_lo⟩
  rw [← dns_qadd_words, toNat_value, toNat_value, toNat_value] at hsum
  simpa only [toNat_toTime] using hsum

theorem le_ODD_time_quad (t : time_quad_t) : t.toTime.toNat ≤ (ODD_time_quad t).toTime.toNat := by
  have hor : t.tq_lo.toNat ≤ (t.tq_lo ||| 1).toNat := by
    rw [BitVec.toNat_or]
    exact Nat.left_le_or
  rw [toNat_toTime, toNat_toTime]
  exact Nat.add_le_add_left hor _

/-- What the module stands for: times as numbers, with no end to their range. -/
def abs (s : uid_lib) : Issuer ℕ where
  last := s.lasttime.toTime.toNat
  next := s.nexttime.toTime.toNat

def Call.abs : Call → Issuer.Call ℕ
  | .ts_new now => .issue (ODD_time_quad now).toTime.toNat
  | .ts_update_last_ts ts_p => .learn ts_p.ts_time.toNat

def addTwo (t : ℕ) : ℕ := t + 2

theorem lt_addTwo (t : ℕ) : t < addTwo t := Nat.lt_add_of_pos_right Nat.zero_lt_two

@[simp] theorem init_address_lasttime : (init_address addr s).lasttime = s.lasttime := by
  unfold init_address
  split_ifs <;> rfl

@[simp] theorem init_address_nexttime : (init_address addr s).nexttime = s.nexttime := by
  unfold init_address
  split_ifs <;> rfl

theorem GT_Time_false {a b : time_quad_t} (h : a.toTime.toNat ≤ b.toTime.toNat) : GT_Time a b = false :=
  Bool.eq_false_iff.mpr fun hgt => absurd ((GT_Time_iff a b).mp hgt) (Nat.not_lt.mpr h)

theorem GE_Time_false {a b : time_quad_t} (h : a.toTime.toNat < b.toTime.toNat) : GE_Time a b = false :=
  Bool.eq_false_iff.mpr fun hge => absurd ((GE_Time_iff a b).mp hge) (Nat.not_le.mpr h)

theorem toNat_dns_qadd_two (hfits : s.nexttime.toTime.toNat + 2 < 2 ^ 64) :
    (dns_qadd two s.nexttime).toTime.toNat = addTwo s.nexttime.toTime.toNat := by
  have htwo : two.toTime.toNat = 2 := by decide
  rw [toNat_dns_qadd, htwo, addTwo, Nat.add_comm, Nat.mod_eq_of_lt hfits]

theorem ts_new_ahead (hahead : s.nexttime.toTime.toNat < (ODD_time_quad now).toTime.toNat) :
    ts_new addr now s = (.DNS_SUCCESS, ⟨(ODD_time_quad now).toTime, (init_address addr s).theNode⟩,
      { init_address addr s with lasttime := ODD_time_quad now, nexttime := ODD_time_quad now }) := by
  simp [ts_new, (GT_Time_iff _ _).mpr hahead]

theorem ts_new_between (hle : (ODD_time_quad now).toTime.toNat ≤ s.nexttime.toTime.toNat)
    (hback : s.lasttime.toTime.toNat ≤ (ODD_time_quad now).toTime.toNat) :
    ts_new addr now s = (.DNS_SUCCESS, ⟨(dns_qadd two s.nexttime).toTime, (init_address addr s).theNode⟩,
      { init_address addr s with nexttime := dns_qadd two s.nexttime }) := by
  simp [ts_new, GT_Time_false hle, (GE_Time_iff _ _).mpr hback]

theorem ts_new_behind (hle : (ODD_time_quad now).toTime.toNat ≤ s.nexttime.toTime.toNat)
    (hback : (ODD_time_quad now).toTime.toNat < s.lasttime.toTime.toNat) :
    ts_new addr now s =
      (.DNS_BADCLOCK, ⟨s.nexttime.toTime, (init_address addr s).theNode⟩, init_address addr s) := by
  simp [ts_new, GT_Time_false hle, GE_Time_false hback]

/-- The time of the timestamp a successful call of `ts_new` returns. -/
def given (addr : BitVec 48) (s : uid_lib) : Call → Option ℕ
  | .ts_new now =>
    if (ts_new addr now s).1 = .DNS_SUCCESS then some (ts_new addr now s).2.1.ts_time.toNat else none
  | .ts_update_last_ts _ => none

/-- A call has the effects of a call of the source of numbers. -/
structure Follows (addr : BitVec 48) (s : uid_lib) (c : Call) : Prop where
  taken : taken s c = Issuer.taken (abs s) c.abs
  given : given addr s c = Issuer.given addTwo (abs s) c.abs
  seen : seen addr s c = Issuer.seen addTwo (abs s) c.abs
  after : abs (after addr s c) = Issuer.after addTwo (abs s) c.abs

theorem follows_ts_update_last_ts (addr : BitVec 48) (s : uid_lib) (ts_p : Timestamp_t) :
    Follows addr s (.ts_update_last_ts ts_p) := by
  by_cases hahead : s.nexttime.toTime.toNat < ts_p.ts_time.toNat
  · have hgt : GT_Time (.ofTime ts_p.ts_time) s.nexttime = true := by rwa [GT_Time_iff, toTime_ofTime]
    have htaken : Issuer.taken (abs s) (Call.ts_update_last_ts ts_p).abs = some ts_p.ts_time.toNat :=
      Issuer.taken_learn_of_lt hahead
    refine ⟨?_, rfl, rfl, ?_⟩
    · rw [htaken, taken, if_pos hgt]
    · rw [Issuer.after_of_taken htaken]
      simp [after, ts_update_last_ts, hgt, abs]
  · have hle : ts_p.ts_time.toNat ≤ s.nexttime.toTime.toNat := Nat.not_lt.mp hahead
    have hgt : GT_Time (.ofTime ts_p.ts_time) s.nexttime = false := GT_Time_false (by rwa [toTime_ofTime])
    have htaken : Issuer.taken (abs s) (Call.ts_update_last_ts ts_p).abs = none := Issuer.taken_learn_of_le hle
    refine ⟨?_, rfl, rfl, ?_⟩
    · simp [htaken, taken, hgt]
    · rw [Issuer.after_of_not_taken htaken]
      simp [after, ts_update_last_ts, hgt, abs, Issuer.given, Call.abs]

theorem follows_ts_new (hfits : Fits s (.ts_new now)) : Follows addr s (.ts_new now) := by
  by_cases hahead : s.nexttime.toTime.toNat < (ODD_time_quad now).toTime.toNat
  · have htaken : Issuer.taken (abs s) (Call.ts_new now).abs = some (ODD_time_quad now).toTime.toNat :=
      Issuer.taken_issue_of_lt hahead
    have hgiven : Issuer.given addTwo (abs s) (Call.ts_new now).abs = some (ODD_time_quad now).toTime.toNat :=
      Issuer.given_issue_of_lt hahead
    refine ⟨?_, ?_, ?_, ?_⟩
    · rw [htaken, taken, if_pos ((GT_Time_iff _ _).mpr hahead)]
    · simp [hgiven, given, ts_new_ahead hahead]
    · rw [Call.abs] at hgiven ⊢
      simp [Issuer.seen, hgiven, seen, ts_new_ahead hahead]
    · rw [Issuer.after_of_taken htaken]
      simp [after, ts_new_ahead hahead, abs]
  have hle : (ODD_time_quad now).toTime.toNat ≤ s.nexttime.toTime.toNat := Nat.not_lt.mp hahead
  have htaken : Issuer.taken (abs s) (Call.ts_new now).abs = none := Issuer.taken_issue_of_le hle
  have hnone : taken s (.ts_new now) = none := by simp [taken, GT_Time_false hle]
  by_cases hback : s.lasttime.toTime.toNat ≤ (ODD_time_quad now).toTime.toNat
  · have hroom := hfits (by simp [GT_Time_false hle]) ((GE_Time_iff _ _).mpr hback)
    have hsum := toNat_dns_qadd_two hroom
    have hgiven : Issuer.given addTwo (abs s) (Call.ts_new now).abs = some (addTwo s.nexttime.toTime.toNat) :=
      Issuer.given_issue_between hle hback
    refine ⟨hnone.trans htaken.symm, ?_, ?_, ?_⟩
    · simp [hgiven, given, ts_new_between hle hback, hsum]
    · rw [Call.abs] at hgiven ⊢
      simp [Issuer.seen, hgiven, seen, ts_new_between hle hback, hsum]
    · rw [Issuer.after_of_not_taken htaken, hgiven]
      simp [after, ts_new_between hle hback, abs, hsum]
  · have hbehind := Nat.not_le.mp hback
    have hgiven : Issuer.given addTwo (abs s) (Call.ts_new now).abs = none := Issuer.given_issue_behind hle hbehind
    refine ⟨hnone.trans htaken.symm, ?_, ?_, ?_⟩
    · simp [hgiven, given, ts_new_behind hle hbehind]
    · rw [Call.abs] at hgiven ⊢
      rw [Issuer.seen, hgiven, seen, ts_new_behind hle hbehind, Option.getD_none]
      rfl
    · rw [Issuer.after_of_not_taken htaken, hgiven]
      simp [after, ts_new_behind hle hbehind, abs]

theorem follows (addr : BitVec 48) (hfits : Fits s c) : Follows addr s c := by
  cases c with
  | ts_new now => exact follows_ts_new hfits
  | ts_update_last_ts ts_p => exact follows_ts_update_last_ts addr s ts_p

theorem run_abs (hfits : FitsAll addr s calls) :
    abs (run addr s calls) = Issuer.run addTwo (abs s) (calls.map Call.abs) := by
  induction calls generalizing s with
  | nil => rfl
  | cons c calls ih =>
    obtain ⟨hstep, hrest⟩ := hfits
    rw [List.map_cons, Issuer.run, List.foldl_cons, ← (follows addr hstep).after]
    exact ih hrest

theorem known_abs (hfits : FitsAll addr s calls) :
    known addr s calls = Issuer.known addTwo (abs s) (calls.map Call.abs) := by
  induction calls generalizing s with
  | nil => rfl
  | cons c calls ih =>
    obtain ⟨hstep, hrest⟩ := hfits
    rw [List.map_cons, known, Issuer.known, (follows addr hstep).seen, ← (follows addr hstep).after, ih hrest]

theorem takes_abs (hfits : FitsAll addr s calls) :
    takes addr s calls = Issuer.takes addTwo (abs s) (calls.map Call.abs) := by
  induction calls generalizing s with
  | nil => rfl
  | cons c calls ih =>
    obtain ⟨hstep, hrest⟩ := hfits
    rw [List.map_cons, takes, Issuer.takes, (follows addr hstep).taken, ← (follows addr hstep).after, ih hrest]

theorem fitsAll_append {more : List Call} :
    FitsAll addr s (calls ++ more) ↔ FitsAll addr s calls ∧ FitsAll addr (run addr s calls) more := by
  induction calls generalizing s with
  | nil => simp [FitsAll, run]
  | cons c calls ih =>
    rw [List.cons_append, FitsAll, FitsAll, ih, and_assoc]
    rfl

theorem Started.times_eq (hstarted : Started addr s) : s.lasttime = s.nexttime := by
  cases hstarted <;> rfl

/-- Every timestamp a successful `ts_new` returns is past all times returned or learned before it,
and only a clock behind the last time taken makes it fail. -/
theorem timestamps_increase (addr : BitVec 48) (s : uid_lib) (calls : List Call) (now : time_quad_t)
    (hstarted : Started addr s) (hfits : FitsAll addr s (calls ++ [.ts_new now])) :
    let r := ts_new addr now (run addr s calls)
    (r.1 = .DNS_SUCCESS → ∀ t ∈ known addr s calls, t < r.2.1.ts_time.toNat) ∧
      (r.1 = .DNS_BADCLOCK → now.toTime.toNat < (takes addr s calls).getLastD s.lasttime.toTime.toNat) := by
  obtain ⟨hcalls, hlast, -⟩ := fitsAll_append.mp hfits
  have hgiven := (follows addr hlast).given
  rw [given, run_abs hcalls] at hgiven
  constructor
  · intro hok t ht
    rw [known_abs hcalls] at ht
    rw [if_pos hok] at hgiven
    exact Issuer.known_lt_given lt_addTwo ht hgiven.symm
  · intro hbad
    rw [if_neg (by simp [hbad])] at hgiven
    have hle : (abs s).last ≤ (abs s).next := by rw [abs, hstarted.times_eq]
    rw [takes_abs hcalls]
    exact (le_ODD_time_quad now).trans_lt ((Issuer.refused_iff lt_addTwo hle).mp hgiven.symm)

theorem timestamps_increase_standing :
    let calls : List Call := [.ts_new ⟨0xFFFFFFFF, 0⟩]
    let r := ts_new 0 ⟨0xFFFFFFFE, 0⟩ (run 0 uid_lib.statics calls)
    (r.1 = .DNS_SUCCESS → ∀ t ∈ known 0 uid_lib.statics calls, t < r.2.1.ts_time.toNat) ∧
      (r.1 = .DNS_BADCLOCK →
        (⟨0xFFFFFFFE, 0⟩ : time_quad_t).toTime.toNat <
          (takes 0 uid_lib.statics calls).getLastD uid_lib.statics.lasttime.toTime.toNat) :=
  timestamps_increase 0 uid_lib.statics [.ts_new ⟨0xFFFFFFFF, 0⟩] ⟨0xFFFFFFFE, 0⟩ .statics
    ⟨fun hgt => absurd (by decide) hgt, fun _ _ => by decide, trivial⟩

/-- The last time of the range is learned and the clock reads it too: the addition of two leaves the range. -/
theorem timestamp_after_the_last :
    let calls : List Call := [.ts_update_last_ts ⟨0xFFFFFFFFFFFFFFFF, 0⟩]
    let r := ts_new 0 ⟨0xFFFFFFFF, 0xFFFFFFFF⟩ (run 0 uid_lib.statics calls)
    r.1 = .DNS_SUCCESS ∧ ∃ t ∈ known 0 uid_lib.statics calls, ¬ t < r.2.1.ts_time.toNat := by
  decide

end dce.cds.uid
