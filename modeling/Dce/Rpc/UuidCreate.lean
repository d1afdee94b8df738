import Dce.Lib.Stamps
import Dce.Rpc.Uuid

open lib dce.dts

namespace dce.rpc

/-- The variables of the random number generator. -/
structure Rand where
  rand_m : BitVec 32
  rand_ia : BitVec 32
  rand_ib : BitVec 32
  rand_irand : BitVec 32
  deriving DecidableEq, Repr

/-- The variables that calls of `uuid_create` share. `saved_addr` is there once `got_address` is set. -/
structure Globals where
  time_last : uuid_time_t
  time_adjust : BitVec 16
  clock_seq : BitVec 16
  rand : Rand
  saved_addr : Option uuid_address_t
  deriving DecidableEq

inductive Status where
  | uuid_s_no_address
  deriving DecidableEq, Repr

def RAND_MASK : BitVec 32 := 0x3fff
def MAX_TIME_ADJUST : BitVec 16 := 0x7fff
def CLOCK_SEQ_LAST : BitVec 16 := 0x3fff

/-- `true_random_init`, with the time and the process it takes the seed from. -/
def true_random_init (t : uuid_time_t) (pid : BitVec 32) : Rand where
  rand_m := 971
  rand_ia := 11113
  rand_ib := 104322
  rand_irand :=
    4181 + ((t.lo.setWidth 16 ^^^ (t.lo >>> 16).setWidth 16 ^^^ t.hi.setWidth 16 ^^^ (t.hi >>> 16).setWidth 16).setWidth 32
      + pid)

def true_random (rand : Rand) : BitVec 16 × Rand :=
  let rand_m := rand.rand_m + 7
  let rand_ia := rand.rand_ia + 1907
  let rand_ib := rand.rand_ib + 73939
  let rand_m := if 9973 ≤ rand_m then rand_m - 9871 else rand_m
  let rand_ia := if 99991 ≤ rand_ia then rand_ia - 89989 else rand_ia
  let rand_ib := if 224729 ≤ rand_ib then rand_ib - 96233 else rand_ib
  let rand_irand := rand.rand_irand * rand_m + rand_ia + rand_ib
  (((rand_irand >>> 16) ^^^ (rand_irand &&& RAND_MASK)).setWidth 16, ⟨rand_m, rand_ia, rand_ib, rand_irand⟩)

/-- `init`, which reads the clock for the seed and then for `time_last`. -/
def init (seedTime last : timeval) (pid : BitVec 32) : Globals :=
  let (clock_seq, rand) := true_random (true_random_init (uuid__get_os_time seedTime) pid)
  { time_last := uuid__get_os_time last, time_adjust := 0, clock_seq, rand, saved_addr := none }

/-- `CLOCK_SEQ_BUMP`, and past 0. -/
def bump (clkseq : BitVec 16) : BitVec 16 :=
  let clkseq := (clkseq + 1) &&& CLOCK_SEQ_LAST
  if clkseq = 0 then clkseq + 1 else clkseq

/-- `new_clock_seq`, on hosts without a clock sequence in stable storage. -/
def new_clock_seq (g : Globals) : Globals :=
  if g.clock_seq = 0 then
    let (clkseq, rand) := true_random g.rand
    { g with clock_seq := bump clkseq, rand }
  else { g with clock_seq := bump g.clock_seq }

/-- `uuid_get_address`, with what `uuid__get_os_address` would say. -/
def uuid_get_address (os_address : Option uuid_address_t) (g : Globals) : Option uuid_address_t × Globals :=
  match g.saved_addr with
  | some addr => (some addr, g)
  | none =>
    match os_address with
    | some addr => (some addr, { g with saved_addr := some addr })
    | none => (none, g)

/-- The `switch` of `uuid_create`, and whether it sets `got_no_time`. -/
def adjust (time_now : uuid_time_t) (g : Globals) : Globals × Bool :=
  match time_cmp time_now g.time_last with
  | .less_than => ({ new_clock_seq g with time_adjust := 0 }, false)
  | .greater_than => ({ g with time_adjust := 0 }, false)
  | .equal_to => if g.time_adjust = MAX_TIME_ADJUST then (g, true) else ({ g with time_adjust := g.time_adjust + 1 }, false)

/-- The loop of `uuid_create` over the readings of the clock: the time it ends with, and
the readings that are left, or nothing when it still runs after the last reading. -/
def readClock (got_no_time : Bool) (g : Globals) : List timeval → Option (uuid_time_t × Globals × List timeval)
  | [] => none
  | tp :: rest =>
    let time_now := uuid__get_os_time tp
    let (g, exhausted) := adjust time_now g
    let got_no_time := got_no_time || exhausted
    if got_no_time then readClock got_no_time g rest else some (time_now, g, rest)

def uuid_create (os_address : Option uuid_address_t) (g : Globals) (readings : List timeval) :
    Option (Except Status uuid_t × Globals × List timeval) :=
  match uuid_get_address os_address g with
  | (none, g) => some (.error .uuid_s_no_address, g, readings)
  | (some eaddr, g) =>
    match readClock false g readings with
    | none => none
    | some (time_now, g, rest) =>
      let g := { g with time_last := time_now }
      let time_now := if g.time_adjust ≠ 0 then UADD_UW_2_UVLW g.time_adjust time_now else time_now
      some (.ok (construct time_now g.clock_seq eaddr), g, rest)

/-- The identifiers that a sequence of calls returns, up to a call that does not return. -/
def uuids : List (Option uuid_address_t) → Globals → List timeval → List uuid_t
  | [], _, _ => []
  | os_address :: calls, g, readings =>
    match uuid_create os_address g readings with
    | none => []
    | some (.error _, g, rest) => uuids calls g rest
    | some (.ok uuid, g, rest) => uuid :: uuids calls g rest

/-- A call of the process starts with these variables and readings. -/
inductive Starts (g : Globals) (readings : List timeval) : Globals → List timeval → Prop where
  | first : Starts g readings g readings
  | next {g₁ g₂ : Globals} {rest₁ rest₂ : List timeval} {os_address : Option uuid_address_t} {result : Except Status uuid_t} :
      Starts g readings g₁ rest₁ → uuid_create os_address g₁ rest₁ = some (result, g₂, rest₂) → Starts g readings g₂ rest₂

/-- All identifiers that a process returns are pairwise different. -/
def Unique (g : Globals) (readings : List timeval) : Prop := ∀ calls, (uuids calls g readings).Nodup

/-- A call that has to wait for the clock to tick returns after the first later reading that differs. -/
def ReturnsOnTick (g : Globals) (readings : List timeval) : Prop :=
  ∀ g' tp spins tick rest os_address, Starts g readings g' (tp :: spins ++ tick :: rest) → g'.time_adjust = MAX_TIME_ADJUST →
    uuid__get_os_time tp = g'.time_last → (∀ t ∈ spins, uuid__get_os_time t = g'.time_last) →
    uuid__get_os_time tick ≠ g'.time_last → ∃ result g'', uuid_create os_address g' (tp :: spins ++ tick :: rest) = some (result, g'', rest)

def timeval.reading (tp : timeval) : ℕ := (uuid__get_os_time tp).value.toNat

/-- The readings up to a call that finds the adjustment exhausted. -/
def served : Stamper → List ℕ → List ℕ
  | _, [] => []
  | s, r :: rest => if r = s.last ∧ s.count = MAX_TIME_ADJUST.toNat then [] else r :: served (s.next r) rest

/-- No reading differs from the one that exhausts the adjustment. -/
def Ticks : Stamper → List ℕ → Prop
  | _, [] => True
  | s, r :: rest => if r = s.last ∧ s.count = MAX_TIME_ADJUST.toNat then ∀ t ∈ rest, t = r else Ticks (s.next r) rest

/-- The clock goes on past the times given for its last reading, and it stays where the
adjustment is exhausted. -/
def Accommodated : Stamper → List ℕ → Prop
  | _, [] => True
  | s, r :: rest =>
    if r = s.last ∧ s.count = MAX_TIME_ADJUST.toNat then ∀ t ∈ rest, t = r
    else (s.last < r → s.last + s.count < r) ∧ Accommodated (s.next r) rest

instance decidableAccommodated : (s : Stamper) → (readings : List ℕ) → Decidable (Accommodated s readings)
  | _, [] => .isTrue trivial
  | s, r :: rest =>
    have := decidableAccommodated (s.next r) rest
    inferInstanceAs (Decidable (if r = s.last ∧ s.count = MAX_TIME_ADJUST.toNat then ∀ t ∈ rest, t = r
      else (s.last < r → s.last + s.count < r) ∧ Accommodated (s.next r) rest))

theorem accommodated_iff (s : Stamper) (readings : List ℕ) :
    Accommodated s readings ↔ s.Steady (served s readings) ∧ Ticks s readings := by
  induction readings generalizing s with
  | nil => simp [Accommodated, served, Ticks, Stamper.Steady]
  | cons r rest ih =>
    rw [Accommodated, served, Ticks]
    split
    · exact (and_iff_right trivial).symm
    · rw [ih, Stamper.Steady, and_assoc]

theorem setbacks_served_le (s : Stamper) (readings : List ℕ) :
    Stamper.setbacks s.last (served s readings) ≤ Stamper.setbacks s.last readings := by
  induction readings generalizing s with
  | nil => exact Nat.le_refl _
  | cons r rest ih =>
    have hrest := ih (s.next r)
    rw [Stamper.next_last] at hrest
    rw [served]
    split
    · exact Nat.zero_le _
    · rw [Stamper.setbacks, Stamper.setbacks]
      omega

section construct

variable (time_now : uuid_time_t) (clock_seq : BitVec 16) (eaddr : uuid_address_t)

theorem toNat_low8 (x : BitVec 16) : ((x &&& CLOCK_SEQ_LOW_MASK).setWidth 8).toNat = x.toNat % 2 ^ 8 := by
  have hmask : (x &&& CLOCK_SEQ_LOW_MASK).toNat = x.toNat / 2 ^ 0 % 2 ^ 8 * 2 ^ 0 := and_mask x.toNat 0 8
  rw [BitVec.toNat_setWidth, hmask]
  omega

theorem toNat_high6 (x : BitVec 16) :
    (((x &&& CLOCK_SEQ_HIGH_MASK) >>> CLOCK_SEQ_HIGH_SHIFT_COUNT).setWidth 8).toNat = x.toNat / 2 ^ 8 % 2 ^ 6 := by
  have hmask : (x &&& CLOCK_SEQ_HIGH_MASK).toNat = x.toNat / 2 ^ 8 % 2 ^ 6 * 2 ^ 8 := and_mask x.toNat 8 6
  rw [BitVec.toNat_setWidth, BitVec.toNat_ushiftRight, hmask, Nat.shiftRight_eq_div_pow, CLOCK_SEQ_HIGH_SHIFT_COUNT]
  omega

theorem toNat_high12 (x : BitVec 32) :
    (((x &&& TIME_HIGH_MASK) >>> TIME_HIGH_SHIFT_COUNT).setWidth 16).toNat = x.toNat / 2 ^ 16 % 2 ^ 12 := by
  have hmask : (x &&& TIME_HIGH_MASK).toNat = x.toNat / 2 ^ 16 % 2 ^ 12 * 2 ^ 16 := and_mask x.toNat 16 12
  rw [BitVec.toNat_setWidth, BitVec.toNat_ushiftRight, hmask, Nat.shiftRight_eq_div_pow, TIME_HIGH_SHIFT_COUNT]
  omega

theorem or_mod_two_pow (n m w : ℕ) (hm : m % 2 ^ w = 0) : (n ||| m) % 2 ^ w = n % 2 ^ w := by
  rw [Nat.or_mod_two_pow, hm, Nat.or_zero]

theorem construct_eq : construct time_now clock_seq eaddr =
    { time_low := .ofNat 32 (time_now.value.toNat % 2 ^ 60)
      time_mid := .ofNat 16 (time_now.value.toNat % 2 ^ 60 / 2 ^ 32)
      time_hi_and_version := .ofNat 16 (time_now.value.toNat % 2 ^ 60 / 2 ^ 48) ||| UUID_VERSION_BITS
      clock_seq_low := .ofNat 8 (clock_seq.toNat % 2 ^ 14)
      clock_seq_hi_and_reserved := .ofNat 8 (clock_seq.toNat % 2 ^ 14 / 2 ^ 8) ||| UUID_RESERVED_BITS
      node := eaddr } := by
  have hlo := time_now.lo.isLt
  have hhi := time_now.hi.isLt
  have hseq := clock_seq.isLt
  rw [construct]
  congr 1
  · apply BitVec.eq_of_toNat_eq
    rw [BitVec.toNat_ofNat, toNat_value]
    omega
  · apply BitVec.eq_of_toNat_eq
    rw [BitVec.toNat_ofNat, BitVec.toNat_setWidth, TIME_MID_MASK, toNat_low16, toNat_value]
    omega
  · congr 1
    apply BitVec.eq_of_toNat_eq
    rw [toNat_high12, BitVec.toNat_ofNat, toNat_value]
    omega
  · congr 1
    apply BitVec.eq_of_toNat_eq
    rw [toNat_high6, BitVec.toNat_ofNat]
    omega
  · apply BitVec.eq_of_toNat_eq
    rw [toNat_low8, BitVec.toNat_ofNat]
    omega

theorem time_construct : (construct time_now clock_seq eaddr).time = time_now.value.toNat % 2 ^ 60 := by
  have hlt := time_now.value.isLt
  rw [construct_eq, uuid_t.time, BitVec.toNat_or, or_mod_two_pow _ _ _ (by decide)]
  simp only [BitVec.toNat_ofNat]
  omega

theorem clock_seq_construct : (construct time_now clock_seq eaddr).clock_seq = clock_seq.toNat % 2 ^ 14 := by
  rw [construct_eq, uuid_t.clock_seq, BitVec.toNat_or, or_mod_two_pow _ _ _ (by decide)]
  simp only [BitVec.toNat_ofNat]
  omega

end construct

theorem construct_inj {time₁ time₂ : uuid_time_t} {seq₁ seq₂ : BitVec 16} {eaddr : uuid_address_t}
    (htime : (construct time₁ seq₁ eaddr).time = (construct time₂ seq₂ eaddr).time)
    (hseq : (construct time₁ seq₁ eaddr).clock_seq = (construct time₂ seq₂ eaddr).clock_seq) :
    construct time₁ seq₁ eaddr = construct time₂ seq₂ eaddr := by
  rw [time_construct, time_construct] at htime
  rw [clock_seq_construct, clock_seq_construct] at hseq
  rw [construct_eq, construct_eq, htime, hseq]

theorem toNat_bump (c : BitVec 16) :
    (bump c).toNat = if (c.toNat + 1) % 2 ^ 14 = 0 then 1 else (c.toNat + 1) % 2 ^ 14 := by
  have hc := c.isLt
  have hmask : ((c + 1) &&& CLOCK_SEQ_LAST).toNat = (c + 1).toNat / 2 ^ 0 % 2 ^ 14 * 2 ^ 0 := and_mask (c + 1).toNat 0 14
  have hlow : ((c + 1) &&& CLOCK_SEQ_LAST).toNat = (c.toNat + 1) % 2 ^ 14 := by
    rw [hmask, BitVec.toNat_add, show (1 : BitVec 16).toNat = 1 from rfl]
    omega
  have hzero : (c + 1) &&& CLOCK_SEQ_LAST = 0 ↔ (c.toNat + 1) % 2 ^ 14 = 0 := by
    rw [← BitVec.toNat_inj, hlow]
    rfl
  simp only [bump, hzero]
  split
  · next h =>
    rw [BitVec.toNat_add, hlow, h]
    rfl
  · exact hlow

theorem bump_pos (c : BitVec 16) : 0 < (bump c).toNat ∧ (bump c).toNat < 2 ^ 14 := by
  have hc := Nat.mod_lt (c.toNat + 1) (show 0 < 2 ^ 14 by decide)
  rw [toNat_bump]
  split <;> omega

theorem toNat_bump_of_pos {c : BitVec 16} (hpos : 0 < c.toNat) (hlt : c.toNat < 2 ^ 14) :
    (bump c).toNat = c.toNat % 16383 + 1 := by
  rw [toNat_bump]
  split <;> omega

theorem new_clock_seq_pos (g : Globals) :
    0 < (new_clock_seq g).clock_seq.toNat ∧ (new_clock_seq g).clock_seq.toNat < 2 ^ 14 := by
  rw [new_clock_seq]
  split
  · exact bump_pos _
  · exact bump_pos _

theorem new_clock_seq_of_pos {g : Globals} (hpos : 0 < g.clock_seq.toNat) (hlt : g.clock_seq.toNat < 2 ^ 14) :
    (new_clock_seq g).clock_seq.toNat = g.clock_seq.toNat % 16383 + 1 := by
  have hne : g.clock_seq ≠ 0 := fun hzero => by simp [hzero] at hpos
  rw [new_clock_seq, if_neg hne]
  exact toNat_bump_of_pos hpos hlt

theorem new_clock_seq_saved_addr (g : Globals) : (new_clock_seq g).saved_addr = g.saved_addr := by
  have hsame : new_clock_seq g = { g with clock_seq := (new_clock_seq g).clock_seq, rand := (new_clock_seq g).rand } := by
    rw [new_clock_seq]
    split <;> rfl
  rw [hsame]

/-- The clock sequence in identifiers after the clock has been set back so many times. -/
def epochSeq (g : Globals) (epoch : ℕ) : ℕ :=
  if epoch = 0 then g.clock_seq.toNat % 2 ^ 14
  else ((new_clock_seq g).clock_seq.toNat - 1 + (epoch - 1)) % 16383 + 1

theorem epochSeq_inj (g : Globals) {a b : ℕ} (ha : a < 2 ^ 14 - 1) (hb : b < 2 ^ 14 - 1) (heq : epochSeq g a = epochSeq g b) :
    a = b := by
  have hc := g.clock_seq.isLt
  have hnew : g.clock_seq.toNat % 2 ^ 14 = 0 ∨
      (new_clock_seq g).clock_seq.toNat = g.clock_seq.toNat % 2 ^ 14 % 16383 + 1 := by
    by_cases hzero : g.clock_seq.toNat % 2 ^ 14 = 0
    · exact .inl hzero
    · have hne : g.clock_seq ≠ 0 := fun h => hzero (by rw [h]; rfl)
      rw [new_clock_seq, if_neg hne]
      refine .inr ?_
      rw [toNat_bump]
      split <;> omega
  obtain ⟨hpos, hlt⟩ := new_clock_seq_pos g
  unfold epochSeq at heq
  generalize (new_clock_seq g).clock_seq.toNat = c at *
  generalize g.clock_seq.toNat = z at *
  split_ifs at heq <;> omega

/-- The shared variables stand where the readings leave a source of stamps. -/
structure Matches (g₀ g : Globals) (s : Stamper) : Prop where
  last : g.time_last.value.toNat = s.last
  last_lt : s.last < 2 ^ 60 - 2 ^ 16
  count : g.time_adjust.toNat = s.count
  count_le : s.count ≤ MAX_TIME_ADJUST.toNat
  first : s.epoch = 0 → g.clock_seq = g₀.clock_seq ∧ g.rand = g₀.rand
  later : 0 < s.epoch →
    g.clock_seq.toNat = ((new_clock_seq g₀).clock_seq.toNat - 1 + (s.epoch - 1)) % 16383 + 1

variable {g₀ g : Globals} {s : Stamper} {time_now : uuid_time_t}

theorem Matches.clock_seq_eq (h : Matches g₀ g s) : g.clock_seq.toNat % 2 ^ 14 = epochSeq g₀ s.epoch := by
  rw [epochSeq]
  split
  · next hepoch => rw [(h.first hepoch).1]
  · next hepoch =>
    have hlater := h.later (Nat.pos_of_ne_zero hepoch)
    omega

theorem Matches.new_clock_seq_eq (h : Matches g₀ g s) :
    (new_clock_seq g).clock_seq.toNat = ((new_clock_seq g₀).clock_seq.toNat - 1 + s.epoch) % 16383 + 1 := by
  obtain ⟨hpos, hlt⟩ := new_clock_seq_pos g₀
  by_cases hepoch : s.epoch = 0
  · obtain ⟨hseq, hrand⟩ := h.first hepoch
    have hsame : (new_clock_seq g).clock_seq = (new_clock_seq g₀).clock_seq := by
      rw [new_clock_seq, new_clock_seq, hseq, hrand]
      split <;> rfl
    rw [hsame, hepoch]
    omega
  · have hlater := h.later (Nat.pos_of_ne_zero hepoch)
    rw [new_clock_seq_of_pos (by omega) (by omega), hlater]
    omega

theorem Matches.exhausted (h : Matches g₀ g s) (hlast : time_now.value.toNat = s.last) (hcount : s.count = MAX_TIME_ADJUST.toNat) :
    adjust time_now g = (g, true) := by
  have hadjust : g.time_adjust = MAX_TIME_ADJUST := BitVec.eq_of_toNat_eq (h.count.trans hcount)
  rw [adjust, time_cmp_eq, h.last, hlast, if_neg (Nat.lt_irrefl _), if_neg (Nat.lt_irrefl _)]
  exact if_pos hadjust

section adjust

variable (h : Matches g₀ g s)

include h

theorem Matches.less (hnow : time_now.value.toNat < 2 ^ 60 - 2 ^ 16) (hless : time_now.value.toNat < s.last) :
    Matches g₀ { new_clock_seq g with time_adjust := 0, time_last := time_now } (s.next time_now.value.toNat) := by
  rw [Stamper.next_less hless]
  exact ⟨rfl, hnow, rfl, Nat.zero_le _, fun hepoch => absurd hepoch (Nat.succ_ne_zero _), fun _ => h.new_clock_seq_eq⟩

theorem Matches.equal (hequal : time_now.value.toNat = s.last) (hcount : s.count < MAX_TIME_ADJUST.toNat) :
    Matches g₀ { g with time_adjust := g.time_adjust + 1, time_last := time_now } (s.next time_now.value.toNat) := by
  have hmax : MAX_TIME_ADJUST.toNat = 32767 := rfl
  rw [hequal, Stamper.next_equal]
  refine ⟨hequal, h.last_lt, ?_, hcount, h.first, h.later⟩
  rw [BitVec.toNat_add, h.count, show (1 : BitVec 16).toNat = 1 from rfl]
  exact Nat.mod_eq_of_lt (by omega)

theorem Matches.greater (hnow : time_now.value.toNat < 2 ^ 60 - 2 ^ 16) (hgreater : s.last < time_now.value.toNat) :
    Matches g₀ { g with time_adjust := 0, time_last := time_now } (s.next time_now.value.toNat) := by
  rw [Stamper.next_greater hgreater]
  exact ⟨rfl, hnow, rfl, Nat.zero_le _, h.first, h.later⟩

theorem Matches.adjust_eq (hnow : time_now.value.toNat < 2 ^ 60 - 2 ^ 16)
    (hfree : ¬(time_now.value.toNat = s.last ∧ s.count = MAX_TIME_ADJUST.toNat)) :
    ∃ g', adjust time_now g = (g', false) ∧ g'.saved_addr = g.saved_addr ∧
      Matches g₀ { g' with time_last := time_now } (s.next time_now.value.toNat) := by
  rw [adjust, time_cmp_eq, h.last]
  obtain hless | hequal | hgreater := Nat.lt_trichotomy time_now.value.toNat s.last
  · rw [if_pos hless]
    exact ⟨_, rfl, new_clock_seq_saved_addr g, h.less hnow hless⟩
  · have hne : g.time_adjust ≠ MAX_TIME_ADJUST := fun heq => hfree ⟨hequal, by rw [← h.count, heq]⟩
    have hlt : s.count < MAX_TIME_ADJUST.toNat := Nat.lt_of_le_of_ne h.count_le fun heq => hfree ⟨hequal, heq⟩
    rw [if_neg (by omega), if_neg (by omega)]
    simp only [if_neg hne]
    exact ⟨_, rfl, rfl, h.equal hequal hlt⟩
  · rw [if_neg (Nat.lt_asymm hgreater), if_pos hgreater]
    exact ⟨_, rfl, rfl, h.greater hnow hgreater⟩

end adjust

theorem readClock_true (g : Globals) (readings : List timeval) : readClock true g readings = none := by
  induction readings generalizing g with
  | nil => rfl
  | cons tp rest ih => exact ih _

theorem Matches.stamp_eq (h : Matches g₀ g s) (hlast : g.time_last = time_now) (eaddr : uuid_address_t) :
    let uuid := construct (if g.time_adjust ≠ 0 then UADD_UW_2_UVLW g.time_adjust time_now else time_now) g.clock_seq eaddr
    (uuid.clock_seq, uuid.time) = (epochSeq g₀ s.epoch, s.last + s.count) := by
  have hlt := h.last_lt
  have hle := h.count_le
  have hmax : MAX_TIME_ADJUST.toNat = 32767 := rfl
  have hsum : (if g.time_adjust ≠ 0 then UADD_UW_2_UVLW g.time_adjust time_now else time_now).value.toNat = s.last + s.count := by
    subst hlast
    split
    · rw [toNat_UADD_UW_2_UVLW, h.count, h.last]
      omega
    · next hzero =>
      have hcount := h.count
      rw [not_not.mp hzero] at hcount
      rw [h.last, ← hcount]
      rfl
  refine Prod.ext ?_ ?_
  · exact (clock_seq_construct _ _ _).trans h.clock_seq_eq
  · refine (time_construct _ _ _).trans ?_
    rw [hsum]
    omega

theorem uuid_get_address_eq (os_address : Option uuid_address_t) (g : Globals) : uuid_get_address os_address g =
    (g.saved_addr.or os_address, { g with saved_addr := g.saved_addr.or os_address }) := by
  obtain ⟨time_last, time_adjust, clock_seq, rand, saved_addr⟩ := g
  cases saved_addr <;> cases os_address <;> rfl

variable {os_address : Option uuid_address_t} {readings : List timeval}

theorem uuid_create_no_address
    (haddr : g.saved_addr.or os_address = none) :
    uuid_create os_address g readings = some (.error .uuid_s_no_address, g, readings) := by
  have hsaved : g.saved_addr = none := (Option.or_eq_none_iff.mp haddr).1
  obtain ⟨time_last, time_adjust, clock_seq, rand, saved_addr⟩ := g
  subst hsaved
  simp only [uuid_create, uuid_get_address_eq, haddr]

theorem uuid_create_address {eaddr : uuid_address_t}
    (haddr : g.saved_addr.or os_address = some eaddr) :
    uuid_create os_address g readings = (readClock false { g with saved_addr := some eaddr } readings).map fun r =>
      (.ok (construct (if r.2.1.time_adjust ≠ 0 then UADD_UW_2_UVLW r.2.1.time_adjust r.1 else r.1) r.2.1.clock_seq eaddr),
        { r.2.1 with time_last := r.1 }, r.2.2) := by
  simp only [uuid_create, uuid_get_address_eq, haddr]
  cases hclock : readClock false { g with saved_addr := some eaddr } readings with
  | none => simp only [Option.map_none]
  | some r => simp only [Option.map_some]

theorem Matches.saved (h : Matches g₀ g s) (addr : Option uuid_address_t) : Matches g₀ { g with saved_addr := addr } s :=
  ⟨h.last, h.last_lt, h.count, h.count_le, h.first, h.later⟩

theorem Matches.create_exhausted (h : Matches g₀ g s) {eaddr : uuid_address_t}
    (haddr : g.saved_addr.or os_address = some eaddr) {tp : timeval} (rest : List timeval)
    (hlast : tp.reading = s.last) (hcount : s.count = MAX_TIME_ADJUST.toNat) :
    uuid_create os_address g (tp :: rest) = none := by
  rw [uuid_create_address haddr, readClock, (h.saved (some eaddr)).exhausted hlast hcount]
  simp [readClock_true]

theorem Matches.create (h : Matches g₀ g s) {eaddr : uuid_address_t}
    (haddr : g.saved_addr.or os_address = some eaddr) (tp : timeval) (rest : List timeval)
    (hfree : ¬(tp.reading = s.last ∧ s.count = MAX_TIME_ADJUST.toNat)) :
    ∃ now seq g', uuid_create os_address g (tp :: rest) = some (.ok (construct now seq eaddr), g', rest) ∧
      g'.saved_addr = some eaddr ∧ Matches g₀ g' (s.next tp.reading) ∧
      ((construct now seq eaddr).clock_seq, (construct now seq eaddr).time) =
        ((s.next tp.reading).stamp.map (epochSeq g₀) id) := by
  obtain ⟨g', hadjust, hsaved, hmatches⟩ := (h.saved (some eaddr)).adjust_eq (uuid__get_os_time_lt tp) hfree
  rw [uuid_create_address haddr, readClock, hadjust]
  exact ⟨_, _, _, rfl, hsaved, hmatches, hmatches.stamp_eq rfl eaddr⟩

/-- The time and the clock sequence of an identifier. -/
def uuid_t.stamp (uuid : uuid_t) : ℕ × ℕ := (uuid.clock_seq, uuid.time)

/-- The stamps that a process can give, as they stand in its identifiers. -/
def expected (g₀ : Globals) (s : Stamper) (readings : List timeval) : List (ℕ × ℕ) :=
  (s.stamps (served s (readings.map timeval.reading))).map (Prod.map (epochSeq g₀) id)

theorem Matches.uuids_prefix (h : Matches g₀ g s) (calls : List (Option uuid_address_t)) (readings : List timeval) :
    (uuids calls g readings).map uuid_t.stamp <+: expected g₀ s readings := by
  induction calls generalizing g s readings with
  | nil => exact List.nil_prefix
  | cons os_address calls ih =>
    cases haddr : g.saved_addr.or os_address with
    | none =>
      rw [uuids, uuid_create_no_address haddr]
      exact ih h readings
    | some eaddr =>
      cases readings with
      | nil =>
        rw [uuids, uuid_create_address haddr]
        exact List.nil_prefix
      | cons tp rest =>
        by_cases hfree : tp.reading = s.last ∧ s.count = MAX_TIME_ADJUST.toNat
        · rw [uuids, h.create_exhausted haddr rest hfree.1 hfree.2]
          exact List.nil_prefix
        · obtain ⟨now, seq, g', hcreate, _, hmatches, hstamp⟩ := h.create haddr tp rest hfree
          have hserved := served.eq_2 s tp.reading (rest.map timeval.reading)
          rw [uuids, hcreate, expected, List.map_cons, List.map_cons, hserved, if_neg hfree, Stamper.stamps, List.map_cons]
          exact List.cons_prefix_cons.mpr ⟨hstamp, ih hmatches rest⟩

theorem Matches.uuids_all (h : Matches g₀ g s) (eaddr : uuid_address_t) (readings : List timeval) :
    ∃ eaddr', (uuids (List.replicate readings.length (some eaddr)) g readings).map uuid_t.stamp = expected g₀ s readings ∧
      ∀ uuid ∈ uuids (List.replicate readings.length (some eaddr)) g readings, ∃ now seq, uuid = construct now seq eaddr' := by
  obtain ⟨eaddr', haddr⟩ : ∃ eaddr', g.saved_addr.or (some eaddr) = some eaddr' := by
    cases g.saved_addr with
    | none => exact ⟨eaddr, rfl⟩
    | some addr => exact ⟨addr, rfl⟩
  refine ⟨eaddr', ?_⟩
  induction readings generalizing g s with
  | nil => simp [uuids, expected, served, Stamper.stamps]
  | cons tp rest ih =>
    have hserved := served.eq_2 s tp.reading (rest.map timeval.reading)
    rw [List.length_cons, List.replicate_succ, uuids, expected, List.map_cons, hserved]
    by_cases hfree : tp.reading = s.last ∧ s.count = MAX_TIME_ADJUST.toNat
    · rw [h.create_exhausted haddr rest hfree.1 hfree.2, if_pos hfree]
      exact ⟨rfl, by simp⟩
    · obtain ⟨now, seq, g', hcreate, hsaved, hmatches, hstamp⟩ := h.create haddr tp rest hfree
      obtain ⟨hall, hnodes⟩ := ih hmatches (by rw [hsaved]; rfl)
      rw [hcreate, if_neg hfree, Stamper.stamps, List.map_cons, List.map_cons]
      refine ⟨congrArg₂ List.cons hstamp hall, fun uuid hmem => ?_⟩
      obtain rfl | hmem := List.mem_cons.mp hmem
      · exact ⟨now, seq, rfl⟩
      · exact hnodes uuid hmem

theorem nodup_expected_iff {last : ℕ}
    (hback : Stamper.setbacks last (readings.map timeval.reading) < 2 ^ 14 - 1) :
    (expected g₀ ⟨last, 0, 0⟩ readings).Nodup ↔
      Stamper.Steady ⟨last, 0, 0⟩ (served ⟨last, 0, 0⟩ (readings.map timeval.reading)) := by
  have hserved := setbacks_served_le ⟨last, 0, 0⟩ (readings.map timeval.reading)
  rw [expected, ← Stamper.nodup_stamps_iff]
  refine ⟨List.Nodup.of_map _, fun hnodup => hnodup.map_on fun x hx y hy heq => ?_⟩
  have hxepoch := Stamper.epoch_of_mem hx
  have hyepoch := Stamper.epoch_of_mem hy
  simp only [Nat.zero_add] at hserved hxepoch hyepoch
  obtain ⟨hseq, htime⟩ := Prod.mk.inj heq
  exact Prod.ext (epochSeq_inj g₀ (by omega) (by omega) hseq) htime

theorem Matches.starts (h : Matches g₀ g s) (hticks : Ticks s (readings.map timeval.reading))
    {g' : Globals} {rest : List timeval} (hstarts : Starts g readings g' rest) :
    ∃ s', Matches g₀ g' s' ∧ Ticks s' (rest.map timeval.reading) := by
  induction hstarts with
  | first => exact ⟨s, h, hticks⟩
  | @next g₁ g₂ rest₁ rest₂ os_address result _ hcreate ih =>
    obtain ⟨s', hmatches, hticks⟩ := ih
    cases haddr : g₁.saved_addr.or os_address with
    | none =>
      rw [uuid_create_no_address haddr] at hcreate
      obtain ⟨_, rfl, rfl⟩ := Prod.mk.inj (Option.some.inj hcreate)
      exact ⟨s', hmatches, hticks⟩
    | some eaddr =>
      cases rest₁ with
      | nil => simp [uuid_create_address haddr, readClock] at hcreate
      | cons tp rest =>
        by_cases hfree : tp.reading = s'.last ∧ s'.count = MAX_TIME_ADJUST.toNat
        · simp [hmatches.create_exhausted haddr rest hfree.1 hfree.2] at hcreate
        · obtain ⟨_, _, g', hcreate', _, hmatches', _⟩ := hmatches.create haddr tp rest hfree
          rw [hcreate'] at hcreate
          obtain ⟨_, rfl, rfl⟩ := Prod.mk.inj (Option.some.inj hcreate)
          rw [List.map_cons, Ticks, if_neg hfree] at hticks
          exact ⟨_, hmatches', hticks⟩

theorem reading_eq_iff {tp : timeval} {time : uuid_time_t} : uuid__get_os_time tp = time ↔ tp.reading = time.value.toNat := by
  exact ⟨fun h => by rw [timeval.reading, h], value_inj⟩

theorem Matches.returns_of_ticks (h : Matches g₀ g s)
    (hticks : Ticks s (readings.map timeval.reading)) : ReturnsOnTick g readings := by
  intro g' tp spins tick rest os_address hstarts hadjust hlast _ hdiffers
  obtain ⟨s', hmatches, hticks'⟩ := h.starts hticks hstarts
  have htp : tp.reading = s'.last := (reading_eq_iff.mp hlast).trans hmatches.last
  have hcount : s'.count = MAX_TIME_ADJUST.toNat := by rw [← hmatches.count, hadjust]
  rw [List.cons_append, List.map_cons, Ticks, if_pos ⟨htp, hcount⟩] at hticks'
  have htick := hticks' tick.reading (List.mem_map_of_mem (by simp))
  exact absurd (reading_eq_iff.mpr (htick.trans (reading_eq_iff.mp hlast))) hdiffers

theorem exists_tick {time : ℕ} {rest : List timeval} (hdiffers : ∃ t ∈ rest, t.reading ≠ time) :
    ∃ spins tick rest', rest = spins ++ tick :: rest' ∧ (∀ t ∈ spins, t.reading = time) ∧ tick.reading ≠ time := by
  induction rest with
  | nil => simp at hdiffers
  | cons t rest ih =>
    by_cases ht : t.reading = time
    · obtain ⟨t', hmem, hne⟩ := hdiffers
      obtain ⟨spins, tick, rest', rfl, hspins, htick⟩ := ih ⟨t', List.mem_of_ne_of_mem (fun h => hne (h ▸ ht)) hmem, hne⟩
      exact ⟨t :: spins, tick, rest', rfl, List.forall_mem_cons.mpr ⟨ht, hspins⟩, htick⟩
    · exact ⟨[], t, rest, rfl, by simp, ht⟩

theorem Matches.ticks_of_returns (h : Matches g₀ g s) (eaddr : uuid_address_t) {readings all : List timeval} {start : Globals}
    (hstarts : Starts start all g readings) (hreturns : ReturnsOnTick start all) :
    Ticks s (readings.map timeval.reading) := by
  induction readings generalizing g s with
  | nil => trivial
  | cons tp rest ih =>
    rw [List.map_cons, Ticks]
    obtain ⟨eaddr', haddr⟩ : ∃ eaddr', g.saved_addr.or (some eaddr) = some eaddr' := by
      cases g.saved_addr with
      | none => exact ⟨eaddr, rfl⟩
      | some addr => exact ⟨addr, rfl⟩
    split
    · next hexhausted =>
      by_contra hnot
      obtain ⟨spins, tick, rest', rfl, hspins, htick⟩ := exists_tick (by simpa using hnot)
      have hlast : tp.reading = g.time_last.value.toNat := hexhausted.1.trans h.last.symm
      obtain ⟨result, g'', hcreate⟩ := hreturns g tp spins tick rest' (some eaddr) hstarts
        (BitVec.eq_of_toNat_eq (h.count.trans hexhausted.2)) (reading_eq_iff.mpr hlast)
        (fun t ht => reading_eq_iff.mpr ((hspins t ht).trans hlast))
        (fun heq => htick ((reading_eq_iff.mp heq).trans hlast.symm))
      rw [List.cons_append, h.create_exhausted haddr _ hexhausted.1 hexhausted.2] at hcreate
      simp at hcreate
    · next hfree =>
      obtain ⟨_, _, g', hcreate, _, hmatches, _⟩ := h.create haddr tp rest hfree
      exact ih hmatches (hstarts.next hcreate)

theorem matches_init (seedTime last : timeval) (pid : BitVec 32) :
    Matches (init seedTime last pid) (init seedTime last pid) ⟨last.reading, 0, 0⟩ where
  last := rfl
  last_lt := uuid__get_os_time_lt last
  count := rfl
  count_le := Nat.zero_le _
  first _ := ⟨rfl, rfl⟩
  later h := absurd h (Nat.lt_irrefl 0)

/-- A process creates different identifiers, and returns when the clock ticks, exactly as long as the clock goes past
the adjustments and never exhausts them. -/
theorem uuid_create_unique_iff (seedTime last : timeval) (pid : BitVec 32) (readings : List timeval)
    (hback : Stamper.setbacks last.reading (readings.map timeval.reading) < 2 ^ 14 - 1) :
    (Unique (init seedTime last pid) readings ∧ ReturnsOnTick (init seedTime last pid) readings) ↔
      Accommodated ⟨last.reading, 0, 0⟩ (readings.map timeval.reading) := by
  have hmatches := matches_init seedTime last pid
  let eaddr : uuid_address_t := ⟨[0, 0, 0, 0, 0, 0], rfl⟩
  rw [accommodated_iff, ← nodup_expected_iff hback]
  constructor
  · intro ⟨hunique, hreturns⟩
    refine ⟨?_, hmatches.ticks_of_returns eaddr .first hreturns⟩
    obtain ⟨eaddr', hall, hnodes⟩ := hmatches.uuids_all eaddr readings
    rw [← hall]
    refine (hunique _).map_on fun x hx y hy heq => ?_
    obtain ⟨now, seq, rfl⟩ := hnodes x hx
    obtain ⟨now', seq', rfl⟩ := hnodes y hy
    obtain ⟨hseq, htime⟩ := Prod.mk.inj heq
    exact construct_inj htime hseq
  · intro ⟨hnodup, hticks⟩
    refine ⟨fun calls => ?_, hmatches.returns_of_ticks hticks⟩
    exact .of_map _ (hnodup.sublist (hmatches.uuids_prefix calls readings).sublist)

/-- A clock that ticks after every call is followed. -/
theorem uuid_create_unique_each_tick :
    Unique (init ⟨1, 0⟩ ⟨1, 0⟩ 7) [⟨1, 1⟩, ⟨1, 2⟩, ⟨1, 2⟩, ⟨0, 5⟩] ∧
      ReturnsOnTick (init ⟨1, 0⟩ ⟨1, 0⟩ 7) [⟨1, 1⟩, ⟨1, 2⟩, ⟨1, 2⟩, ⟨0, 5⟩] :=
  (uuid_create_unique_iff ⟨1, 0⟩ ⟨1, 0⟩ 7 [⟨1, 1⟩, ⟨1, 2⟩, ⟨1, 2⟩, ⟨0, 5⟩] (by decide +kernel)).mpr (by decide +kernel)

/-- Ten calls in one microsecond, and one in the next: the last identifier is the one before again. -/
theorem identifier_created_twice :
    Stamper.setbacks (timeval.reading ⟨1, 0⟩) ((List.replicate 10 (⟨1, 0⟩ : timeval) ++ [(⟨1, 1⟩ : timeval)]).map timeval.reading) <
        2 ^ 14 - 1 ∧
      ¬Unique (init ⟨1, 0⟩ ⟨1, 0⟩ 7) (List.replicate 10 ⟨1, 0⟩ ++ [⟨1, 1⟩]) := by
  refine ⟨by decide +kernel, fun hunique => ?_⟩
  have htwice : ¬(uuids (List.replicate 11 (some ⟨[8, 0, 9, 1, 2, 3], rfl⟩)) (init ⟨1, 0⟩ ⟨1, 0⟩ 7)
      (List.replicate 10 ⟨1, 0⟩ ++ [⟨1, 1⟩])).Nodup := by decide +kernel
  exact htwice (hunique _)

end dce.rpc
