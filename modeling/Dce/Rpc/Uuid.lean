import Dce.Dts.Arith

open lib dce.dts

set_option linter.style.nameCheck false

namespace dce.rpc

/-- `uuid_address_t`: the six bytes of a hardware address. -/
structure uuid_address_t where
  eaddr : List Byte
  length : eaddr.length = 6
  deriving DecidableEq

structure uuid_t where
  time_low : BitVec 32
  time_mid : BitVec 16
  time_hi_and_version : BitVec 16
  clock_seq_hi_and_reserved : Byte
  clock_seq_low : Byte
  node : uuid_address_t
  deriving DecidableEq

/-- `uuid_time_t`, `unsigned64_t`: a number in two words. -/
abbrev uuid_time_t := unsigned64

/-- `UADD_UVLW_2_UVLW`: the sum of two numbers in two words, the carry found from the sign bits. -/
def UADD_UVLW_2_UVLW (add1 add2 : unsigned64) : unsigned64 :=
  if (add1.lo &&& SIGN) ^^^ (add2.lo &&& SIGN) = 0 then
    if add1.lo &&& SIGN ≠ 0 then { lo := add1.lo + add2.lo, hi := add1.hi + add2.hi + 1 }
    else { lo := add1.lo + add2.lo, hi := add1.hi + add2.hi }
  else
    let sum : unsigned64 := { lo := add1.lo + add2.lo, hi := add1.hi + add2.hi }
    if sum.lo &&& SIGN = 0 then { sum with hi := sum.hi + 1 } else sum

/-- `UADD_UW_2_UVLW`: the sum of a word of 16 bits and a number in two words. -/
def UADD_UW_2_UVLW (add1 : BitVec 16) (add2 : unsigned64) : unsigned64 :=
  let sum : unsigned64 := { lo := add1.setWidth 32 + add2.lo, hi := add2.hi }
  if add2.lo &&& SIGN ≠ 0 then
    if sum.lo &&& SIGN = 0 then { sum with hi := sum.hi + 1 } else sum
  else sum

/-- `struct timeval`, as `gettimeofday` fills it. -/
structure timeval where
  tv_sec : BitVec 32
  tv_usec : BitVec 32
  deriving DecidableEq, Repr

def UUID_C_100NS_PER_SEC : BitVec 32 := 10000000
def UUID_C_100NS_PER_USEC : BitVec 32 := 10

def os_basetime_diff : unsigned64 where
  lo := 0x13814000
  hi := 0x01B21DD2

/-- `uuid__get_os_time`: the clock in units of 100 nanoseconds. `uuid__uemul` is the routine
that the time service has as `uemul`. -/
def uuid__get_os_time (tp : timeval) : uuid_time_t :=
  let utc := uemul tp.tv_sec UUID_C_100NS_PER_SEC
  let usecs := uemul tp.tv_usec UUID_C_100NS_PER_USEC
  let utc := UADD_UVLW_2_UVLW usecs utc
  UADD_UVLW_2_UVLW utc os_basetime_diff

inductive uuid_compval_t where
  | less_than
  | equal_to
  | greater_than
  deriving DecidableEq, Repr

def time_cmp (time1 time2 : uuid_time_t) : uuid_compval_t :=
  if time1.hi < time2.hi then .less_than
  else if time2.hi < time1.hi then .greater_than
  else if time1.lo < time2.lo then .less_than
  else if time2.lo < time1.lo then .greater_than
  else .equal_to

def TIME_MID_MASK : BitVec 32 := 0x0000ffff
def TIME_HIGH_MASK : BitVec 32 := 0x0fff0000
def TIME_HIGH_SHIFT_COUNT : ℕ := 16
def CLOCK_SEQ_LOW_MASK : BitVec 16 := 0xff
def CLOCK_SEQ_HIGH_MASK : BitVec 16 := 0x3f00
def CLOCK_SEQ_HIGH_SHIFT_COUNT : ℕ := 8

/-- `uuid_c_version << 12`. -/
def UUID_VERSION_BITS : BitVec 16 := 1 <<< 12

def UUID_RESERVED_BITS : Byte := 0x80

/-- The end of `uuid_create`: the identifier from the time, the clock sequence and the address. -/
def construct (time_now : uuid_time_t) (clock_seq : BitVec 16) (eaddr : uuid_address_t) : uuid_t where
  time_low := time_now.lo
  time_mid := (time_now.hi &&& TIME_MID_MASK).setWidth 16
  time_hi_and_version := ((time_now.hi &&& TIME_HIGH_MASK) >>> TIME_HIGH_SHIFT_COUNT).setWidth 16 ||| UUID_VERSION_BITS
  clock_seq_low := (clock_seq &&& CLOCK_SEQ_LOW_MASK).setWidth 8
  clock_seq_hi_and_reserved :=
    ((clock_seq &&& CLOCK_SEQ_HIGH_MASK) >>> CLOCK_SEQ_HIGH_SHIFT_COUNT).setWidth 8 ||| UUID_RESERVED_BITS
  node := eaddr

/-- The time in an identifier, without the bits of its version. -/
def uuid_t.time (uuid : uuid_t) : ℕ :=
  uuid.time_hi_and_version.toNat % 2 ^ 12 * 2 ^ 48 + uuid.time_mid.toNat * 2 ^ 32 + uuid.time_low.toNat

/-- The clock sequence in an identifier, without the reserved bits. -/
def uuid_t.clock_seq (uuid : uuid_t) : ℕ :=
  uuid.clock_seq_hi_and_reserved.toNat % 2 ^ 6 * 2 ^ 8 + uuid.clock_seq_low.toNat

theorem sign_xor (x y : BitVec 32) : (x &&& SIGN) ^^^ (y &&& SIGN) = (x ^^^ y) &&& SIGN := by
  apply BitVec.eq_of_getElem_eq
  intro i hi
  simp only [BitVec.getElem_xor, BitVec.getElem_and]
  exact (Bool.and_xor_distrib_right _ _ _).symm

theorem toNat_UADD_UVLW_2_UVLW (a b : unsigned64) :
    (UADD_UVLW_2_UVLW a b).value.toNat = (a.value.toNat + b.value.toNat) % 2 ^ 64 := by
  have ha := a.lo.isLt
  have hb := b.lo.isLt
  have hahi := a.hi.isLt
  have hbhi := b.hi.isLt
  have hxor : (a.lo &&& SIGN) ^^^ (b.lo &&& SIGN) = 0 ↔ (2 ^ 31 ≤ a.lo.toNat ↔ 2 ^ 31 ≤ b.lo.toNat) := by
    rw [sign_xor, ← not_iff_not, ← ne_eq, sign_iff, BitVec.msb_xor, ← msb_iff, ← msb_iff]
    cases a.lo.msb <;> cases b.lo.msb <;> simp
  have hsign : a.lo &&& SIGN ≠ 0 ↔ 2 ^ 31 ≤ a.lo.toNat := by rw [sign_iff, msb_iff]
  have hsum : (a.lo + b.lo) &&& SIGN = 0 ↔ (a.lo.toNat + b.lo.toNat) % 2 ^ 32 < 2 ^ 31 := by
    rw [← not_iff_not, ← ne_eq, sign_iff, msb_iff, BitVec.toNat_add]
    omega
  rw [toNat_value a, toNat_value b, UADD_UVLW_2_UVLW]
  simp only [hxor, hsign, hsum]
  split_ifs <;> simp only [toNat_value, BitVec.toNat_add, BitVec.ofNat_eq_ofNat, BitVec.toNat_ofNat] <;> omega

theorem toNat_UADD_UW_2_UVLW (a : BitVec 16) (b : unsigned64) :
    (UADD_UW_2_UVLW a b).value.toNat = (a.toNat + b.value.toNat) % 2 ^ 64 := by
  have ha := a.isLt
  have hb := b.lo.isLt
  have hbhi := b.hi.isLt
  have hwide : (a.setWidth 32).toNat = a.toNat := BitVec.toNat_setWidth_of_le (by decide)
  have hsign : b.lo &&& SIGN ≠ 0 ↔ 2 ^ 31 ≤ b.lo.toNat := by rw [sign_iff, msb_iff]
  have hsum : (a.setWidth 32 + b.lo) &&& SIGN = 0 ↔ (a.toNat + b.lo.toNat) % 2 ^ 32 < 2 ^ 31 := by
    rw [← not_iff_not, ← ne_eq, sign_iff, msb_iff, BitVec.toNat_add, hwide]
    omega
  rw [toNat_value b, UADD_UW_2_UVLW]
  simp only [hsign, hsum]
  split_ifs <;> simp only [toNat_value, BitVec.toNat_add, BitVec.ofNat_eq_ofNat, BitVec.toNat_ofNat, hwide] <;> omega

theorem toNat_uuid__get_os_time (tp : timeval) : (uuid__get_os_time tp).value.toNat =
    tp.tv_sec.toNat * 10000000 + tp.tv_usec.toNat * 10 + os_basetime_diff.value.toNat := by
  have hsec := tp.tv_sec.isLt
  have husec := tp.tv_usec.isLt
  have hdiff : os_basetime_diff.value.toNat = 122192928000000000 := by decide
  rw [uuid__get_os_time, toNat_UADD_UVLW_2_UVLW, toNat_UADD_UVLW_2_UVLW, toNat_uemul, toNat_uemul, hdiff]
  simp only [UUID_C_100NS_PER_SEC, UUID_C_100NS_PER_USEC, BitVec.ofNat_eq_ofNat, BitVec.toNat_ofNat]
  omega

theorem uuid__get_os_time_lt (tp : timeval) : (uuid__get_os_time tp).value.toNat < 2 ^ 60 - 2 ^ 16 := by
  have hsec := tp.tv_sec.isLt
  have husec := tp.tv_usec.isLt
  have hdiff : os_basetime_diff.value.toNat = 122192928000000000 := by decide
  rw [toNat_uuid__get_os_time, hdiff]
  omega

theorem value_inj {a b : unsigned64} (h : a.value.toNat = b.value.toNat) : a = b := by
  obtain ⟨ahi, alo⟩ := a
  obtain ⟨bhi, blo⟩ := b
  have ha := alo.isLt
  have hb := blo.isLt
  rw [toNat_value, toNat_value] at h
  simp only at h
  rw [BitVec.eq_of_toNat_eq (x := ahi) (y := bhi) (by omega), BitVec.eq_of_toNat_eq (x := alo) (y := blo) (by omega)]

theorem time_cmp_eq (a b : uuid_time_t) : time_cmp a b =
    if a.value.toNat < b.value.toNat then .less_than
    else if b.value.toNat < a.value.toNat then .greater_than
    else .equal_to := by
  have ha := a.lo.isLt
  have hb := b.lo.isLt
  have hhi : a.hi < b.hi ↔ a.hi.toNat < b.hi.toNat := BitVec.lt_def
  have hhi' : b.hi < a.hi ↔ b.hi.toNat < a.hi.toNat := BitVec.lt_def
  have hlo : a.lo < b.lo ↔ a.lo.toNat < b.lo.toNat := BitVec.lt_def
  have hlo' : b.lo < a.lo ↔ b.lo.toNat < a.lo.toNat := BitVec.lt_def
  rw [time_cmp, toNat_value, toNat_value]
  simp only [hhi, hhi', hlo, hlo']
  split_ifs <;> first | rfl | omega

end dce.rpc
