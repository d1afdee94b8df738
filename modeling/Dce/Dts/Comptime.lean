import Dce.Lib.ByteOrder

namespace dce.dts

/-- `UTCValue`: a count of 100 ns, in two's complement where it is a time. -/
abbrev UTCValue := BitVec 64

/-- `ExtInacc`, an inaccuracy. -/
abbrev ExtInacc := BitVec 64

/-- `IsUTClt`, a signed comparison. -/
def IsUTClt (a b : UTCValue) : Bool := a.slt b

def IsUTCgt (a b : UTCValue) : Bool := b.slt a

def UTCadd (add1 add2 : UTCValue) : UTCValue := add1 + add2

def UTCsub (sub1 sub2 : UTCValue) : UTCValue := sub1 - sub2

/-- `UTCiAdd`: the sum with a signed integer. -/
def UTCiAdd (add1 : UTCValue) (I : ℤ) : UTCValue := add1 + BitVec.ofInt 64 I

/-- `UTCdivideBy2`, a shift of unsigned words. -/
def UTCdivideBy2 (num : UTCValue) : UTCValue := num >>> 1

/-- `UTClow`, the word with the lowest bit. -/
def UTClow (num : UTCValue) : UTCValue := num

def K_INFINITE_INACC : ExtInacc := 0xFFFFFFFFFFFF

/-- `IsInfiniteInacc`, an unsigned comparison. -/
def IsInfiniteInacc (extInacc : ExtInacc) : Bool := K_INFINITE_INACC.ule extInacc

theorem IsUTClt_iff {a b : UTCValue} : IsUTClt a b = true ↔ a.toInt < b.toInt := by
  simp [IsUTClt, BitVec.slt]

theorem IsUTCgt_iff {a b : UTCValue} : IsUTCgt a b = true ↔ b.toInt < a.toInt := by
  simp [IsUTCgt, BitVec.slt]

theorem IsInfiniteInacc_iff {inacc : ExtInacc} : IsInfiniteInacc inacc = true ↔ 2 ^ 48 - 1 ≤ inacc.toNat := by
  simp [IsInfiniteInacc, BitVec.ule, K_INFINITE_INACC]

open lib

/-- The widths of a `long` that the source has a variant for. -/
inductive LongBit where
  | b32
  | b64
  deriving DecidableEq, Repr

/-- What the text of the source depends on of a host. -/
structure Host where
  BYTE_ORDER : ByteOrder
  LONG_BIT : LongBit
  deriving DecidableEq, Repr

/-- Why a call gives no values. -/
inductive Failure where
  /-- It returns -1. -/
  | invalid
  /-- The language gives the expression no value. -/
  | undefined
  deriving DecidableEq, Repr

instance decidableEqExcept {ε α : Type} [DecidableEq ε] [DecidableEq α] : DecidableEq (Except ε α)
  | .error a, .error b => decidable_of_iff (a = b) (Except.error.injEq a b ▸ Iff.rfl)
  | .ok a, .ok b => decidable_of_iff (a = b) (Except.ok.injEq a b ▸ Iff.rfl)
  | .error _, .ok _ => isFalse (fun h => nomatch h)
  | .ok _, .error _ => isFalse (fun h => nomatch h)

/-- A time as programs keep and send it: `byte char_array[16]`. -/
structure utc_t where
  char_array : List Byte
  length : char_array.length = 16

@[ext] theorem utc_t.ext {a b : utc_t} (h : a.char_array = b.char_array) : a = b := by
  cases a
  cases b
  simpa using h

def VERSION_MASK : Byte := 0x70

def VERSION_SHIFT : ℕ := 4

def ENDIAN_FLAG_MASK : Byte := 0x80

def LITTLE_ENDIAN_FLAG : Byte := 0

def BIG_ENDIAN_FLAG : Byte := 0x80

def K_BINTIME_VERSION : Byte := 1

def SECS_PER_MIN : ℤ := 60

def K_INFINITE_INACC_LO : BitVec 32 := 0xFFFFFFFF

def K_INFINITE_INACC_HI : BitVec 16 := 0xFFFF

def SWAP16 (src : BitVec 16) : BitVec 16 := (src >>> 8) + (src <<< 8)

def SWAP32 (src : BitVec 32) : BitVec 32 :=
  (src >>> 24) + ((src &&& 0xff0000) >>> 8) + ((src &&& 0xff00) <<< 8) + (src <<< 24)

def SWAP64 (src : BitVec 64) : BitVec 64 :=
  (src >>> 56) + ((src &&& 0xff000000000000) >>> 40) + ((src &&& 0xff0000000000) >>> 24) + ((src &&& 0xff00000000) >>> 8) +
    ((src &&& 0xff000000) <<< 8) + ((src &&& 0xff0000) <<< 24) + ((src &&& 0xff00) <<< 40) + (src <<< 56)

/-- The member of `size` bytes at the given offset of the structure, as a number of the host. -/
def utc_t.member (utc : utc_t) (order : ByteOrder) (offset size : ℕ) : ℕ :=
  order.load ((utc.char_array.drop offset).take size)

/-- `endian.little` of `struct UTC` with longs of 32 bits. -/
structure Little32 where
  timelo : BitVec 32
  timehi : BitVec 32
  inacclo : BitVec 32
  inacchi : BitVec 16
  tdflo : Byte
  flags : Byte

def Little32.ofMemory (order : ByteOrder) (autc : utc_t) : Little32 where
  timelo := .ofNat 32 (autc.member order 0 4)
  timehi := .ofNat 32 (autc.member order 4 4)
  inacclo := .ofNat 32 (autc.member order 8 4)
  inacchi := .ofNat 16 (autc.member order 12 2)
  tdflo := .ofNat 8 (autc.member order 14 1)
  flags := .ofNat 8 (autc.member order 15 1)

def Little32.toMemory (order : ByteOrder) (autc : Little32) : utc_t where
  char_array := order.store 4 autc.timelo.toNat ++ order.store 4 autc.timehi.toNat ++ order.store 4 autc.inacclo.toNat ++
    order.store 2 autc.inacchi.toNat ++ order.store 1 autc.tdflo.toNat ++ order.store 1 autc.flags.toNat
  length := by simp

/-- `endian.big` of `struct UTC` with longs of 32 bits. -/
structure Big32 where
  timehi : BitVec 32
  timelo : BitVec 32
  inacchi : BitVec 16
  inaccmid : BitVec 16
  inacclo : BitVec 16
  tdfhi : Byte
  flags : Byte

def Big32.ofMemory (order : ByteOrder) (autc : utc_t) : Big32 where
  timehi := .ofNat 32 (autc.member order 0 4)
  timelo := .ofNat 32 (autc.member order 4 4)
  inacchi := .ofNat 16 (autc.member order 8 2)
  inaccmid := .ofNat 16 (autc.member order 10 2)
  inacclo := .ofNat 16 (autc.member order 12 2)
  tdfhi := .ofNat 8 (autc.member order 14 1)
  flags := .ofNat 8 (autc.member order 15 1)

def Big32.toMemory (order : ByteOrder) (autc : Big32) : utc_t where
  char_array := order.store 4 autc.timehi.toNat ++ order.store 4 autc.timelo.toNat ++ order.store 2 autc.inacchi.toNat ++
    order.store 2 autc.inaccmid.toNat ++ order.store 2 autc.inacclo.toNat ++ order.store 1 autc.tdfhi.toNat ++
    order.store 1 autc.flags.toNat
  length := by simp

/-- `endian.little` of `struct UTC` with longs of 64 bits. -/
structure Little64 where
  time : BitVec 64
  inacclo : BitVec 32
  inacchi : BitVec 16
  tdflo : Byte
  flags : Byte

def Little64.ofMemory (order : ByteOrder) (autc : utc_t) : Little64 where
  time := .ofNat 64 (autc.member order 0 8)
  inacclo := .ofNat 32 (autc.member order 8 4)
  inacchi := .ofNat 16 (autc.member order 12 2)
  tdflo := .ofNat 8 (autc.member order 14 1)
  flags := .ofNat 8 (autc.member order 15 1)

def Little64.toMemory (order : ByteOrder) (autc : Little64) : utc_t where
  char_array := order.store 8 autc.time.toNat ++ order.store 4 autc.inacclo.toNat ++ order.store 2 autc.inacchi.toNat ++
    order.store 1 autc.tdflo.toNat ++ order.store 1 autc.flags.toNat
  length := by simp

/-- `endian.big` of `struct UTC` with longs of 64 bits. -/
structure Big64 where
  time : BitVec 64
  inacchi : BitVec 32
  inacclo : BitVec 16
  tdfhi : Byte
  flags : Byte

def Big64.ofMemory (order : ByteOrder) (autc : utc_t) : Big64 where
  time := .ofNat 64 (autc.member order 0 8)
  inacchi := .ofNat 32 (autc.member order 8 4)
  inacclo := .ofNat 16 (autc.member order 12 2)
  tdfhi := .ofNat 8 (autc.member order 14 1)
  flags := .ofNat 8 (autc.member order 15 1)

def Big64.toMemory (order : ByteOrder) (autc : Big64) : utc_t where
  char_array := order.store 8 autc.time.toNat ++ order.store 4 autc.inacchi.toNat ++ order.store 2 autc.inacclo.toNat ++
    order.store 1 autc.tdfhi.toNat ++ order.store 1 autc.flags.toNat
  length := by simp

/-- The word `lo` of a `UTCValue`. -/
def UTCValue.lo (v : UTCValue) : BitVec 32 := v.extractLsb' 0 32

/-- The word `hi` of a `UTCValue`. -/
def UTCValue.hi (v : UTCValue) : BitVec 32 := v.extractLsb' 32 32

/-- `U64SET64` with longs of 32 bits: the value with the two words. -/
def U64SET64 (h l : BitVec 32) : UTCValue := h ++ l

/-- `UTCassign` where the high word is an `unsigned short` or a constant of type `int`. -/
def UTCassign (host : Host) (source_lo : BitVec 32) (source_hi : BitVec 16) : Except Failure UTCValue :=
  match host.LONG_BIT with
  | .b32 => .ok (U64SET64 (source_hi.setWidth 32) source_lo)
  -- the macro shifts the high word, an `int` of 32 bits, to the left by 32
  | .b64 => .error .undefined

/-- The time, the inaccuracy and the time differential in minutes that `utc_comptime` finds in the structure. -/
def utc_members (host : Host) (utc : utc_t) : Except Failure (UTCValue × UTCValue × ℤ) :=
  let flags : Byte := .ofNat 8 (utc.member host.BYTE_ORDER 15 1)
  if (flags &&& VERSION_MASK) >>> VERSION_SHIFT ≠ K_BINTIME_VERSION then .error .invalid
  else match host with
  | ⟨.little, .b32⟩ =>
    if flags &&& ENDIAN_FLAG_MASK = LITTLE_ENDIAN_FLAG then
      let little := Little32.ofMemory .little utc
      let atdf := ((little.flags &&& 0xf).toNat <<< 8) + little.tdflo.toNat
      (UTCassign host little.inacclo little.inacchi).map fun ainaccvalue =>
        (U64SET64 little.timehi little.timelo, ainaccvalue, atdf)
    else
      let big := Big32.ofMemory .little utc
      let atdf := (big.tdfhi.toNat <<< 4) + (big.flags &&& 0xf).toNat
      let ainaccvalue := U64SET64 ((SWAP16 big.inacchi).setWidth 32)
        (((SWAP16 big.inaccmid).setWidth 32 <<< 16) + (SWAP16 big.inacclo).setWidth 32)
      .ok (U64SET64 (SWAP32 big.timehi) (SWAP32 big.timelo), ainaccvalue, atdf)
  | ⟨.little, .b64⟩ =>
    if flags &&& ENDIAN_FLAG_MASK = LITTLE_ENDIAN_FLAG then
      let little := Little64.ofMemory .little utc
      let atdf := ((little.flags &&& 0xf).toNat <<< 8) + little.tdflo.toNat
      (UTCassign host little.inacclo little.inacchi).map fun ainaccvalue => (little.time, ainaccvalue, atdf)
    else
      let big := Big64.ofMemory .little utc
      let atdf := (big.tdfhi.toNat <<< 4) + (big.flags &&& 0xf).toNat
      -- `SWAP32` is an `unsigned int`, so the sum has 32 bits
      let ainaccvalue := (SWAP32 big.inacchi <<< 16) + (SWAP16 big.inacclo).setWidth 32
      .ok (SWAP64 big.time, ainaccvalue.setWidth 64, atdf)
  | ⟨.big, .b32⟩ =>
    if flags &&& ENDIAN_FLAG_MASK = BIG_ENDIAN_FLAG then
      let big := Big32.ofMemory .big utc
      let atdf := (big.tdfhi.toNat <<< 4) + (big.flags &&& 0xf).toNat
      let ainaccvalue := U64SET64 (big.inacchi.setWidth 32)
        ((big.inaccmid.setWidth 32 <<< 16) + big.inacclo.setWidth 32)
      .ok (U64SET64 big.timehi big.timelo, ainaccvalue, atdf)
    else
      let little := Little32.ofMemory .big utc
      let atdf := ((little.flags &&& 0xf).toNat <<< 8) + (little.tdflo).toNat
      let ainaccvalue := U64SET64 ((SWAP16 little.inacchi).setWidth 32) (SWAP32 little.inacclo)
      .ok (U64SET64 (SWAP32 little.timehi) (SWAP32 little.timelo), ainaccvalue, atdf)
  | ⟨.big, .b64⟩ =>
    if flags &&& ENDIAN_FLAG_MASK = BIG_ENDIAN_FLAG then
      let big := Big64.ofMemory .big utc
      let atdf := (big.tdfhi.toNat <<< 4) + (big.flags &&& 0xf).toNat
      let ainaccvalue := (big.inacchi.setWidth 64 <<< 32) + big.inacclo.setWidth 64
      .ok (big.time, ainaccvalue, atdf)
    -- this branch takes the member `lo` of an integer: no compiler gives it a meaning
    else .error .undefined

/-- `utc_comptime`: the time, the inaccuracy and the time differential in seconds. -/
def utc_comptime (host : Host) (utc : utc_t) : Except Failure (UTCValue × UTCValue × ℤ) := do
  let (timevalue, ainaccvalue, atdf) ← utc_members host utc
  let atdf := if 0x7ff < atdf then atdf - 0x1000 else atdf
  let inaccvalue ←
    if IsInfiniteInacc ainaccvalue then UTCassign host K_INFINITE_INACC_LO K_INFINITE_INACC_HI else .ok ainaccvalue
  .ok (timevalue, inaccvalue, atdf * SECS_PER_MIN)

/-- The inaccuracy that `utc_mkcomptime` stores; without one the time gets an infinite one. -/
def storedInacc (host : Host) : Option UTCValue → Except Failure UTCValue
  | none => UTCassign host K_INFINITE_INACC_LO K_INFINITE_INACC_HI
  | some inaccvalue =>
    if IsInfiniteInacc inaccvalue then UTCassign host K_INFINITE_INACC_LO K_INFINITE_INACC_HI else .ok inaccvalue

def utc_mkcomptime (host : Host) (timevalue : UTCValue) (inaccvalue : Option UTCValue) (tdf : ℤ) : Except Failure utc_t := do
  let ainacc ← storedInacc host inaccvalue
  let minutes := tdf.tdiv SECS_PER_MIN
  match host with
  | ⟨.little, .b32⟩ => .ok <| Little32.toMemory .little {
      flags := (.ofInt 8 (minutes >>> (8 : ℕ)) &&& 0xf) ||| (K_BINTIME_VERSION <<< VERSION_SHIFT) ||| LITTLE_ENDIAN_FLAG
      tdflo := .ofInt 8 minutes &&& 0xff
      inacclo := ainacc.lo
      inacchi := ainacc.hi.setWidth 16
      timelo := timevalue.lo
      timehi := timevalue.hi }
  | ⟨.little, .b64⟩ => .ok <| Little64.toMemory .little {
      flags := (.ofInt 8 (minutes >>> (8 : ℕ)) &&& 0xf) ||| (K_BINTIME_VERSION <<< VERSION_SHIFT) ||| LITTLE_ENDIAN_FLAG
      tdflo := .ofInt 8 minutes &&& 0xff
      inacclo := (ainacc &&& 0x0ffffffff).setWidth 32
      inacchi := ((ainacc &&& 0x0ffff00000000) >>> 32).setWidth 16
      time := timevalue }
  | ⟨.big, .b32⟩ => .ok <| Big32.toMemory .big {
      flags := (.ofInt 8 minutes &&& 0xf) ||| (K_BINTIME_VERSION <<< VERSION_SHIFT) ||| BIG_ENDIAN_FLAG
      tdfhi := .ofInt 8 (minutes >>> (4 : ℕ))
      inacchi := ainacc.hi.setWidth 16
      inaccmid := (ainacc.lo >>> 16).setWidth 16
      inacclo := ainacc.lo.setWidth 16
      timehi := timevalue.hi
      timelo := timevalue.lo }
  | ⟨.big, .b64⟩ => .ok <| Big64.toMemory .big {
      flags := (.ofInt 8 minutes &&& 0xf) ||| (K_BINTIME_VERSION <<< VERSION_SHIFT) ||| BIG_ENDIAN_FLAG
      tdfhi := .ofInt 8 (minutes >>> (4 : ℕ))
      inacchi := (ainacc &&& 0x0ffffffff).setWidth 32
      inacclo := ((ainacc &&& 0x0ffff00000000) >>> 32).setWidth 16
      time := timevalue }

theorem and_mask (n k w : ℕ) : n &&& ((2 ^ w - 1) * 2 ^ k) = n / 2 ^ k % 2 ^ w * 2 ^ k := by
  rw [← Nat.shiftLeft_eq, ← Nat.shiftLeft_eq, ← Nat.shiftRight_eq_div_pow]
  apply Nat.eq_of_testBit_eq
  intro i
  simp only [Nat.testBit_and, Nat.testBit_shiftLeft, Nat.testBit_two_pow_sub_one, Nat.testBit_mod_two_pow, Nat.testBit_shiftRight]
  by_cases hk : k ≤ i
  · simp [hk, show k + (i - k) = i by omega, Bool.and_comm]
  · simp [hk]

theorem toNat_SWAP16 (a b : Byte) {src : BitVec 16} (hsrc : src.toNat = ofLowBytes [a, b]) :
    (SWAP16 src).toNat = ofLowBytes [b, a] := by
  have ha := a.isLt
  have hb := b.isLt
  simp only [ofLowBytes_cons, ofLowBytes_nil] at hsrc ⊢
  have hhigh : src.toNat / 2 ^ 8 = b.toNat := by omega
  have hlow : src.toNat * 2 ^ 8 % 2 ^ 16 = a.toNat * 2 ^ 8 := by omega
  simp only [SWAP16, BitVec.toNat_add, BitVec.toNat_ushiftRight, BitVec.toNat_shiftLeft, Nat.shiftRight_eq_div_pow,
    Nat.shiftLeft_eq, hhigh, hlow]
  omega

theorem toNat_SWAP32 (a b c d : Byte) {src : BitVec 32} (hsrc : src.toNat = ofLowBytes [a, b, c, d]) :
    (SWAP32 src).toNat = ofLowBytes [d, c, b, a] := by
  have ha := a.isLt
  have hb := b.isLt
  have hc := c.isLt
  have hd := d.isLt
  simp only [ofLowBytes_cons, ofLowBytes_nil] at hsrc ⊢
  have h3 : src.toNat / 2 ^ 24 = d.toNat := by omega
  have h2 : (src &&& 0xff0000).toNat = c.toNat * 2 ^ 16 :=
    (and_mask src.toNat 16 8).trans (by omega)
  have h1 : (src &&& 0xff00).toNat = b.toNat * 2 ^ 8 :=
    (and_mask src.toNat 8 8).trans (by omega)
  have h0 : src.toNat * 2 ^ 24 % 2 ^ 32 = a.toNat * 2 ^ 24 := by omega
  simp only [SWAP32, BitVec.toNat_add, BitVec.toNat_ushiftRight, BitVec.toNat_shiftLeft, Nat.shiftRight_eq_div_pow,
    Nat.shiftLeft_eq, h3, h2, h1, h0]
  omega

theorem toNat_SWAP64 (a b c d e f g h : Byte) {src : BitVec 64} (hsrc : src.toNat = ofLowBytes [a, b, c, d, e, f, g, h]) :
    (SWAP64 src).toNat = ofLowBytes [h, g, f, e, d, c, b, a] := by
  have ha := a.isLt
  have hb := b.isLt
  have hc := c.isLt
  have hd := d.isLt
  have he := e.isLt
  have hf := f.isLt
  have hg := g.isLt
  have hh := h.isLt
  simp only [ofLowBytes_cons, ofLowBytes_nil] at hsrc ⊢
  have h7 : src.toNat / 2 ^ 56 = h.toNat := by omega
  have h6 : (src &&& 0xff000000000000).toNat = g.toNat * 2 ^ 48 :=
    (and_mask src.toNat 48 8).trans (by omega)
  have h5 : (src &&& 0xff0000000000).toNat = f.toNat * 2 ^ 40 :=
    (and_mask src.toNat 40 8).trans (by omega)
  have h4 : (src &&& 0xff00000000).toNat = e.toNat * 2 ^ 32 :=
    (and_mask src.toNat 32 8).trans (by omega)
  have h3 : (src &&& 0xff000000).toNat = d.toNat * 2 ^ 24 :=
    (and_mask src.toNat 24 8).trans (by omega)
  have h2 : (src &&& 0xff0000).toNat = c.toNat * 2 ^ 16 :=
    (and_mask src.toNat 16 8).trans (by omega)
  have h1 : (src &&& 0xff00).toNat = b.toNat * 2 ^ 8 :=
    (and_mask src.toNat 8 8).trans (by omega)
  have h0 : src.toNat * 2 ^ 56 % 2 ^ 64 = a.toNat * 2 ^ 56 := by omega
  simp only [SWAP64, BitVec.toNat_add, BitVec.toNat_ushiftRight, BitVec.toNat_shiftLeft, Nat.shiftRight_eq_div_pow,
    Nat.shiftLeft_eq, h7, h6, h5, h4, h3, h2, h1, h0]
  omega

variable (order : ByteOrder) (time : UTCValue) {inaccvalue : Option UTCValue} (minutes : ℤ) (tdf : BitVec 12)

theorem SWAP16_member (utc : utc_t) (offset : ℕ) (hin : offset + 2 ≤ 16) :
    SWAP16 (.ofNat 16 (utc.member order offset 2)) = .ofNat 16 (utc.member order.other offset 2) := by
  have hlen : ((utc.char_array.drop offset).take 2).length = 2 := by simp [utc.length]; omega
  obtain ⟨a, b, hbytes⟩ := List.length_eq_two.mp hlen
  have hlow : (BitVec.ofNat 16 (ofLowBytes [a, b])).toNat = ofLowBytes [a, b] := toNat_ofLowBytes 2 rfl
  have hhigh : (BitVec.ofNat 16 (ofLowBytes [b, a])).toNat = ofLowBytes [b, a] := toNat_ofLowBytes 2 rfl
  apply BitVec.eq_of_toNat_eq
  simp only [utc_t.member, hbytes]
  cases order with
  | big => exact (toNat_SWAP16 b a hhigh).trans hlow.symm
  | little => exact (toNat_SWAP16 a b hlow).trans hhigh.symm

theorem SWAP32_member (utc : utc_t) (offset : ℕ) (hin : offset + 4 ≤ 16) :
    SWAP32 (.ofNat 32 (utc.member order offset 4)) = .ofNat 32 (utc.member order.other offset 4) := by
  have hlen : ((utc.char_array.drop offset).take 4).length = 4 := by simp [utc.length]; omega
  obtain ⟨a, b, c, d, hbytes⟩ := List.length_eq_four.mp hlen
  have hlow : (BitVec.ofNat 32 (ofLowBytes [a, b, c, d])).toNat = ofLowBytes [a, b, c, d] := toNat_ofLowBytes 4 rfl
  have hhigh : (BitVec.ofNat 32 (ofLowBytes [d, c, b, a])).toNat = ofLowBytes [d, c, b, a] := toNat_ofLowBytes 4 rfl
  apply BitVec.eq_of_toNat_eq
  simp only [utc_t.member, hbytes]
  cases order with
  | big => exact (toNat_SWAP32 d c b a hhigh).trans hlow.symm
  | little => exact (toNat_SWAP32 a b c d hlow).trans hhigh.symm

theorem SWAP64_member (utc : utc_t) (offset : ℕ) (hin : offset + 8 ≤ 16) :
    SWAP64 (.ofNat 64 (utc.member order offset 8)) = .ofNat 64 (utc.member order.other offset 8) := by
  have hlen : ((utc.char_array.drop offset).take 8).length = 8 := by simp [utc.length]; omega
  match hbytes : (utc.char_array.drop offset).take 8, hlen with
  | [a, b, c, d, e, f, g, h], _ =>
    have hlow : (BitVec.ofNat 64 (ofLowBytes [a, b, c, d, e, f, g, h])).toNat = ofLowBytes [a, b, c, d, e, f, g, h] :=
      toNat_ofLowBytes 8 rfl
    have hhigh : (BitVec.ofNat 64 (ofLowBytes [h, g, f, e, d, c, b, a])).toNat = ofLowBytes [h, g, f, e, d, c, b, a] :=
      toNat_ofLowBytes 8 rfl
    apply BitVec.eq_of_toNat_eq
    simp only [utc_t.member, hbytes]
    cases order with
    | big => exact (toNat_SWAP64 h g f e d c b a hhigh).trans hlow.symm
    | little => exact (toNat_SWAP64 a b c d e f g h hlow).trans hhigh.symm

/-- The sixteen bytes of a time, an inaccuracy of 48 bits and a time differential in minutes, as the hosts of one order are to
write them. -/
def wireForm (order : ByteOrder) (time : UTCValue) (inacc : BitVec 48) (tdf : BitVec 12) : utc_t where
  char_array := match order with
    | .little => ByteOrder.little.store 8 time.toNat ++ ByteOrder.little.store 6 inacc.toNat ++
        [tdf.extractLsb' 0 8, 0x1#4 ++ tdf.extractLsb' 8 4]
    | .big => ByteOrder.big.store 8 time.toNat ++ ByteOrder.big.store 6 inacc.toNat ++
        [tdf.extractLsb' 4 8, 0x9#4 ++ tdf.extractLsb' 0 4]
  length := by cases order <;> simp

theorem Little32.ofMemory_wireForm (inacc : BitVec 48) (tdf : BitVec 12) :
    Little32.ofMemory .little (wireForm .little time inacc tdf) = {
      timelo := time.lo, timehi := time.hi
      inacclo := inacc.extractLsb' 0 32, inacchi := inacc.extractLsb' 32 16
      tdflo := tdf.extractLsb' 0 8, flags := 0x1#4 ++ tdf.extractLsb' 8 4 } := by
  have htime := time.isLt
  have hinacc := inacc.isLt
  simp only [Little32.ofMemory, Little32.mk.injEq, UTCValue.lo, UTCValue.hi]
  refine ⟨?_, ?_, ?_, ?_, ?_, ?_⟩ <;> apply BitVec.eq_of_toNat_eq <;>
    simp [wireForm, utc_t.member, ByteOrder.store, ByteOrder.load, lowBytes, Nat.shiftRight_eq_div_pow] <;> omega

theorem Big32.ofMemory_wireForm (inacc : BitVec 48) (tdf : BitVec 12) :
    Big32.ofMemory .big (wireForm .big time inacc tdf) = {
      timehi := time.hi, timelo := time.lo
      inacchi := inacc.extractLsb' 32 16, inaccmid := inacc.extractLsb' 16 16, inacclo := inacc.extractLsb' 0 16
      tdfhi := tdf.extractLsb' 4 8, flags := 0x9#4 ++ tdf.extractLsb' 0 4 } := by
  have htime := time.isLt
  have hinacc := inacc.isLt
  simp only [Big32.ofMemory, Big32.mk.injEq, UTCValue.lo, UTCValue.hi]
  refine ⟨?_, ?_, ?_, ?_, ?_, ?_, ?_⟩ <;> apply BitVec.eq_of_toNat_eq <;>
    simp [wireForm, utc_t.member, ByteOrder.store, ByteOrder.load, lowBytes, Nat.shiftRight_eq_div_pow] <;> omega

theorem Big64.ofMemory_wireForm (inacc : BitVec 48) (tdf : BitVec 12) :
    Big64.ofMemory .big (wireForm .big time inacc tdf) = {
      time := time
      inacchi := inacc.extractLsb' 16 32, inacclo := inacc.extractLsb' 0 16
      tdfhi := tdf.extractLsb' 4 8, flags := 0x9#4 ++ tdf.extractLsb' 0 4 } := by
  have htime := time.isLt
  have hinacc := inacc.isLt
  simp only [Big64.ofMemory, Big64.mk.injEq]
  refine ⟨?_, ?_, ?_, ?_, ?_⟩ <;> apply BitVec.eq_of_toNat_eq <;>
    simp [wireForm, utc_t.member, ByteOrder.store, ByteOrder.load, lowBytes, Nat.shiftRight_eq_div_pow] <;> omega

theorem little_flags :
    (BitVec.ofInt 8 (minutes >>> (8 : ℕ)) &&& 0xf) ||| (K_BINTIME_VERSION <<< VERSION_SHIFT) ||| LITTLE_ENDIAN_FLAG =
      0x1#4 ++ (BitVec.ofInt 12 minutes).extractLsb' 8 4 := by
  have hflags : ∀ x : Byte, (x &&& 0xf) ||| (K_BINTIME_VERSION <<< VERSION_SHIFT) ||| LITTLE_ENDIAN_FLAG =
      0x1#4 ++ x.extractLsb' 0 4 := by decide
  rw [hflags]
  congr 1
  apply BitVec.eq_of_toNat_eq
  simp [Int.shiftRight_eq_div_pow, Nat.shiftRight_eq_div_pow, BitVec.toNat_ofInt]
  omega

theorem big_flags :
    (BitVec.ofInt 8 minutes &&& 0xf) ||| (K_BINTIME_VERSION <<< VERSION_SHIFT) ||| BIG_ENDIAN_FLAG =
      0x9#4 ++ (BitVec.ofInt 12 minutes).extractLsb' 0 4 := by
  have hflags : ∀ x : Byte, (x &&& 0xf) ||| (K_BINTIME_VERSION <<< VERSION_SHIFT) ||| BIG_ENDIAN_FLAG =
      0x9#4 ++ x.extractLsb' 0 4 := by decide
  rw [hflags]
  congr 1
  apply BitVec.eq_of_toNat_eq
  simp [BitVec.toNat_ofInt]
  omega

theorem little_tdflo : BitVec.ofInt 8 minutes &&& 0xff = (BitVec.ofInt 12 minutes).extractLsb' 0 8 := by
  have hmask : ∀ x : Byte, x &&& 0xff = x := by decide
  rw [hmask]
  apply BitVec.eq_of_toNat_eq
  simp [BitVec.toNat_ofInt]
  omega

theorem big_tdfhi : BitVec.ofInt 8 (minutes >>> (4 : ℕ)) = (BitVec.ofInt 12 minutes).extractLsb' 4 8 := by
  apply BitVec.eq_of_toNat_eq
  simp [Int.shiftRight_eq_div_pow, Nat.shiftRight_eq_div_pow, BitVec.toNat_ofInt]
  omega

theorem store_byte (b : Byte) : order.store 1 b.toNat = [b] := by
  cases order <;> simp [ByteOrder.store, lowBytes]

theorem Little32.toMemory_eq_wireForm (time inacc : UTCValue) (minutes : ℤ) :
    Little32.toMemory .little {
      timelo := time.lo
      timehi := time.hi
      inacclo := inacc.lo
      inacchi := inacc.hi.setWidth 16
      tdflo := (BitVec.ofInt 12 minutes).extractLsb' 0 8
      flags := 0x1#4 ++ (BitVec.ofInt 12 minutes).extractLsb' 8 4 } =
    wireForm .little time (inacc.setWidth 48) (.ofInt 12 minutes) := by
  have htime := time.isLt
  have hinacc := inacc.isLt
  apply utc_t.ext
  simp only [Little32.toMemory, wireForm, store_byte, UTCValue.lo, UTCValue.hi]
  simp only [ByteOrder.store, lowBytes, List.cons_append, List.nil_append, List.cons.injEq, and_true]
  refine ⟨?_, ?_, ?_, ?_, ?_, ?_, ?_, ?_, ?_, ?_, ?_, ?_, ?_, ?_⟩ <;> apply BitVec.eq_of_toNat_eq <;>
    simp [Nat.shiftRight_eq_div_pow] <;> omega

theorem Big32.toMemory_eq_wireForm (time inacc : UTCValue) (minutes : ℤ) :
    Big32.toMemory .big {
      timehi := time.hi
      timelo := time.lo
      inacchi := inacc.hi.setWidth 16
      inaccmid := (inacc.lo >>> 16).setWidth 16
      inacclo := inacc.lo.setWidth 16
      tdfhi := (BitVec.ofInt 12 minutes).extractLsb' 4 8
      flags := 0x9#4 ++ (BitVec.ofInt 12 minutes).extractLsb' 0 4 } =
    wireForm .big time (inacc.setWidth 48) (.ofInt 12 minutes) := by
  have htime := time.isLt
  have hinacc := inacc.isLt
  apply utc_t.ext
  simp only [Big32.toMemory, wireForm, store_byte, UTCValue.lo, UTCValue.hi]
  simp only [ByteOrder.store, lowBytes, List.reverse_cons, List.reverse_nil, List.cons_append, List.nil_append,
    List.cons.injEq, and_true]
  refine ⟨?_, ?_, ?_, ?_, ?_, ?_, ?_, ?_, ?_, ?_, ?_, ?_, ?_, ?_⟩ <;> apply BitVec.eq_of_toNat_eq <;>
    simp [Nat.shiftRight_eq_div_pow] <;> omega

theorem Little64.toMemory_eq_wireForm (time inacc : UTCValue) (minutes : ℤ) :
    Little64.toMemory .little {
      time := time
      inacclo := inacc.lo
      inacchi := inacc.hi.setWidth 16
      tdflo := (BitVec.ofInt 12 minutes).extractLsb' 0 8
      flags := 0x1#4 ++ (BitVec.ofInt 12 minutes).extractLsb' 8 4 } =
    wireForm .little time (inacc.setWidth 48) (.ofInt 12 minutes) := by
  have hinacc := inacc.isLt
  apply utc_t.ext
  simp only [Little64.toMemory, wireForm, store_byte, UTCValue.lo, UTCValue.hi, List.append_assoc, List.append_cancel_left_eq]
  simp only [ByteOrder.store, lowBytes, List.cons_append, List.nil_append, List.cons.injEq, and_true]
  refine ⟨?_, ?_, ?_, ?_, ?_, ?_⟩ <;> apply BitVec.eq_of_toNat_eq <;> simp [Nat.shiftRight_eq_div_pow] <;> omega

theorem Big64.toMemory_eq_wireForm (time inacc : UTCValue) (minutes : ℤ) :
    Big64.toMemory .big {
      time := time
      inacchi := inacc.lo
      inacclo := inacc.hi.setWidth 16
      tdfhi := (BitVec.ofInt 12 minutes).extractLsb' 4 8
      flags := 0x9#4 ++ (BitVec.ofInt 12 minutes).extractLsb' 0 4 } =
    wireForm .big time (inacc.lo ++ inacc.hi.setWidth 16) (.ofInt 12 minutes) := by
  apply utc_t.ext
  generalize inacc.lo = low, inacc.hi.setWidth 16 = high
  have hlow := low.isLt
  have hhigh := high.isLt
  have hcross : (low ++ high : BitVec 48).toNat = low.toNat * 2 ^ 16 + high.toNat := by
    rw [BitVec.toNat_append, ← Nat.shiftLeft_add_eq_or_of_lt high.isLt, Nat.shiftLeft_eq]
  have hfirst : (low ++ high : BitVec 48).toNat / 256 ^ 2 = low.toNat := by omega
  have hlast : (low ++ high : BitVec 48).toNat % 256 ^ 2 = high.toNat := by omega
  have hstore : ByteOrder.big.store 6 (low ++ high : BitVec 48).toNat =
      ByteOrder.big.store 4 low.toNat ++ ByteOrder.big.store 2 high.toNat := by
    rw [ByteOrder.store_big_add 2 4, hfirst, ← ByteOrder.store_mod .big 2, hlast]
  simp only [Big64.toMemory, wireForm, store_byte, hstore, List.append_assoc, List.cons_append, List.nil_append]

theorem masked_lo (inacc : UTCValue) : (inacc &&& 0x0ffffffff).setWidth 32 = inacc.lo := by
  apply BitVec.eq_of_toNat_eq
  have hmask : (inacc &&& 0x0ffffffff).toNat = inacc.toNat / 2 ^ 0 % 2 ^ 32 * 2 ^ 0 := and_mask inacc.toNat 0 32
  rw [BitVec.toNat_setWidth, hmask]
  simp [UTCValue.lo]

theorem masked_hi (inacc : UTCValue) : ((inacc &&& 0x0ffff00000000) >>> 32).setWidth 16 = inacc.hi.setWidth 16 := by
  apply BitVec.eq_of_toNat_eq
  have hmask : (inacc &&& 0x0ffff00000000).toNat = inacc.toNat / 2 ^ 32 % 2 ^ 16 * 2 ^ 32 := and_mask inacc.toNat 32 16
  rw [BitVec.toNat_setWidth, BitVec.toNat_ushiftRight, hmask]
  simp [UTCValue.hi, Nat.shiftRight_eq_div_pow]

theorem member_byte (utc : utc_t) (order : ByteOrder) (offset : ℕ) :
    utc.member order offset 1 = utc.member order.other offset 1 := by
  cases order <;> simp only [utc_t.member, ByteOrder.load] <;> rcases utc.char_array.drop offset with _ | ⟨b, rest⟩ <;> rfl

theorem marked_little : ∀ n : BitVec 4, ((0x1#4 ++ n : Byte) &&& VERSION_MASK) >>> VERSION_SHIFT = K_BINTIME_VERSION ∧
    (0x1#4 ++ n : Byte) &&& ENDIAN_FLAG_MASK = LITTLE_ENDIAN_FLAG ∧ ((0x1#4 ++ n : Byte) &&& 0xf).toNat = n.toNat := by
  decide

theorem marked_big : ∀ n : BitVec 4, ((0x9#4 ++ n : Byte) &&& VERSION_MASK) >>> VERSION_SHIFT = K_BINTIME_VERSION ∧
    (0x9#4 ++ n : Byte) &&& ENDIAN_FLAG_MASK = BIG_ENDIAN_FLAG ∧ ((0x9#4 ++ n : Byte) &&& 0xf).toNat = n.toNat := by
  decide

theorem little_atdf : ((tdf.extractLsb' 8 4).toNat <<< 8) + (tdf.extractLsb' 0 8).toNat = tdf.toNat := by
  have htdf := tdf.isLt
  simp [Nat.shiftLeft_eq, Nat.shiftRight_eq_div_pow]
  omega

theorem big_atdf : ((tdf.extractLsb' 4 8).toNat <<< 4) + (tdf.extractLsb' 0 4).toNat = tdf.toNat := by
  have htdf := tdf.isLt
  simp [Nat.shiftLeft_eq, Nat.shiftRight_eq_div_pow]
  omega

theorem toNat_U64SET64 (h l : BitVec 32) : (U64SET64 h l).toNat = h.toNat * 2 ^ 32 + l.toNat := by
  rw [U64SET64, BitVec.toNat_append, ← Nat.shiftLeft_add_eq_or_of_lt l.isLt, Nat.shiftLeft_eq]

@[simp] theorem U64SET64_hi_lo (v : UTCValue) : U64SET64 v.hi v.lo = v := by
  have hv := v.isLt
  apply BitVec.eq_of_toNat_eq
  rw [toNat_U64SET64]
  simp [UTCValue.hi, UTCValue.lo, Nat.shiftRight_eq_div_pow]
  omega

theorem little_inacc (inacc : BitVec 48) :
    U64SET64 ((inacc.extractLsb' 32 16).setWidth 32) (inacc.extractLsb' 0 32) = inacc.setWidth 64 := by
  have hinacc := inacc.isLt
  apply BitVec.eq_of_toNat_eq
  rw [toNat_U64SET64]
  simp [Nat.shiftRight_eq_div_pow]
  omega

theorem big_inacc (inacc : BitVec 48) :
    U64SET64 ((inacc.extractLsb' 32 16).setWidth 32)
      (((inacc.extractLsb' 16 16).setWidth 32 <<< 16) + (inacc.extractLsb' 0 16).setWidth 32) = inacc.setWidth 64 := by
  have hinacc := inacc.isLt
  apply BitVec.eq_of_toNat_eq
  rw [toNat_U64SET64]
  simp [Nat.shiftRight_eq_div_pow, Nat.shiftLeft_eq]
  omega

theorem flags_little (time : UTCValue) (inacc : BitVec 48) (tdf : BitVec 12) :
    BitVec.ofNat 8 ((wireForm .little time inacc tdf).member order 15 1) = 0x1#4 ++ tdf.extractLsb' 8 4 := by
  have h : BitVec.ofNat 8 ((wireForm .little time inacc tdf).member .little 15 1) = 0x1#4 ++ tdf.extractLsb' 8 4 :=
    congrArg Little32.flags (Little32.ofMemory_wireForm time inacc tdf)
  cases order with
  | little => exact h
  | big => rw [member_byte]; exact h

theorem flags_big (time : UTCValue) (inacc : BitVec 48) (tdf : BitVec 12) :
    BitVec.ofNat 8 ((wireForm .big time inacc tdf).member order 15 1) = 0x9#4 ++ tdf.extractLsb' 0 4 := by
  have h : BitVec.ofNat 8 ((wireForm .big time inacc tdf).member .big 15 1) = 0x9#4 ++ tdf.extractLsb' 0 4 :=
    congrArg Big32.flags (Big32.ofMemory_wireForm time inacc tdf)
  cases order with
  | big => exact h
  | little => rw [member_byte]; exact h

theorem utc_members_long32 (order order' : ByteOrder) (time : UTCValue) (inacc : BitVec 48) (tdf : BitVec 12) :
    utc_members ⟨order, .b32⟩ (wireForm order' time inacc tdf) = .ok (time, inacc.setWidth 64, tdf.toNat) := by
  cases order' with
  | little =>
    obtain ⟨hversion, hendian, htdf⟩ := marked_little (tdf.extractLsb' 8 4)
    have hmembers := Little32.ofMemory_wireForm time inacc tdf
    simp only [utc_members, flags_little, hversion, ne_eq, not_true_eq_false, ↓reduceIte]
    cases order with
    | little =>
      simp only [hendian, hmembers, UTCassign, Except.map, ↓reduceIte, U64SET64_hi_lo, little_inacc, htdf, little_atdf]
    | big =>
      have hforeign : LITTLE_ENDIAN_FLAG ≠ BIG_ENDIAN_FLAG := by decide
      simp only [Little32.ofMemory, Little32.mk.injEq] at hmembers
      obtain ⟨hlo, hhi, hinacclo, hinacchi, htdflo, hflags⟩ := hmembers
      simp only [hendian, hforeign, ↓reduceIte, Little32.ofMemory, SWAP32_member .big _ 4 (by decide),
        SWAP32_member .big _ 0 (by decide), SWAP32_member .big _ 8 (by decide), SWAP16_member .big _ 12 (by decide),
        member_byte _ .big, ByteOrder.other_big, hlo, hhi, hinacclo, hinacchi, htdflo, hflags, U64SET64_hi_lo, little_inacc,
        htdf, little_atdf]
  | big =>
    obtain ⟨hversion, hendian, htdf⟩ := marked_big (tdf.extractLsb' 0 4)
    have hmembers := Big32.ofMemory_wireForm time inacc tdf
    simp only [utc_members, flags_big, hversion, ne_eq, not_true_eq_false, ↓reduceIte]
    cases order with
    | little =>
      have hforeign : BIG_ENDIAN_FLAG ≠ LITTLE_ENDIAN_FLAG := by decide
      simp only [Big32.ofMemory, Big32.mk.injEq] at hmembers
      obtain ⟨hhi, hlo, hinacchi, hinaccmid, hinacclo, htdfhi, hflags⟩ := hmembers
      simp only [hendian, hforeign, ↓reduceIte, Big32.ofMemory, SWAP32_member .little _ 4 (by decide),
        SWAP32_member .little _ 0 (by decide), SWAP16_member .little _ 8 (by decide), SWAP16_member .little _ 10 (by decide),
        SWAP16_member .little _ 12 (by decide), member_byte _ .little, ByteOrder.other_little, hlo, hhi, hinacclo, hinaccmid,
        hinacchi, htdfhi, hflags, U64SET64_hi_lo, big_inacc, htdf, big_atdf]
    | big =>
      simp only [hendian, hmembers, ↓reduceIte, U64SET64_hi_lo, big_inacc, htdf, big_atdf]

theorem utc_members_little64 (inacc : BitVec 48) (tdf : BitVec 12) :
    utc_members ⟨.little, .b64⟩ (wireForm .big time inacc tdf) = .ok (time, (inacc.setWidth 32).setWidth 64, tdf.toNat) := by
  obtain ⟨hversion, hendian, htdf⟩ := marked_big (tdf.extractLsb' 0 4)
  have hmembers := Big64.ofMemory_wireForm time inacc tdf
  have hforeign : BIG_ENDIAN_FLAG ≠ LITTLE_ENDIAN_FLAG := by decide
  have hinacc : (inacc.extractLsb' 16 32 <<< 16) + (inacc.extractLsb' 0 16).setWidth 32 = inacc.setWidth 32 := by
    have hbound := inacc.isLt
    apply BitVec.eq_of_toNat_eq
    simp [Nat.shiftRight_eq_div_pow, Nat.shiftLeft_eq]
    omega
  simp only [Big64.ofMemory, Big64.mk.injEq] at hmembers
  obtain ⟨htime, hinacchi, hinacclo, htdfhi, hflags⟩ := hmembers
  simp only [utc_members, hversion, ne_eq, not_true_eq_false, hendian, hforeign, ↓reduceIte, Big64.ofMemory,
    SWAP64_member .little _ 0 (by decide), SWAP32_member .little _ 8 (by decide), SWAP16_member .little _ 12 (by decide),
    member_byte _ .little, ByteOrder.other_little, htime, hinacchi, hinacclo, htdfhi, hflags, hinacc, htdf, big_atdf]

theorem utc_members_big64 (inacc : BitVec 48) (tdf : BitVec 12) :
    utc_members ⟨.big, .b64⟩ (wireForm .big time inacc tdf) =
      .ok (time, ((inacc.extractLsb' 16 32).setWidth 64 <<< 32) + (inacc.extractLsb' 0 16).setWidth 64, tdf.toNat) := by
  obtain ⟨hversion, hendian, htdf⟩ := marked_big (tdf.extractLsb' 0 4)
  simp only [utc_members, flags_big, hversion, ne_eq, not_true_eq_false, hendian, ↓reduceIte,
    Big64.ofMemory_wireForm time inacc tdf, htdf, big_atdf]

theorem utc_members_long64 (time : UTCValue) (inacc : BitVec 48) (tdf : BitVec 12) :
    utc_members ⟨order, .b64⟩ (wireForm .little time inacc tdf) = .error .undefined := by
  obtain ⟨hversion, hendian, htdf⟩ := marked_little (tdf.extractLsb' 8 4)
  have hforeign : LITTLE_ENDIAN_FLAG ≠ BIG_ENDIAN_FLAG := by decide
  cases order <;>
    simp only [utc_members, flags_little, hversion, ne_eq, not_true_eq_false, hendian, hforeign, ↓reduceIte, UTCassign, Except.map]

theorem atdf_eq_toInt : (if 0x7ff < (tdf.toNat : ℤ) then (tdf.toNat : ℤ) - 0x1000 else tdf.toNat) = tdf.toInt := by
  rw [BitVec.toInt_eq_toNat_cond]
  split <;> split <;> omega

theorem utc_comptime_of_finite {host : Host} {utc : utc_t} {time inacc : UTCValue} {tdf : BitVec 12}
    (hmembers : utc_members host utc = .ok (time, inacc, tdf.toNat)) (hfinite : IsInfiniteInacc inacc = false) :
    utc_comptime host utc = .ok (time, inacc, tdf.toInt * SECS_PER_MIN) := by
  rw [← atdf_eq_toInt]
  simp only [utc_comptime, hmembers, bind, Except.bind, hfinite, Bool.false_eq_true, ↓reduceIte]

theorem utc_comptime_of_infinite {host : Host} {utc : utc_t} {time inacc : UTCValue} {tdf : BitVec 12}
    (hmembers : utc_members host utc = .ok (time, inacc, tdf.toNat)) (hinfinite : IsInfiniteInacc inacc = true) :
    utc_comptime host utc = match host.LONG_BIT with
      | .b32 => .ok (time, K_INFINITE_INACC, tdf.toInt * SECS_PER_MIN)
      | .b64 => .error .undefined := by
  rw [← atdf_eq_toInt]
  simp only [utc_comptime, hmembers, bind, Except.bind, hinfinite, ↓reduceIte, UTCassign]
  cases host.LONG_BIT <;> rfl

theorem utc_comptime_long32 (order order' : ByteOrder) (time : UTCValue) (inacc : BitVec 48) (tdf : BitVec 12) :
    utc_comptime ⟨order, .b32⟩ (wireForm order' time inacc tdf) =
      .ok (time, inacc.setWidth 64, tdf.toInt * SECS_PER_MIN) := by
  have hmembers := utc_members_long32 order order' time inacc tdf
  cases hinf : IsInfiniteInacc (inacc.setWidth 64) with
  | false => exact utc_comptime_of_finite hmembers hinf
  | true =>
    have hall : inacc.setWidth 64 = K_INFINITE_INACC := by
      rw [IsInfiniteInacc_iff] at hinf
      have hbound := inacc.isLt
      apply BitVec.eq_of_toNat_eq
      simp [K_INFINITE_INACC] at hinf ⊢
      omega
    rw [utc_comptime_of_infinite hmembers hinf, hall]

theorem utc_comptime_little64 (inacc : BitVec 48) (tdf : BitVec 12) :
    utc_comptime ⟨.little, .b64⟩ (wireForm .big time inacc tdf) =
      .ok (time, (inacc.setWidth 32).setWidth 64, tdf.toInt * SECS_PER_MIN) := by
  apply utc_comptime_of_finite (utc_members_little64 time inacc tdf)
  rw [← Bool.not_eq_true, IsInfiniteInacc_iff]
  have hbound := (inacc.setWidth 32).isLt
  simp only [BitVec.toNat_setWidth] at hbound ⊢
  omega

theorem utc_comptime_long64 (time : UTCValue) (inacc : BitVec 48) (tdf : BitVec 12) :
    utc_comptime ⟨order, .b64⟩ (wireForm .little time inacc tdf) = .error .undefined := by
  simp only [utc_comptime, utc_members_long64]
  rfl

/-- The inaccuracy that a caller of `utc_mkcomptime` gives: without one, or with one of 48 bits or more, it is infinite. -/
def givenInacc : Option UTCValue → UTCValue
  | none => K_INFINITE_INACC
  | some inacc => if IsInfiniteInacc inacc then K_INFINITE_INACC else inacc

theorem givenInacc_le (inaccvalue : Option UTCValue) : (givenInacc inaccvalue).toNat ≤ 2 ^ 48 - 1 := by
  cases inaccvalue with
  | none => simp [givenInacc, K_INFINITE_INACC]
  | some inacc =>
    simp only [givenInacc]
    split
    case isTrue h => simp [K_INFINITE_INACC]
    case isFalse h =>
      rw [IsInfiniteInacc_iff] at h
      omega

theorem storedInacc_eq (host : Host) (inaccvalue : Option UTCValue) :
    storedInacc host inaccvalue =
      if host.LONG_BIT = .b64 ∧ givenInacc inaccvalue = K_INFINITE_INACC then .error .undefined
      else .ok (givenInacc inaccvalue) := by
  have hassign : UTCassign host K_INFINITE_INACC_LO K_INFINITE_INACC_HI =
      if host.LONG_BIT = .b64 then .error .undefined else .ok K_INFINITE_INACC := by
    cases hlong : host.LONG_BIT with
    | b32 =>
      simp only [UTCassign, hlong]
      rfl
    | b64 => simp [UTCassign, hlong]
  cases inaccvalue with
  | none => simp [storedInacc, givenInacc, hassign]
  | some inacc =>
    cases hinf : IsInfiniteInacc inacc with
    | true => simp [storedInacc, givenInacc, hinf, hassign]
    | false =>
      have hne : inacc ≠ K_INFINITE_INACC := by
        rintro rfl
        revert hinf
        decide
      simp [storedInacc, givenInacc, hinf, hne]

theorem utc_mkcomptime_long32 (time : UTCValue) (inaccvalue : Option UTCValue) (tdf : ℤ) :
    utc_mkcomptime ⟨order, .b32⟩ time inaccvalue tdf =
      .ok (wireForm order time ((givenInacc inaccvalue).setWidth 48) (.ofInt 12 (tdf.tdiv SECS_PER_MIN))) := by
  cases order with
  | little =>
    rw [← Little32.toMemory_eq_wireForm, ← little_tdflo, ← little_flags]
    simp [utc_mkcomptime, storedInacc_eq, bind, Except.bind]
  | big =>
    rw [← Big32.toMemory_eq_wireForm, ← big_tdfhi, ← big_flags]
    simp [utc_mkcomptime, storedInacc_eq, bind, Except.bind]

theorem utc_mkcomptime_infinite64 (time : UTCValue) (tdf : ℤ)
    (hinf : givenInacc inaccvalue = K_INFINITE_INACC) :
    utc_mkcomptime ⟨order, .b64⟩ time inaccvalue tdf = .error .undefined := by
  simp [utc_mkcomptime, storedInacc_eq, hinf, bind, Except.bind]

theorem utc_mkcomptime_little64 (tdf : ℤ)
    (hfinite : givenInacc inaccvalue ≠ K_INFINITE_INACC) :
    utc_mkcomptime ⟨.little, .b64⟩ time inaccvalue tdf =
      .ok (wireForm .little time ((givenInacc inaccvalue).setWidth 48) (.ofInt 12 (tdf.tdiv SECS_PER_MIN))) := by
  rw [← Little64.toMemory_eq_wireForm, ← little_tdflo, ← little_flags]
  simp only [utc_mkcomptime, storedInacc_eq, hfinite, and_false, ↓reduceIte, bind, Except.bind, masked_lo, masked_hi]

theorem utc_mkcomptime_big64 (tdf : ℤ)
    (hfinite : givenInacc inaccvalue ≠ K_INFINITE_INACC) :
    utc_mkcomptime ⟨.big, .b64⟩ time inaccvalue tdf =
      .ok (wireForm .big time ((givenInacc inaccvalue).lo ++ (givenInacc inaccvalue).hi.setWidth 16)
        (.ofInt 12 (tdf.tdiv SECS_PER_MIN))) := by
  rw [← Big64.toMemory_eq_wireForm, ← big_tdfhi, ← big_flags]
  simp only [utc_mkcomptime, storedInacc_eq, hfinite, and_false, ↓reduceIte, bind, Except.bind, masked_lo, masked_hi]

/-- A time differential that the format holds: a whole number of minutes of 12 bits. -/
def IsTdf (tdf : ℤ) : Prop := ∃ minutes : ℤ, -2048 ≤ minutes ∧ minutes ≤ 2047 ∧ tdf = minutes * SECS_PER_MIN

theorem IsTdf.eq {tdf : ℤ} (htdf : IsTdf tdf) : (BitVec.ofInt 12 (tdf.tdiv SECS_PER_MIN)).toInt * SECS_PER_MIN = tdf := by
  obtain ⟨minutes, hlow, hhigh, rfl⟩ := htdf
  rw [Int.mul_tdiv_cancel _ (by decide), BitVec.toInt_ofInt, Int.bmod_eq_of_le (by omega) (by omega)]

/-- What the reader finds in the bytes of the writer is what the writer was given. -/
def RoundTrips (writer reader : Host) (timevalue : UTCValue) (inaccvalue : Option UTCValue) (tdf : ℤ) : Prop :=
  (utc_mkcomptime writer timevalue inaccvalue tdf >>= utc_comptime reader) = .ok (timevalue, givenInacc inaccvalue, tdf)

/-- The inaccuracies that reach the reader from the writer. -/
def Carried (writer reader : Host) (inacc : UTCValue) : Prop :=
  match writer, reader with
  | ⟨_, .b32⟩, ⟨_, .b32⟩ => True
  | ⟨.little, _⟩, ⟨_, .b64⟩ => False
  | ⟨.big, .b32⟩, ⟨.little, .b64⟩ => inacc.toNat < 2 ^ 32
  | ⟨.big, .b32⟩, ⟨.big, .b64⟩ => inacc.toNat < 2 ^ 16
  | ⟨.little, .b64⟩, ⟨_, .b32⟩ => inacc.toNat < 2 ^ 48 - 1
  | ⟨.big, .b64⟩, ⟨_, .b32⟩ => inacc.toNat < 2 ^ 48 - 1 ∧ inacc.toNat % 2 ^ 32 = inacc.toNat / 2 ^ 32 * (2 ^ 16 + 1)
  | ⟨.big, .b64⟩, ⟨.little, .b64⟩ => inacc = 0
  | ⟨.big, .b64⟩, ⟨.big, .b64⟩ => inacc.toNat < 2 ^ 48 - 1 ∧ inacc.toNat % 2 ^ 32 = inacc.toNat / 2 ^ 32

theorem setWidth_givenInacc (inaccvalue : Option UTCValue) :
    ((givenInacc inaccvalue).setWidth 48).setWidth 64 = givenInacc inaccvalue := by
  have hle := givenInacc_le inaccvalue
  apply BitVec.eq_of_toNat_eq
  simp only [BitVec.toNat_setWidth]
  omega

theorem givenInacc_lt (hfinite : givenInacc inaccvalue ≠ K_INFINITE_INACC) :
    (givenInacc inaccvalue).toNat < 2 ^ 48 - 1 := by
  have hle := givenInacc_le inaccvalue
  have hne : (givenInacc inaccvalue).toNat ≠ 2 ^ 48 - 1 := fun h => hfinite (BitVec.eq_of_toNat_eq h)
  omega

theorem bind_of_ok {α β : Type} {x : Except Failure α} {a : α} (f : α → Except Failure β) (h : x = .ok a) :
    (x >>= f) = f a := by
  rw [h]
  rfl

theorem utc_comptime_big64 (inacc : BitVec 48) (tdf : BitVec 12) (time' inacc' : UTCValue) (tdf' : ℤ) :
    utc_comptime ⟨.big, .b64⟩ (wireForm .big time inacc tdf) = .ok (time', inacc', tdf') ↔
      time = time' ∧ inacc.toNat / 2 ^ 16 * 2 ^ 32 + inacc.toNat % 2 ^ 16 = inacc'.toNat ∧ inacc'.toNat < 2 ^ 48 - 1 ∧
        tdf.toInt * SECS_PER_MIN = tdf' := by
  have hmembers := utc_members_big64 time inacc tdf
  have hbound := inacc.isLt
  generalize hread : ((inacc.extractLsb' 16 32).setWidth 64 <<< 32) + (inacc.extractLsb' 0 16).setWidth 64 = read at hmembers
  have hvalue : inacc.toNat / 2 ^ 16 * 2 ^ 32 + inacc.toNat % 2 ^ 16 = read.toNat := by
    rw [← hread]
    simp [Nat.shiftRight_eq_div_pow, Nat.shiftLeft_eq]
    omega
  rw [hvalue, BitVec.toNat_inj]
  cases hinf : IsInfiniteInacc read with
  | false =>
    rw [utc_comptime_of_finite hmembers hinf]
    rw [← Bool.not_eq_true, IsInfiniteInacc_iff] at hinf
    simp only [Except.ok.injEq, Prod.mk.injEq]
    constructor
    · rintro ⟨rfl, rfl, rfl⟩
      exact ⟨rfl, rfl, by omega, rfl⟩
    · rintro ⟨rfl, rfl, -, rfl⟩
      exact ⟨rfl, rfl, rfl⟩
  | true =>
    rw [utc_comptime_of_infinite hmembers hinf]
    rw [IsInfiniteInacc_iff] at hinf
    simp only [reduceCtorEq, false_iff]
    rintro ⟨-, rfl, hfinite, -⟩
    omega

theorem roundTrips_long32_iff (reader : Host) (timevalue : UTCValue) (inaccvalue : Option UTCValue) {tdf : ℤ}
    (htdf : IsTdf tdf) :
    RoundTrips ⟨order, .b32⟩ reader timevalue inaccvalue tdf ↔ Carried ⟨order, .b32⟩ reader (givenInacc inaccvalue) := by
  have hle := givenInacc_le inaccvalue
  rw [RoundTrips, bind_of_ok _ (utc_mkcomptime_long32 order timevalue inaccvalue tdf)]
  obtain ⟨order', long⟩ := reader
  cases long with
  | b32 =>
    rw [utc_comptime_long32, setWidth_givenInacc, htdf.eq]
    cases order <;> simp [Carried]
  | b64 =>
    cases order with
    | little => cases order' <;> simp [Carried, utc_comptime_long64]
    | big =>
      cases order' with
      | little =>
        simp only [Carried, utc_comptime_little64, Except.ok.injEq, Prod.mk.injEq, true_and, htdf.eq, and_true,
          ← BitVec.toNat_inj, BitVec.toNat_setWidth]
        omega
      | big =>
        simp only [Carried, utc_comptime_big64, true_and, htdf.eq, and_true, BitVec.toNat_setWidth]
        omega

theorem roundTrips_little64_iff (reader : Host) (timevalue : UTCValue) (inaccvalue : Option UTCValue) {tdf : ℤ}
    (htdf : IsTdf tdf) :
    RoundTrips ⟨.little, .b64⟩ reader timevalue inaccvalue tdf ↔ Carried ⟨.little, .b64⟩ reader (givenInacc inaccvalue) := by
  obtain ⟨order, long⟩ := reader
  by_cases hinf : givenInacc inaccvalue = K_INFINITE_INACC
  · rw [RoundTrips, utc_mkcomptime_infinite64 .little timevalue tdf hinf, hinf]
    cases long <;> simp [Carried, bind, Except.bind, K_INFINITE_INACC]
  · have hlt := givenInacc_lt hinf
    rw [RoundTrips, bind_of_ok _ (utc_mkcomptime_little64 timevalue tdf hinf)]
    cases long with
    | b32 => simp only [Carried, utc_comptime_long32, setWidth_givenInacc, htdf.eq, hlt]
    | b64 => simp [Carried, utc_comptime_long64]

theorem low_first {low high : ℕ} (hlow : low < 2 ^ 16) (hhigh : high < 2 ^ 16) : low * 2 ^ 16 + high < 2 ^ 32 := by omega

theorem crossed_low_eq_iff {inacc : ℕ} (hlt : inacc < 2 ^ 48 - 1) :
    (inacc % 2 ^ 32 * 2 ^ 16 + inacc / 2 ^ 32) % 2 ^ 32 % 2 ^ 64 = inacc ↔ inacc = 0 := by
  obtain ⟨high, mid, low, hhigh, hmid, hlow, rfl⟩ : ∃ high mid low, high < 2 ^ 16 ∧ mid < 2 ^ 16 ∧ low < 2 ^ 16 ∧
      inacc = high * 2 ^ 32 + mid * 2 ^ 16 + low :=
    ⟨inacc / 2 ^ 32, inacc / 2 ^ 16 % 2 ^ 16, inacc % 2 ^ 16, by omega, by omega, by omega, by omega⟩
  have hdiv : (high * 2 ^ 32 + mid * 2 ^ 16 + low) / 2 ^ 32 = high := by omega
  have hmod : (high * 2 ^ 32 + mid * 2 ^ 16 + low) % 2 ^ 32 = mid * 2 ^ 16 + low := by omega
  have hread : (mid * 2 ^ 16 + low) * 2 ^ 16 + high = low * 2 ^ 16 + high + 2 ^ 32 * mid := by ring
  have hlt32 := low_first hlow hhigh
  rw [hdiv, hmod, hread, Nat.add_mul_mod_self_left, Nat.mod_eq_of_lt hlt32, Nat.mod_eq_of_lt (hlt32.trans (by decide))]
  clear hdiv hmod hread hlt
  constructor
  · intro h
    have heq : high = low := by omega
    subst heq
    have hhigh0 : high = 0 := by linarith
    have hmid0 : mid = 0 := by linarith
    simp [hhigh0, hmid0]
  · intro h
    have hhigh0 : high = 0 := by linarith
    have hmid0 : mid = 0 := by linarith
    have hlow0 : low = 0 := by linarith
    simp [hhigh0, hmid0, hlow0]

theorem roundTrips_big64_iff (reader : Host) (timevalue : UTCValue) (inaccvalue : Option UTCValue) {tdf : ℤ}
    (htdf : IsTdf tdf) :
    RoundTrips ⟨.big, .b64⟩ reader timevalue inaccvalue tdf ↔ Carried ⟨.big, .b64⟩ reader (givenInacc inaccvalue) := by
  obtain ⟨order, long⟩ := reader
  by_cases hinf : givenInacc inaccvalue = K_INFINITE_INACC
  · rw [RoundTrips, utc_mkcomptime_infinite64 .big timevalue tdf hinf, hinf]
    cases long <;> cases order <;> simp [Carried, bind, Except.bind, K_INFINITE_INACC]
  · have hlt := givenInacc_lt hinf
    rw [RoundTrips, bind_of_ok _ (utc_mkcomptime_big64 timevalue tdf hinf)]
    generalize givenInacc inaccvalue = inacc at hlt
    have hcross : (inacc.lo ++ inacc.hi.setWidth 16 : BitVec 48).toNat = inacc.toNat % 2 ^ 32 * 2 ^ 16 + inacc.toNat / 2 ^ 32 := by
      rw [BitVec.toNat_append, ← Nat.shiftLeft_add_eq_or_of_lt (BitVec.isLt _), Nat.shiftLeft_eq]
      simp [UTCValue.lo, UTCValue.hi, Nat.shiftRight_eq_div_pow]
      omega
    cases long with
    | b32 =>
      cases order <;>
        simp only [Carried, utc_comptime_long32, Except.ok.injEq, Prod.mk.injEq, true_and, htdf.eq, and_true,
          ← BitVec.toNat_inj, BitVec.toNat_setWidth, hcross] <;> omega
    | b64 =>
      cases order with
      | little =>
        simp only [Carried, utc_comptime_little64, Except.ok.injEq, Prod.mk.injEq, true_and, htdf.eq, and_true,
          ← BitVec.toNat_inj, BitVec.toNat_setWidth, hcross]
        exact crossed_low_eq_iff hlt
      | big =>
        simp only [Carried, utc_comptime_big64, true_and, htdf.eq, and_true, hcross]
        omega

/-- The time, the inaccuracy and the time differential come back exactly for the inaccuracies that the writer's and the
reader's code for their words carry, and an inaccuracy of 48 bits or more comes back as an infinite one. -/
theorem encoding_round_trips (writer reader : Host) (timevalue : UTCValue) (inaccvalue : Option UTCValue) {tdf : ℤ} (htdf : IsTdf tdf) :
    RoundTrips writer reader timevalue inaccvalue tdf ↔ Carried writer reader (givenInacc inaccvalue) := by
  obtain ⟨order, long⟩ := writer
  cases long with
  | b32 => exact roundTrips_long32_iff order reader timevalue inaccvalue htdf
  | b64 =>
    cases order with
    | little => exact roundTrips_little64_iff reader timevalue inaccvalue htdf
    | big => exact roundTrips_big64_iff reader timevalue inaccvalue htdf

/-- A big-endian host writes an inaccuracy of 2³² units of 100 ns, a little-endian one reads it, both with longs of 32 bits. -/
theorem encoding_round_trips_sevenMinutes : RoundTrips ⟨.big, .b32⟩ ⟨.little, .b32⟩ 0 (some 0x100000000) (-60) :=
  (encoding_round_trips ⟨.big, .b32⟩ ⟨.little, .b32⟩ 0 (some 0x100000000) ⟨-1, by decide, by decide, by decide⟩).mpr trivial

/-- With longs of 64 bits the little-endian host finds an inaccuracy of zero in the same bytes. -/
theorem inaccuracy_lost :
    ¬ ∀ (writer reader : Host) (timevalue : UTCValue) (inaccvalue : Option UTCValue) (tdf : ℤ), IsTdf tdf →
      RoundTrips writer reader timevalue inaccvalue tdf := by
  intro hall
  have hread := hall ⟨.big, .b32⟩ ⟨.little, .b64⟩ 0 (some 0x100000000) (-60) ⟨-1, by decide, by decide, by decide⟩
  revert hread
  unfold RoundTrips
  decide

end dce.dts
