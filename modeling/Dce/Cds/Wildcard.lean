import Dce.Cds.Names

open lib

namespace dce.cds.names

def star : Byte := 0x2a
def questionMark : Byte := 0x3f
def backslash : Byte := 0x5c

/-- The characters that a backslash takes their meaning from. -/
def wild (b : Byte) : Bool := b = questionMark || b = star || b = backslash

/-- `islower(c) ? toupper(c) : c`. -/
def upper (c : Byte) : Byte := if 0x61 ≤ c ∧ c ≤ 0x7a then c - 0x20 else c

variable (flg : Byte)

/-- `findchar`, for a pointer to the given bytes: the bytes from the character on. It ends with nothing where it would read
behind them. -/
def findchar (thechar : Byte) : ℤ → List Byte → Option (Option (List Byte))
  | len, [] => if 0 < len then none else some none
  | len, b :: rest =>
    if 0 < len then
      if b = thechar then some (some (b :: rest))
      else if b = backslash ∧ 2 ≤ len ∧ flg = SN_cdswildcard then
        match rest with
        | [] => none
        | c :: rest' => if wild c then findchar thechar (len - 2) rest' else findchar thechar (len - 1) (c :: rest')
      else findchar thechar (len - 1) rest
    else some none

/-- `cmpnames`, with the value that it leaves in `*len1`. -/
def cmpnames : ℤ → List Byte → ℤ → List Byte → Option (Bool × ℤ)
  | len1, _, len2, [] => if 0 < len2 ∧ 0 < len1 then none else some (len2 ≤ 0, len1)
  | len1, name1_p, len2, c2 :: rest2 =>
    if 0 < len2 ∧ 0 < len1 then
      if c2 ≠ questionMark then
        match name1_p with
        | [] => none
        | c1 :: rest1 =>
          if flg = SN_wildcard then
            if upper c1 ≠ upper c2 then some (false, len1) else cmpnames (len1 - 1) rest1 (len2 - 1) rest2
          else if c2 = backslash ∧ 2 ≤ len2 then
            match rest2 with
            | [] => none
            | e2 :: rest2' =>
              if wild e2 then
                if e2 ≠ c1 then some (false, len1) else cmpnames (len1 - 1) rest1 (len2 - 1 - 1) rest2'
              else if c2 ≠ c1 then some (false, len1) else cmpnames (len1 - 1) rest1 (len2 - 1) (e2 :: rest2')
          else if c2 ≠ c1 then some (false, len1)
          else cmpnames (len1 - 1) rest1 (len2 - 1) rest2
      else cmpnames (len1 - 1) name1_p.tail (len2 - 1) rest2
    else some (len2 ≤ 0, len1)

/-- `findstr`, with as many bytes to the end of the name: the bytes from the match on, and the value left in `*len_p`. -/
def findstr (pattern_p : List Byte) (patlen : ℤ) : ℕ → List Byte → ℤ → Option (Option (List Byte × ℤ))
  | toEnd, name_p, len => do
    let (equal, notused) ← cmpnames flg len name_p patlen pattern_p
    if equal then return some (name_p, len - notused)
    match toEnd with
    | 0 => return none
    | toEnd + 1 => findstr pattern_p patlen toEnd name_p.tail (len - 1)

/-- The loop of `dowild` that collects groups of wildcards. -/
def skipStars : ℤ → List Byte → Option (ℤ × List Byte)
  | len2, [] => if len2 ≤ 0 then some (len2, []) else none
  | len2, b :: rest => if len2 ≤ 0 ∨ b ≠ star then some (len2, b :: rest) else skipStars (len2 - 1) rest

/-- The loop of `dowild` over the places where the pattern up to the next `*` matches, for a number of rounds. -/
def tryMatches (name2_p : List Byte) (len2 wildlen : ℤ) (again : List Byte → ℤ → Option Bool) : ℕ → List Byte → ℤ → Option Bool
  | 0, _, _ => none
  | rounds + 1, name1_p, len1 =>
    if 0 < len1 then do
      match ← findstr flg name2_p wildlen len1.toNat name1_p len1 with
      | none => return false
      | some (pattern_p, matched) =>
        let len1 := len1 - (name1_p.length - pattern_p.length : ℤ)
        let name1_p := pattern_p
        if len2 = wildlen then
          if len1 = wildlen then return true
          tryMatches name2_p len2 wildlen again rounds name1_p.tail (len1 - 1)
        else
          if ← again (name1_p.drop matched.toNat) (len1 - matched) then return true
          tryMatches name2_p len2 wildlen again rounds name1_p.tail (len1 - 1)
    else some false

/-- `dowild`, for a depth of calls. -/
def dowild : ℕ → List Byte → ℤ → List Byte → ℤ → Option Bool
  | 0, _, _, _, _ => none
  | depth + 1, name1_p, len1, name2_p, len2 => do
    let (len2, name2_p) ← skipStars len2 name2_p
    if len2 ≤ 0 then return true
    if len1 ≤ 0 then return false
    let pattern_p ← findchar flg star len2 name2_p
    let wildlen : ℤ :=
      match pattern_p with
      | none => len2
      | some pattern_p => name2_p.length - pattern_p.length
    tryMatches flg name2_p len2 wildlen
      (fun name1_p len1 => dowild depth name1_p len1 (name2_p.drop (1 + wildlen.toNat)) (len2 - 1 - wildlen))
      (len1.toNat + 1) name1_p len1

/-- The count of `?` and of `*` in a string of these, for names that match such a string only. -/
def countWild : List Byte → Option (ℕ × ℕ)
  | [] => some (0, 0)
  | b :: rest =>
    if b = questionMark then (countWild rest).map fun (q_cnt, s_cnt) => (q_cnt + 1, s_cnt)
    else if b = star then (countWild rest).map fun (q_cnt, s_cnt) => (q_cnt, s_cnt + 1)
    else none

/-- `names_s_compare`, with the comparison of names without wildcards as a parameter. -/
def names_s_compare (dnsCmpSimple : SimpleName_t → SimpleName_t → ℤ) (name1_p name2_p : SimpleName_t) : Option Bool :=
  let flg2 := name2_p.sn_flag
  if flg2 ≠ SN_wildcard ∧ flg2 ≠ SN_cdswildcard then some (dnsCmpSimple name1_p name2_p = 0)
  else if name1_p.sn_flag = SN_binary ∨ name1_p.sn_flag = SN_objectid then
    match countWild name2_p.sn_name with
    | none => some false
    | some (q_cnt, s_cnt) =>
      if name1_p.sn_length < q_cnt then some false
      else if q_cnt = name1_p.sn_length then some true
      else some (0 < s_cnt)
  else if name1_p.sn_flag = SN_null ∨ name1_p.sn_flag = SN_typed then
    some (name2_p.sn_length = 1 && name2_p.sn_name.head? = some star)
  else do
    let len1 : ℤ := name1_p.sn_length
    let len2 : ℤ := name2_p.sn_length
    let wild_string_p ← findchar flg2 star len2 name2_p.sn_name
    let len2 : ℤ :=
      match wild_string_p with
      | none => len2
      | some wild_string_p => name2_p.sn_name.length - wild_string_p.length
    let (equal, len1) ← cmpnames flg2 len1 name1_p.sn_name len2 name2_p.sn_name
    if !equal then return false
    match wild_string_p with
    | none => return len1 = 0
    | some wild_string_p =>
      dowild flg2 (name2_p.sn_length + 1) (name1_p.sn_name.drop ((name1_p.sn_length : ℤ) - len1).toNat) len1
        wild_string_p.tail (name2_p.sn_length - len2 - 1)

end dce.cds.names
