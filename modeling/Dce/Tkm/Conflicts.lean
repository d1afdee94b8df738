import Dce.Tkm.Types

namespace dce.tkm

abbrev Ptr := ℕ

/-- A `struct hs_host`. -/
abbrev Host := ℕ

/-- `tkm_tokenHolder_t`. The tokens of volumes are those with `TKM_TOKEN_ISVOL`. -/
inductive Holder (φ ν : Type) where
  | file (f : φ)
  | volume (v : ν)
  deriving DecidableEq

/-- `tkm_internalToken_t`, without its times and its links. -/
structure Token (φ ν : Type) where
  id : ℕ
  range : ByteRange
  holder : Option (Holder φ ν)
  types : Types
  refused : Types
  host : Host
  /-- `TKM_TOKEN_GRANTING`. -/
  granting : Bool
  refcount : UInt32

/-- `tkm_tokenList_t`. -/
structure TokenList where
  mask : TokenMask
  list : List Ptr

/-- `tkm_file_t`. -/
structure File where
  granted : TokenList
  queued : List Ptr
  host : Option Host
  tokenGrants : ℕ

/-- `tkm_vol_t`. -/
structure Volume where
  granted : TokenList
  beingGranted : List Ptr
  queuedFileTokens : List Ptr
  fileTokens : TokenMask
  tokenGrants : ℕ

/-- The files, the volumes they are in, and whether a volume is read-only. -/
structure Layout (φ ν : Type) where
  vol : φ → ν
  files : ν → List φ
  readOnly : ν → Bool
  nodup_files : ∀ v, (files v).Nodup
  mem_files : ∀ v f, f ∈ files v ↔ vol f = v

/-- What all threads share. A token structure is never given back once `osi_Alloc`
has made it. -/
structure Heap (φ ν : Type) where
  token : Ptr → Token φ ν
  allocated : ℕ
  lastTokenId : ℕ
  freeTokens : List Ptr
  file : φ → File
  volume : ν → Volume

variable {φ ν : Type}

/-- A token structure after `bzero`, with the given id. -/
def Token.blank (id : ℕ) : Token φ ν := ⟨id, ⟨0, 0⟩, none, ∅, ∅, 0, false, 0⟩

/-- `TKM_TOKEN_ISVOL`. -/
def Token.isVol (t : Token φ ν) : Bool :=
  match t.holder with
  | some (.volume _) => true
  | _ => false

def Heap.granted (h : Heap φ ν) : Holder φ ν → List Ptr
  | .file f => (h.file f).granted.list
  | .volume v => (h.volume v).granted.list

def Heap.setToken (h : Heap φ ν) (p : Ptr) (t : Token φ ν) : Heap φ ν :=
  { h with token := Function.update h.token p t }

def Heap.setFile [DecidableEq φ] (h : Heap φ ν) (f : φ) (file : File) : Heap φ ν :=
  { h with file := Function.update h.file f file }

def Heap.setVolume [DecidableEq ν] (h : Heap φ ν) (v : ν) (volume : Volume) : Heap φ ν :=
  { h with volume := Function.update h.volume v volume }

def tkm_PutTokenInFreeList (h : Heap φ ν) (tokenP : Ptr) : Heap φ ν :=
  { h.setToken tokenP { h.token tokenP with id := 0 } with freeTokens := tokenP :: h.freeTokens }

/-- `osi_Alloc` of some token structures, for the free list. -/
def tkm_MoreTokens (h : Heap φ ν) : ℕ → Heap φ ν
  | 0 => h
  | n + 1 => tkm_MoreTokens (tkm_PutTokenInFreeList { h with allocated := h.allocated + 1 } h.allocated) n

def tkm_GetFreeToken (h : Heap φ ν) : Option (Ptr × Heap φ ν) :=
  match h.freeTokens with
  | [] => none
  | p :: rest =>
    some (p, { h.setToken p (Token.blank (h.lastTokenId + 1)) with
      freeTokens := rest, lastTokenId := h.lastTokenId + 1 })

/-- The loop of `tkm_AllocTokenNoSleep`, when no more token structures can be made. -/
def allocLoop : ℕ → Heap φ ν → List Ptr → List Ptr × Heap φ ν
  | 0, h, ret => (ret, h)
  | n + 1, h, ret =>
    match tkm_GetFreeToken h with
    | none => (ret, h)
    | some (p, h') => allocLoop n h' (p :: ret)

def tkm_AllocTokenNoSleep (h : Heap φ ν) (n : ℕ) : List Ptr × Heap φ ν := allocLoop n h []

/-- `tkm_FreeToken` of each token of a list. -/
def tkm_FreeTokens (h : Heap φ ν) : List Ptr → Heap φ ν
  | [] => h
  | p :: rest => tkm_FreeTokens (tkm_PutTokenInFreeList h p) rest

section Removal

variable [DecidableEq φ] [DecidableEq ν] (L : Layout φ ν)

def TKM_REMOVE_FROM_MASK (h : Heap φ ν) (p : Ptr) (types : Types) : Option (Heap φ ν) :=
  match (h.token p).holder with
  | none => none
  | some (.volume v) =>
    (tkm_RemoveFromTokenMask (h.volume v).granted.mask types).map fun mask =>
      h.setVolume v { h.volume v with granted := ⟨mask, (h.volume v).granted.list⟩ }
  | some (.file f) =>
    (tkm_RemoveFromTokenMask (h.file f).granted.mask types).bind fun mask =>
      (tkm_RemoveFromTokenMask (h.volume (L.vol f)).fileTokens types).map fun fileTokens =>
        (h.setFile f { h.file f with granted := ⟨mask, (h.file f).granted.list⟩ }).setVolume (L.vol f)
          { h.volume (L.vol f) with fileTokens := fileTokens }

/-- `tkm_ReturnFileToken` and `tkm_ReturnVolToken`. The list of the collector has the
granted tokens; to take another one from it fails an assertion. -/
def tkm_ReturnHolderToken (h : Heap φ ν) (p : Ptr) : Option (Heap φ ν) :=
  match (h.token p).holder with
  | none => none
  | some (.volume v) =>
    if p ∈ (h.volume v).granted.list then
      some (h.setVolume v
        { h.volume v with granted := ⟨(h.volume v).granted.mask, (h.volume v).granted.list.erase p⟩ })
    else none
  | some (.file f) =>
    if p ∈ (h.file f).granted.list then
      some (h.setFile f { h.file f with granted := ⟨(h.file f).granted.mask, (h.file f).granted.list.erase p⟩ })
    else none

/-- The first part of `tkm_RemoveTypes`, which takes the types away. -/
def dropTypes (h : Heap φ ν) (p : Ptr) (types : Types) : Option (Heap φ ν) :=
  let t := h.token p
  let left := { t with types := t.types \ types, refused := t.refused \ types }
  if t.types ∩ types = ∅ then some (h.setToken p left)
  else if t.granting ∧ t.isVol then none
  else (TKM_REMOVE_FROM_MASK L h p (t.types ∩ types)).map fun h => h.setToken p { left with granting := false }

/-- `tkm_RemoveTypes`. The queue of the thread that tries the asynchronous grants is
not in the model, and the locks that the token's holder is to have are not checked. -/
def tkm_RemoveTypes (h : Heap φ ν) (p : Ptr) (types : Types) : Option (Heap φ ν) :=
  (dropTypes L h p types).bind fun h =>
    if (h.token p).types = ∅ ∧ (h.token p).refcount = 0 then
      (tkm_ReturnHolderToken h p).map fun h => tkm_PutTokenInFreeList h p
    else some h

def TKM_RECYCLE_TOKEN (h : Heap φ ν) (p : Ptr) : Option (Heap φ ν) := tkm_RemoveTypes L h p (h.token p).types

def TKM_HOLDTOKEN (h : Heap φ ν) (p : Ptr) : Heap φ ν :=
  h.setToken p { h.token p with refcount := (h.token p).refcount + 1 }

def releToken (h : Heap φ ν) (p : Ptr) : Heap φ ν :=
  h.setToken p { h.token p with refcount := (h.token p).refcount - 1 }

def TKM_RELETOKEN (h : Heap φ ν) (p : Ptr) : Option (Heap φ ν) :=
  if (h.token p).refcount = 0 then none else tkm_RemoveTypes L (releToken h p) p ∅

def TKM_RELE_AND_RECYCLE_TOKEN (h : Heap φ ν) (p : Ptr) : Option (Heap φ ν) :=
  if (h.token p).refcount = 0 then none else TKM_RECYCLE_TOKEN L (releToken h p) p

/-- `tkm_GrantFileToken` and `tkm_GrantVolToken`. -/
def tkm_GrantHolderToken (h : Heap φ ν) (p : Ptr) : Option (Heap φ ν) :=
  let types := (h.token p).types
  match (h.token p).holder with
  | none => none
  | some (.volume v) =>
    let volume := h.volume v
    some (h.setVolume v
      { volume with
        granted := ⟨tkm_AddToTokenMask volume.granted.mask types, p :: volume.granted.list⟩
        tokenGrants := volume.tokenGrants + 1 })
  | some (.file f) =>
    let file := h.file f
    let volume := h.volume (L.vol f)
    some ((h.setFile f
      { file with
        granted := ⟨tkm_AddToTokenMask file.granted.mask types, p :: file.granted.list⟩
        tokenGrants := file.tokenGrants + 1 }).setVolume (L.vol f)
      { volume with
        fileTokens := tkm_AddToTokenMask volume.fileTokens types
        tokenGrants := volume.tokenGrants + 1 })

end Removal

end dce.tkm

namespace dce.tkm

variable {φ ν : Type}

def TKM_MAX_CONFLICTS : ℕ := 40

/-- `tkm_tokenConflictElem_t`. -/
structure ConflictElem where
  token : Option Ptr
  revoke : Types
  grant : Types
  grantLow : Option Ptr
  grantHigh : Option Ptr

/-- `tkm_tokenConflictQ_t`: its elements up to `lastPos`. -/
abbrev ConflictQ := List ConflictElem

/-- `TKM_CONFLICTQ_ISEMPTY`. -/
def ConflictQ.isEmpty (q : ConflictQ) : Bool := q.all fun elem => elem.token.isNone

/-- The count `sliceNdiceNeeded` of a queue. -/
def ConflictQ.sliceNdiceNeeded (q : ConflictQ) : ℕ := q.countP fun elem => elem.grant ≠ ∅

/-- `tkm_RevokeReqd`: the types to revoke and those of them that can be sliced. -/
def tkm_RevokeReqd (issued requested : Token φ ν) : Option (Types × Types) :=
  if issued.host = requested.host then none
  else
    let overlap := !(decide (TKM_TYPES_WITH_RANGE issued.types = ∅) ||
      decide (TKM_TYPES_WITH_RANGE requested.types = ∅) || issued.range.disjoint requested.range)
    let requestedTypes := if overlap then requested.types else TKM_TYPES_WITHOUT_RANGE requested.types
    let totalConflicts := issued.types ∩ TKM_TYPE_CONFLICTS requestedTypes
    if totalConflicts = ∅ then none
    else some (totalConflicts, if issued.isVol || requested.isVol then ∅ else TKM_TYPES_WITH_RANGE totalConflicts)

/-- The loop of `tkm_ConflictingTokens` with room for some more tokens in the queue. -/
def searchLoop (h : Heap φ ν) (requested : Token φ ν) : ℕ → List Ptr → ConflictQ × Types
  | 0, _ => ([], ∅)
  | _ + 1, [] => ([], ∅)
  | room + 1, granted :: rest =>
    match tkm_RevokeReqd (h.token granted) requested with
    | some (revoke, slice) =>
      let (q, otherHostMask) := searchLoop h requested room rest
      (⟨some granted, revoke, slice, none, none⟩ :: q, otherHostMask)
    | none =>
      let (q, otherHostMask) := searchLoop h requested (room + 1) rest
      (q, if (h.token granted).host = requested.host then otherHostMask
        else (h.token granted).types ∪ otherHostMask)

/-- `tkm_ConflictingTokens`: the queue, which is not yet held, and the mask of the
types of other hosts. -/
def tkm_ConflictingTokens (h : Heap φ ν) (issued : TokenList) (requested : Token φ ν) : ConflictQ × Types :=
  if TKM_TYPE_CONFLICTS issued.mask.typeSum ∩ requested.types = ∅ then ([], issued.mask.typeSum)
  else searchLoop h requested TKM_MAX_CONFLICTS issued.list

/-- The references that `tkm_AddToConflictQ` takes. -/
def holdConflictQ (h : Heap φ ν) : ConflictQ → Heap φ ν
  | [] => h
  | elem :: q =>
    match elem.token with
    | none => holdConflictQ h q
    | some p => holdConflictQ (TKM_HOLDTOKEN h p) q

/-- `tkm_RemoveFromConflictQ`, with the index of the element. -/
def tkm_RemoveFromConflictQ (q : ConflictQ) (p : Ptr) : ConflictQ × ℕ :=
  let i := q.findIdx fun elem => elem.token = some p
  (q.modify i fun elem => { elem with token := none }, i)

section Removal

variable [DecidableEq φ] [DecidableEq ν] (L : Layout φ ν)

def tkm_DeleteConflictQ (h : Heap φ ν) : ConflictQ → Option (Heap φ ν)
  | [] => some h
  | elem :: q =>
    match elem.token with
    | none => tkm_DeleteConflictQ h q
    | some p => (TKM_RELETOKEN L h p).bind fun h => tkm_DeleteConflictQ h q

def cleanSlice (h : Heap φ ν) : Option Ptr → Option (Heap φ ν)
  | none => some h
  | some p => if (h.token p).granting then TKM_RECYCLE_TOKEN L h p else some h

/-- The first loop of `tkm_CleanConflictQ`. -/
def cleanSlices (h : Heap φ ν) : ConflictQ → Option (Heap φ ν)
  | [] => some h
  | elem :: q =>
    match elem.token with
    | none => cleanSlices h q
    | some _ => (cleanSlice L h elem.grantLow).bind fun h => (cleanSlice L h elem.grantHigh).bind fun h => cleanSlices h q

def tkm_CleanConflictQ (h : Heap φ ν) (q : ConflictQ) : Option (Heap φ ν) :=
  (cleanSlices L h q).bind fun h => tkm_DeleteConflictQ L h q

/-- What `tkm_PreProcessConflictQ` does with the slice of a token that it drops. -/
def dropSlice (h : Heap φ ν) : Option Ptr → Option (Heap φ ν)
  | none => some h
  | some p => TKM_RECYCLE_TOKEN L (h.setToken p { h.token p with granting := false }) p

/-- A slice: the structure it is to be written to, and its contents. -/
abbrev Slice (φ ν : Type) := Ptr × Token φ ν

/-- One half of `tkm_MakeSliceNdice`: a slice for a piece of the range of `issued`,
and the rest of the pool. -/
def makeSlice (h : Heap φ ν) (issued : Token φ ν) (grant : Types) :
    Option ByteRange → List Ptr → Option (Option (Slice φ ν) × List Ptr)
  | none, pool => some (none, pool)
  | some _, [] => none
  | some range, p :: pool =>
    let slice :=
      { h.token p with types := grant, range := range, host := issued.host, holder := issued.holder, granting := true }
    some (some (p, slice), pool)

def tkm_MakeSliceNdice (h : Heap φ ν) (newToken issued : Token φ ν) (grant : Types) (pool : List Ptr) :
    Option (Option (Slice φ ν) × Option (Slice φ ν) × List Ptr) :=
  let slicedRange := issued.range.complement newToken.range
  (makeSlice h issued grant slicedRange.1 pool).bind fun (low, pool) =>
    (makeSlice h issued grant slicedRange.2 pool).map fun (high, pool) => (low, high, pool)

/-- The loop of `tkm_FixFileConflicts` that makes the slices: the queue with them,
the slices to grant with the last one first, and the rest of the pool. -/
def makeSlices (h : Heap φ ν) (newToken : Token φ ν) :
    ConflictQ → List Ptr → List (Slice φ ν) → Option (ConflictQ × List (Slice φ ν) × List Ptr)
  | [], pool, slices => some ([], slices, pool)
  | elem :: q, pool, slices =>
    if elem.grant = ∅ then
      (makeSlices h newToken q pool slices).map fun (q, slices, pool) => (elem :: q, slices, pool)
    else
      match elem.token with
      | none => none
      | some p =>
        (tkm_MakeSliceNdice h newToken (h.token p) elem.grant pool).bind fun (low, high, pool) =>
          (makeSlices h newToken q pool (high.toList ++ low.toList ++ slices)).map fun (q, slices, pool) =>
            ({ elem with grantLow := low.map Prod.fst, grantHigh := high.map Prod.fst } :: q, slices, pool)

def grantSlices (h : Heap φ ν) : List (Slice φ ν) → Option (Heap φ ν)
  | [] => some h
  | (p, slice) :: rest => (tkm_GrantHolderToken L (h.setToken p slice) p).bind fun h => grantSlices h rest

end Removal

end dce.tkm
