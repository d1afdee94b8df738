import Dce.Lib.System
import Dce.Tkm.Conflicts

open lib

namespace dce.tkm

open TokenType

/-- The flags of a request. The asynchronous grants have `TKM_FLAGS_QUEUEREQUEST` and
`TKM_FLAGS_DOING_ASYNCGRANT`. -/
inductive Flags where
  | getToken (queueRequest expectNoConfl optimisticGrant : Bool)
  | doingAsyncGrant
  deriving DecidableEq

def Flags.queueRequest : Flags → Bool
  | getToken queueRequest _ _ => queueRequest
  | doingAsyncGrant => true

def Flags.expectNoConfl : Flags → Bool
  | getToken _ expectNoConfl _ => expectNoConfl
  | doingAsyncGrant => false

def Flags.optimisticGrant : Flags → Bool
  | getToken _ _ optimisticGrant => optimisticGrant
  | doingAsyncGrant => false

structure Request where
  tokenP : Ptr
  flags : Flags

/-- Return codes. -/
inductive Code where
  | TKM_SUCCESS
  | TKM_ERROR_TOKENCONFLICT
  | TKM_ERROR_TRYAGAIN
  | TKM_ERROR_HARDCONFLICT
  | ENOMEM
  deriving DecidableEq

open Code

def tkm_MostSevere (code1 code2 : Code) : Code :=
  if code1 = TKM_ERROR_TOKENCONFLICT ∨ code2 = TKM_ERROR_TOKENCONFLICT then TKM_ERROR_TOKENCONFLICT
  else if code1 = TKM_SUCCESS then code2 else code1

/-- The callers of `tkm_FixFileConflicts` with the locals they keep: for a volume
token the files that are still to be visited and `localVolCount`. -/
inductive FileCaller (φ : Type) where
  | getFileToken (f : φ)
  | getVolToken (f : φ) (rest : List φ) (localVolCount : ℕ)

/-- The callers of `tkm_FixVolConflicts` with the locals they keep: for a file token
`localFileCount` and `otherHostFileMask`. -/
inductive VolCaller (φ ν : Type) where
  | getFileToken (f : φ) (localFileCount : ℕ) (otherHostFileMask : Types)
  | getVolToken (v : ν)

inductive Caller (φ ν : Type) where
  | file (c : FileCaller φ)
  | vol (c : VolCaller φ ν)

/-- `afsRevokeDesc`, with the index of its element of the queue and the host it is
sent to. A column has the id and the types of a slice. -/
structure RevokeDesc where
  index : ℕ
  host : Host
  tokenID : ℕ
  type : Types
  columnA : Option (ℕ × Types)
  columnB : Option (ℕ × Types)

/-- A call of `tkm_AdjustAccepted`. -/
structure Acceptance where
  internalP : Ptr
  tokenID : ℕ
  offered : Types
  accepted : Types

/-- Where a thread is in `tkm_ParallelRevoke`. -/
inductive Stage where
  /-- In `tkm_PreProcessConflictQ`, before the element `i`. -/
  | preProcess (i : ℕ)
  /-- Asleep there until the token of the element `i` is granted. -/
  | sleeping (i : ℕ)
  /-- Before the element `pos`, with the descriptions for the next calls. -/
  | describe (pos : ℕ) (revokeList : List RevokeDesc)
  /-- In `tpq_Pardo`, with what has no answer yet and the slices that have one. -/
  | doRevoke (pos : ℕ) (revokeList : List RevokeDesc) (acceptances : List Acceptance) (code : Code)

/-- Who calls `tkm_ParallelRevoke`. -/
inductive Revoker (φ ν : Type) where
  | request (r : Request) (c : Caller φ ν)
  | gc

/-- What a thread does when it has the locks again that it waits for. It holds none
of the locks of the files and volumes. -/
inductive Thread (φ ν : Type) where
  | idle
  /-- At the start of `tkm_FixFileConflicts`. -/
  | fixFile (r : Request) (c : FileCaller φ)
  /-- At the start of the loop of `tkm_FixFileConflicts`, with `sliceNdicePool`. -/
  | fileLoop (r : Request) (c : FileCaller φ) (pool : List Ptr)
  /-- In `tkm_AllocToken` for `tkm_FixFileConflicts`. -/
  | alloc (r : Request) (c : FileCaller φ) (q : ConflictQ) (pool ret : List Ptr) (n : ℕ)
  /-- At the start of the loop of `tkm_FixVolConflicts`. -/
  | volLoop (r : Request) (c : VolCaller φ ν)
  | revoke (revoker : Revoker φ ν) (q : ConflictQ) (stage : Stage)
  /-- Back from `tkm_ParallelRevoke`. -/
  | revoked (r : Request) (c : Caller φ ν) (q : ConflictQ) (code : Code)
  /-- Asleep in `tkm_GetFileToken` until a volume token is granted. -/
  | beingGranted (r : Request) (f : φ) (localFileCount : ℕ) (otherHostFileMask : Types)
  /-- In `HS_ASYNCGRANT`. -/
  | asyncGrant (newTokenP : Ptr)
  /-- In `tkm_GetVolToken` after the last file. -/
  | volWalked (r : Request) (v : ν) (localVolCount : ℕ)
  /-- The collector, with the tokens it has found. -/
  | gc (q : ConflictQ)
  /-- The collector in `tkm_DeleteConflictQUnlocked`. -/
  | gcDelete (q : ConflictQ)

variable {φ ν : Type}

def FileCaller.file : FileCaller φ → φ
  | getFileToken f => f
  | getVolToken f _ _ => f

def VolCaller.volume (L : Layout φ ν) : VolCaller φ ν → ν
  | getFileToken f _ _ => L.vol f
  | getVolToken v => v

def TKM_FREE_RO_TOKENS : Types :=
  {TKM_LOCK_READ, TKM_DATA_READ, TKM_OPEN_READ, TKM_OPEN_SHARED, TKM_OPEN_PRESERVE, TKM_STATUS_READ, TKM_SPOT_HERE}

def TKM_FREETOKENS (L : Layout φ ν) (v : ν) : Types := if L.readOnly v then TKM_FREE_RO_TOKENS else ∅

def TKM_MAXTOKENS (L : Layout φ ν) (v : ν) : Types := if L.readOnly v then TKM_FREE_RO_TOKENS else Finset.univ

/-- A range that does not start at 0 or that ends before `osi_hMaxint32`. -/
def ByteRange.isPartial (range : ByteRange) : Bool := decide (range.lowBnd ≠ 0 ∨ range.upBnd < 2 ^ 31 - 1)

/-- The rights that `TKM_FLAGS_OPTIMISTICGRANT` adds. -/
def moreRights (range : ByteRange) (otherHostMask : Types) : Types :=
  let rights := Finset.univ \ ({TKM_OPEN_DELETE, TKM_SPOT_HERE, TKM_SPOT_THERE} ∪ TKM_TYPE_CONFLICTS otherHostMask)
  if range.isPartial then TKM_TYPES_WITH_RANGE rights else rights

def Holder.vol (L : Layout φ ν) : Holder φ ν → ν
  | .file f => L.vol f
  | .volume v => v

variable [DecidableEq φ] [DecidableEq ν] (L : Layout φ ν)

/-- The end of a request that was neither granted nor queued. `tkm_GetToken` frees its
token, the thread of the asynchronous grants ignores the code. -/
def requestFailed (h : Heap φ ν) (r : Request) : Heap φ ν × Thread φ ν :=
  match r.flags with
  | .getToken .. => (tkm_PutTokenInFreeList h r.tokenP, .idle)
  | .doingAsyncGrant => (h, .idle)

/-- `tkm_RemoveFromDoubleList` for the list `beingGranted`. -/
def removeFromBeingGranted (h : Heap φ ν) (v : ν) (p : Ptr) : Option (Heap φ ν) :=
  if p ∈ (h.volume v).beingGranted then
    some (h.setVolume v { h.volume v with beingGranted := (h.volume v).beingGranted.erase p })
  else none

/-- The end of `tkm_GetVolToken` with an error, after which `tkm_GetToken` frees the token. -/
def getVolTokenFailed (h : Heap φ ν) (r : Request) (v : ν) : Option (Heap φ ν × Thread φ ν) :=
  (removeFromBeingGranted h v r.tokenP).map fun h => (tkm_PutTokenInFreeList h r.tokenP, .idle)

/-- The end of `tkm_GetVolToken` with a grant. -/
def grantVolToken (h : Heap φ ν) (r : Request) (v : ν) : Option (Heap φ ν × Thread φ ν) :=
  (removeFromBeingGranted h v r.tokenP).bind fun h =>
    (tkm_GrantHolderToken L h r.tokenP).map fun h => (h, .idle)

/-- What the caller does when `tkm_FixFileConflicts` returns an error. -/
def fixFileFailed (h : Heap φ ν) (r : Request) (c : FileCaller φ) (code : Code) : Option (Heap φ ν × Thread φ ν) :=
  match c with
  | .getFileToken f =>
    if r.flags.queueRequest ∧ code = TKM_ERROR_TOKENCONFLICT then
      some (h.setFile f { h.file f with queued := r.tokenP :: (h.file f).queued }, .idle)
    else some (requestFailed h r)
  | .getVolToken f _ _ => getVolTokenFailed h r (L.vol f)

/-- What the caller does when `tkm_FixVolConflicts` returns an error. -/
def fixVolFailed (h : Heap φ ν) (r : Request) (c : VolCaller φ ν) (code : Code) : Option (Heap φ ν × Thread φ ν) :=
  match c with
  | .getFileToken f localFileCount _ =>
    if localFileCount ≠ (h.file f).tokenGrants then some (h, .fixFile r (.getFileToken f))
    else if r.flags.queueRequest ∧ code = TKM_ERROR_TOKENCONFLICT then
      let volume := h.volume (L.vol f)
      some (h.setVolume (L.vol f) { volume with queuedFileTokens := r.tokenP :: volume.queuedFileTokens }, .idle)
    else some (requestFailed h r)
  | .getVolToken v => getVolTokenFailed h r v

/-- The new `fileP->host`. -/
def grantedHost (file : File) (host : Host) (otherHostMask : Types) : Option Host :=
  if otherHostMask = ∅ then some host else if file.host ≠ some host then none else file.host

def grantedTypes (flags : Flags) (newToken : Token φ ν) (otherHostMask : Types) : Types :=
  if flags.optimisticGrant then newToken.types ∪ moreRights newToken.range otherHostMask else newToken.types

/-- The end of `tkm_GetFileToken` with a grant. -/
def grantFileToken (h : Heap φ ν) (r : Request) (f : φ) (otherHostMask : Types) : Option (Heap φ ν × Thread φ ν) :=
  let newToken := h.token r.tokenP
  let h := h.setFile f { h.file f with host := grantedHost (h.file f) newToken.host otherHostMask }
  let h := h.setToken r.tokenP { newToken with types := grantedTypes r.flags newToken otherHostMask }
  (tkm_GrantHolderToken L h r.tokenP).map fun h =>
    match r.flags with
    | .getToken .. => (h, .idle)
    | .doingAsyncGrant =>
      (h.setToken r.tokenP { h.token r.tokenP with granting := true }, .asyncGrant r.tokenP)

/-- What the caller does when `tkm_FixVolConflicts` returns success. -/
def volFixed (h : Heap φ ν) (r : Request) (c : VolCaller φ ν) (otherHostVolMask : Types) :
    Option (Heap φ ν × Thread φ ν) :=
  match c with
  | .getFileToken f localFileCount otherHostFileMask =>
    if localFileCount ≠ (h.file f).tokenGrants then some (h, .fixFile r (.getFileToken f))
    else grantFileToken L h r f (otherHostFileMask ∪ otherHostVolMask)
  | .getVolToken v =>
    if (h.volume v).fileTokens.typeSum ∩ TKM_TYPE_CONFLICTS (h.token r.tokenP).types = ∅ then grantVolToken L h r v
    else
      match L.files v with
      | [] => some (h, .volWalked r v (h.volume v).tokenGrants)
      | f :: rest => some (h, .fixFile r (.getVolToken f rest (h.volume v).tokenGrants))

/-- The body of the loop of `tkm_FixVolConflicts` up to `tkm_ParallelRevoke`. -/
def revokeVolConflicts (h : Heap φ ν) (r : Request) (c : VolCaller φ ν) (tokensToRevoke : ConflictQ) :
    Option (Heap φ ν × Thread φ ν) :=
  let h := holdConflictQ h tokensToRevoke
  if r.flags.expectNoConfl then
    (tkm_DeleteConflictQ L h tokensToRevoke).bind fun h => fixVolFailed L h r c TKM_ERROR_TOKENCONFLICT
  else some (h, .revoke (.request r (.vol c)) tokensToRevoke (.preProcess 0))

/-- The loop of `tkm_FixVolConflicts` up to `tkm_ParallelRevoke`. -/
def tkm_FixVolConflicts (h : Heap φ ν) (r : Request) (c : VolCaller φ ν) : Option (Heap φ ν × Thread φ ν) :=
  let found := tkm_ConflictingTokens h (h.volume (c.volume L)).granted (h.token r.tokenP)
  if found.1 = [] then volFixed L h r c found.2 else revokeVolConflicts L h r c found.1

/-- `tkm_GetFileToken` from the point where it has the lock of the volume. -/
def getFileTokenVol (h : Heap φ ν) (r : Request) (f : φ) (localFileCount : ℕ) (otherHostFileMask : Types) :
    Option (Heap φ ν × Thread φ ν) :=
  let newToken := h.token r.tokenP
  if ∃ tmp ∈ (h.volume (L.vol f)).beingGranted, newToken.host ≠ (h.token tmp).host ∧
      newToken.types ∩ TKM_TYPE_CONFLICTS (h.token tmp).types ≠ ∅ then
    if r.flags.expectNoConfl then some (requestFailed h r)
    else some (h, .beingGranted r f localFileCount otherHostFileMask)
  else tkm_FixVolConflicts L h r (.getFileToken f localFileCount otherHostFileMask)

/-- What the caller does when `tkm_FixFileConflicts` returns success. -/
def fileFixed (h : Heap φ ν) (r : Request) (c : FileCaller φ) (otherHostFileMask : Types) :
    Option (Heap φ ν × Thread φ ν) :=
  match c with
  | .getFileToken f => getFileTokenVol L h r f (h.file f).tokenGrants otherHostFileMask
  | .getVolToken f [] localVolCount => some (h, .volWalked r (L.vol f) localVolCount)
  | .getVolToken _ (f :: rest) localVolCount => some (h, .fixFile r (.getVolToken f rest localVolCount))

/-- `tkm_FixFileConflicts` from the point where it has the tokens for the slices up
to `tkm_ParallelRevoke`. -/
def sliceConflicts (h : Heap φ ν) (r : Request) (c : FileCaller φ) (q : ConflictQ) (pool : List Ptr) :
    Option (Heap φ ν × Thread φ ν) :=
  if q.sliceNdiceNeeded > 0 then
    (makeSlices h (h.token r.tokenP) q pool []).bind fun (q, slices, pool) =>
      (grantSlices L (tkm_FreeTokens h pool) slices).map fun h =>
        (h, .revoke (.request r (.file c)) q (.preProcess 0))
  else some (tkm_FreeTokens h pool, .revoke (.request r (.file c)) q (.preProcess 0))

/-- `sliceNdicePool` with some more tokens. -/
def addToPool (pool more : List Ptr) : List Ptr := if pool = [] then more else more.reverse ++ pool

/-- The body of the loop of `tkm_FixFileConflicts` up to the point where it gives up
the lock. -/
def revokeFileConflicts (h : Heap φ ν) (r : Request) (c : FileCaller φ) (tokensToRevoke : ConflictQ)
    (pool : List Ptr) : Option (Heap φ ν × Thread φ ν) :=
  let h := holdConflictQ h tokensToRevoke
  if r.flags.expectNoConfl then
    (tkm_DeleteConflictQ L h tokensToRevoke).bind fun h => fixFileFailed L h r c TKM_ERROR_TOKENCONFLICT
  else
    let needed := 2 * tokensToRevoke.sliceNdiceNeeded
    let more := tkm_AllocTokenNoSleep h needed
    if more.1.length ≠ needed then
      some (more.2, .alloc r c tokensToRevoke (addToPool pool more.1) [] (needed - more.1.length))
    else sliceConflicts L more.2 r c tokensToRevoke (addToPool pool more.1)

/-- The loop of `tkm_FixFileConflicts` up to the point where it gives up the lock. -/
def fileConflictLoop (h : Heap φ ν) (r : Request) (c : FileCaller φ) (pool : List Ptr) :
    Option (Heap φ ν × Thread φ ν) :=
  let found := tkm_ConflictingTokens h (h.file c.file).granted (h.token r.tokenP)
  if found.1 = [] then fileFixed L h r c found.2 else revokeFileConflicts L h r c found.1 pool

def tkm_FixFileConflicts (h : Heap φ ν) (r : Request) (c : FileCaller φ) : Option (Heap φ ν × Thread φ ν) :=
  if some (h.token r.tokenP).host = (h.file c.file).host then fileFixed L h r c ∅
  else fileConflictLoop L h r c []

/-- `tkm_FixFileConflicts` when `tkm_AllocToken` has all the tokens. With an empty pool
it goes on with the queue it has. -/
def allocated (h : Heap φ ν) (r : Request) (c : FileCaller φ) (q : ConflictQ) (pool ret : List Ptr) :
    Option (Heap φ ν × Thread φ ν) :=
  if pool = [] then sliceConflicts L h r c q ret
  else (tkm_DeleteConflictQ L h q).map fun h => (h, .fileLoop r c (ret.reverse ++ pool))

/-- Whether a token of the queue still has a type that was refused. -/
def stillRefused (h : Heap φ ν) (q : ConflictQ) : Bool :=
  q.any fun elem => elem.token.any fun p => decide (elem.revoke ∩ (h.token p).types ≠ ∅)

/-- The same in `tkm_FixVolConflicts`, which also looks at the elements that were
removed. -/
def stillRefusedVol (h : Heap φ ν) : ConflictQ → Option Bool
  | [] => some false
  | elem :: q =>
    match elem.token with
    | none => none
    | some p => if elem.revoke ∩ (h.token p).types ≠ ∅ then some true else stillRefusedVol h q

/-- `tkm_FixFileConflicts` after `tkm_ParallelRevoke`. -/
def fileRevoked (h : Heap φ ν) (r : Request) (c : FileCaller φ) (q : ConflictQ) (code : Code) :
    Option (Heap φ ν × Thread φ ν) :=
  if code = TKM_SUCCESS then
    if q.isEmpty then (tkm_DeleteConflictQ L h q).map fun h => (h, .fileLoop r c []) else none
  else if code = TKM_ERROR_TOKENCONFLICT ∧ r.flags.queueRequest ∧ ¬stillRefused h q then
    (tkm_CleanConflictQ L h q).map fun h => (h, .fileLoop r c [])
  else (tkm_CleanConflictQ L h q).bind fun h => fixFileFailed L h r c code

/-- `tkm_FixVolConflicts` after `tkm_ParallelRevoke`. -/
def volRevoked (h : Heap φ ν) (r : Request) (c : VolCaller φ ν) (q : ConflictQ) (code : Code) :
    Option (Heap φ ν × Thread φ ν) :=
  let again := (tkm_DeleteConflictQ L h q).map fun h => (h, Thread.volLoop r c)
  let failed := (tkm_DeleteConflictQ L h q).bind fun h => fixVolFailed L h r c code
  if code = TKM_SUCCESS then again
  else
    match c with
    | .getFileToken .. =>
      if code = TKM_ERROR_TOKENCONFLICT ∧ r.flags.queueRequest then
        (stillRefusedVol h q).bind fun refused => if refused then failed else again
      else failed
    | .getVolToken _ => failed

/-- What `tkm_PreProcessConflictQ` does next. -/
inductive PreProcessed where
  | next
  | sleep
  | refused

/-- Whether `tkm_ParallelRevoke` has `TKM_PARA_REVOKE_FLAG_FORVOLTOKEN`. -/
def Revoker.forVolToken (h : Heap φ ν) : Revoker φ ν → Bool
  | request r _ => (h.token r.tokenP).isVol
  | gc => false

/-- The body of the loop of `tkm_PreProcessConflictQ` for the token `p`. -/
def preProcessElem (h : Heap φ ν) (revoker : Revoker φ ν) (q : ConflictQ) (elem : ConflictElem) (p : Ptr)
    (expired recent : Bool) : Option (Heap φ ν × ConflictQ × PreProcessed) :=
  let t := h.token p
  let removed := (tkm_RemoveFromConflictQ q p).1
  let pos := (tkm_RemoveFromConflictQ q p).2
  if expired ∨ t.types = ∅ then
    (TKM_RELE_AND_RECYCLE_TOKEN L h p).bind fun h =>
      (dropSlice L h (q[pos]?.bind fun elem => elem.grantLow)).bind fun h =>
        (dropSlice L h (q[pos]?.bind fun elem => elem.grantHigh)).map fun h => (h, removed, .next)
  else
    if t.refused ∩ elem.revoke ≠ ∅ ∧ elem.grantLow = none ∧ elem.grantHigh = none ∧ ¬revoker.forVolToken h ∧
        recent then
      match revoker with
      | .gc => (TKM_RELETOKEN L h p).map fun h => (h, removed, .next)
      | .request .. => some (h, q, .refused)
    else if t.granting then
      if t.isVol then none
      else
        match revoker with
        | .gc => (TKM_RELETOKEN L h p).map fun h => (h, removed, .next)
        | .request .. => some (h, q, .sleep)
    else some (h, q, .next)

/-- The return of `tkm_ParallelRevoke`. -/
def Revoker.return (revoker : Revoker φ ν) (q : ConflictQ) (code : Code) : Thread φ ν :=
  match revoker with
  | .request r c => .revoked r c q code
  | .gc => .gcDelete q

/-- One element of `tkm_PreProcessConflictQ`. -/
def tkm_PreProcessConflictQ (h : Heap φ ν) (revoker : Revoker φ ν) (q : ConflictQ) (i : ℕ)
    (expired recent : Bool) : Option (Heap φ ν × Thread φ ν) :=
  match q[i]? with
  | none =>
    if q.isEmpty then some (h, revoker.return q TKM_SUCCESS)
    else some (h, .revoke revoker q (.describe 0 []))
  | some elem =>
    elem.token.bind fun p =>
      (preProcessElem L h revoker q elem p expired recent).map fun (h, q, pre) =>
        match pre with
        | .next => (h, .revoke revoker q (.preProcess (i + 1)))
        | .sleep => (h, .revoke revoker q (.sleeping i))
        | .refused => (h, revoker.return q TKM_ERROR_TOKENCONFLICT)

def TKM_MAXPARALLELRPC : ℕ := 10

/-- `tkm_InternalToExternalToken` of a slice. -/
def column (h : Heap φ ν) (grant : Option Ptr) : Option (ℕ × Types) :=
  grant.map fun p => ((h.token p).id, (h.token p).types)

def tkm_ConflictToAfsRevokeDesc (h : Heap φ ν) (pos : ℕ) (elem : ConflictElem) (p : Ptr) : RevokeDesc :=
  ⟨pos, (h.token p).host, (h.token p).id, elem.revoke, column h elem.grantLow, column h elem.grantHigh⟩

/-- One round of the loop of `tkm_ParallelRevoke`. -/
def describeNext (h : Heap φ ν) (q : ConflictQ) (pos : ℕ) (revokeList : List RevokeDesc) : Option Stage :=
  match q[pos]? with
  | none => some (.doRevoke pos revokeList [] TKM_SUCCESS)
  | some elem =>
    match elem.token with
    | none => some (.describe (pos + 1) revokeList)
    | some p =>
      let hosts := (revokeList.map RevokeDesc.host).dedup
      if (h.token p).refcount = 0 then none
      else if (h.token p).host ∉ hosts ∧ hosts.length = TKM_MAXPARALLELRPC then
        some (.doRevoke pos revokeList [] TKM_SUCCESS)
      else some (.describe (pos + 1) (revokeList ++ [tkm_ConflictToAfsRevokeDesc h pos elem p]))

/-- The call of `tkm_AdjustAccepted` for a column. -/
def acceptance (grant : Option Ptr) (column : Option (ℕ × Types)) (choice : Types) : List Acceptance :=
  match grant, column with
  | some p, some (id, types) => [⟨p, id, types, choice⟩]
  | _, _ => []

/-- An answer of a client about one token: whether the call has `HS_ERR_PARTIAL`, the
types refused, and what is chosen of each column. -/
structure Answer where
  partialErr : Bool
  errorIDs : Types
  colAChoice : Types
  colBChoice : Types

/-- Types of a token are refused, which does not count against the collector. -/
def noteRefused (h : Heap φ ν) (revoker : Revoker φ ν) (p : Ptr) (refused : Types) : Heap φ ν :=
  match revoker with
  | .gc => h
  | .request .. => h.setToken p { h.token p with refused := (h.token p).refused ∪ refused }

/-- The body of the loop of `tkm_DoRevoke` up to `tkm_AdjustAccepted`. The client
chooses among the types it is offered. -/
def tkm_DoRevoke (h : Heap φ ν) (revoker : Revoker φ ν) (q : ConflictQ) (revoke : RevokeDesc) (answer : Answer)
    (code : Code) : Option (Heap φ ν × ConflictQ × List Acceptance × Code) :=
  q[revoke.index]?.bind fun conflict =>
    conflict.token.bind fun p =>
      let acceptances := acceptance conflict.grantLow revoke.columnA answer.colAChoice ++
        acceptance conflict.grantHigh revoke.columnB answer.colBChoice
      if (h.token p).id ≠ revoke.tokenID ∨ ∃ a ∈ acceptances, ¬a.accepted ⊆ a.offered then none
      else
        let refused := answer.errorIDs ∩ revoke.type
        let typesRevoked := revoke.type \ refused
        if answer.partialErr ∧ refused ≠ ∅ then
          (tkm_RemoveTypes L (noteRefused h revoker p refused) p typesRevoked).map fun h =>
            (h, q, acceptances, TKM_ERROR_TOKENCONFLICT)
        else
          (tkm_RemoveTypes L (releToken h p) p typesRevoked).map fun h =>
            (h, (tkm_RemoveFromConflictQ q p).1, acceptances, code)

def tkm_AdjustAccepted (h : Heap φ ν) (a : Acceptance) : Option (Heap φ ν) :=
  let t := h.token a.internalP
  if ¬t.granting ∨ t.isVol ∨ a.tokenID ≠ t.id then none
  else if a.accepted = ∅ then TKM_RECYCLE_TOKEN L h a.internalP
  else some (h.setToken a.internalP { t with types := a.accepted, granting := false })

/-- The end of `tpq_Pardo`. -/
def pardoDone (revoker : Revoker φ ν) (q : ConflictQ) (pos : ℕ) (code : Code) : Thread φ ν :=
  if code ≠ TKM_SUCCESS ∨ q.length ≤ pos then revoker.return q code
  else .revoke revoker q (.describe pos [])

/-- The choices of a step. -/
inductive Action (φ ν : Type) where
  /-- `osi_Alloc` of that many token structures. -/
  | moreTokens (n : ℕ)
  | tkm_GetToken (holder : Holder φ ν) (types : Types) (range : ByteRange) (host : Host)
      (queueRequest expectNoConfl optimisticGrant : Bool)
  | tkm_ReturnToken (holder : Holder φ ν) (tokenID : ℕ) (rights : Types)
  /-- A granted token has expired. -/
  | expire (p : Ptr)
  /-- The refusal of a granted token is too old. -/
  | clearRefused (p : Ptr)
  /-- The next attempt of `tkm_TryAsyncGrantsOnList`, on the tokens queued for a file
  or a volume. -/
  | tryAsyncGrant (holder : Holder φ ν) (p : Ptr)
  | gcStart
  | gcAdd (p : Ptr)
  | gcRevoke
  /-- The thread gets the locks it waits for, or is woken up. -/
  | run
  /-- `tkm_AllocToken` gets some of the tokens. -/
  | allocMore
  /-- `tkm_AllocToken` finds that the collector has failed. -/
  | allocFail
  | preProcess (expired recent : Bool)
  /-- The answer for one of the tokens of a call. -/
  | answer (j : ℕ) (answer : Answer)
  /-- The call for one of the tokens fails, with `HS_ERR_TRYAGAIN` or otherwise. -/
  | callFailed (j : ℕ) (tryAgain : Bool)
  | accept (j : ℕ)

def removeFromQueued (h : Heap φ ν) (holder : Holder φ ν) (p : Ptr) : Option (Heap φ ν) :=
  match holder with
  | .file f =>
    if p ∈ (h.file f).queued then
      some (h.setFile f { h.file f with queued := (h.file f).queued.erase p })
    else none
  | .volume v =>
    if p ∈ (h.volume v).queuedFileTokens then
      some (h.setVolume v { h.volume v with queuedFileTokens := (h.volume v).queuedFileTokens.erase p })
    else none

/-- `tkm_GetToken` up to `tkm_GetFileToken` or `tkm_GetVolToken`, and the latter up to
its loop. -/
def getToken (h : Heap φ ν) (holder : Holder φ ν) (types : Types) (range : ByteRange) (host : Host)
    (queueRequest expectNoConfl optimisticGrant : Bool) : Option (Heap φ ν × Thread φ ν) :=
  (tkm_GetFreeToken h).map fun (p, h) =>
    let h := h.setToken p { h.token p with host := host, types := types, range := range, holder := some holder }
    let r : Request := ⟨p, .getToken queueRequest expectNoConfl optimisticGrant⟩
    if types ⊆ TKM_FREETOKENS L (holder.vol L) ∨ ¬types ⊆ TKM_MAXTOKENS L (holder.vol L) then requestFailed h r
    else
      match holder with
      | .file f => (h, .fixFile r (.getFileToken f))
      | .volume v =>
        if range.isPartial then requestFailed h r
        else
          (h.setVolume v { h.volume v with beingGranted := p :: (h.volume v).beingGranted },
            .volLoop r (.getVolToken v))

def tkm_ReturnToken (h : Heap φ ν) (holder : Holder φ ν) (tokenID : ℕ) (rights : Types) : Option (Heap φ ν) :=
  match (h.granted holder).find? fun p => (h.token p).id = tokenID with
  | none => some h
  | some p =>
    (tkm_RemoveTypes L h p rights).map fun h =>
      match holder with
      | .file _ =>
        if rights = ∅ ∧ (h.token p).types ≠ ∅ ∧ ¬(h.token p).granting then
          h.setToken p { h.token p with refused := ∅ }
        else h
      | .volume _ => h

/-- The tokens in the granted list of their holder. -/
def Heap.isGranted (h : Heap φ ν) (p : Ptr) : Bool :=
  (h.token p).holder.any fun holder => decide (p ∈ h.granted holder)

def start (h : Heap φ ν) : Action φ ν → Option (Heap φ ν × Thread φ ν)
  | .moreTokens n => some (tkm_MoreTokens h n, .idle)
  | .tkm_GetToken holder types range host queueRequest expectNoConfl optimisticGrant =>
    getToken L h holder types range host queueRequest expectNoConfl optimisticGrant
  | .tkm_ReturnToken holder tokenID rights => (tkm_ReturnToken L h holder tokenID rights).map fun h => (h, .idle)
  | .expire p => if h.isGranted p then (TKM_RECYCLE_TOKEN L h p).map fun h => (h, .idle) else none
  | .clearRefused p =>
    if h.isGranted p then some (h.setToken p { h.token p with refused := ∅ }, .idle) else none
  | .tryAsyncGrant holder p =>
    (removeFromQueued h holder p).bind fun h =>
      match (h.token p).holder with
      | some (.file f) => some (h, .fixFile ⟨p, .doingAsyncGrant⟩ (.getFileToken f))
      | _ => none
  | .gcStart => some (h, .gc [])
  | _ => none

/-- What a thread in `tkm_ParallelRevoke` does. -/
def revokeStep (h : Heap φ ν) (revoker : Revoker φ ν) (q : ConflictQ) :
    Stage → Action φ ν → Option (Heap φ ν × Thread φ ν)
  | .preProcess i, .preProcess expired recent => tkm_PreProcessConflictQ L h revoker q i expired recent
  | .sleeping i, .run =>
    (q[i]?.bind fun elem => elem.token).bind fun p =>
      if (h.token p).granting then none else some (h, .revoke revoker q (.preProcess (i + 1)))
  | .describe pos revokeList, .run =>
    (describeNext h q pos revokeList).map fun stage => (h, .revoke revoker q stage)
  | .doRevoke pos revokeList acceptances code, .answer j answer =>
    revokeList[j]?.bind fun revoke =>
      (tkm_DoRevoke L h revoker q revoke answer code).map fun (h, q, more, code) =>
        (h, .revoke revoker q (.doRevoke pos (revokeList.eraseIdx j) (acceptances ++ more) code))
  | .doRevoke pos revokeList acceptances code, .callFailed j tryAgain =>
    if j < revokeList.length then
      let failed := if tryAgain then TKM_ERROR_TRYAGAIN else TKM_ERROR_HARDCONFLICT
      some (h, .revoke revoker q (.doRevoke pos (revokeList.eraseIdx j) acceptances (tkm_MostSevere code failed)))
    else none
  | .doRevoke pos revokeList acceptances code, .accept j =>
    acceptances[j]?.bind fun a =>
      (tkm_AdjustAccepted L h a).map fun h =>
        (h, .revoke revoker q (.doRevoke pos revokeList (acceptances.eraseIdx j) code))
  | .doRevoke pos [] [] code, .run => some (h, pardoDone revoker q pos code)
  | _, _ => none

def Thread.step (h : Heap φ ν) : Thread φ ν → Action φ ν → Option (Heap φ ν × Thread φ ν)
  | .idle, action => start L h action
  | .fixFile r c, .run => tkm_FixFileConflicts L h r c
  | .fileLoop r c pool, .run => fileConflictLoop L h r c pool
  | .alloc r c q pool ret n, .allocMore =>
    let more := tkm_AllocTokenNoSleep h (n - ret.length)
    some (more.2, .alloc r c q pool (ret ++ more.1) n)
  | .alloc r c q pool ret n, .allocFail =>
    if ret.length < n then
      (tkm_DeleteConflictQ L (tkm_FreeTokens (tkm_FreeTokens h ret) pool) q).bind fun h =>
        fixFileFailed L h r c ENOMEM
    else none
  | .alloc r c q pool ret n, .run => if n ≤ ret.length then allocated L h r c q pool ret else none
  | .volLoop r c, .run => tkm_FixVolConflicts L h r c
  | .revoke revoker q stage, action => revokeStep L h revoker q stage action
  | .revoked r (.file c) q code, .run => fileRevoked L h r c q code
  | .revoked r (.vol c) q code, .run => volRevoked L h r c q code
  | .beingGranted r f localFileCount otherHostFileMask, .run =>
    getFileTokenVol L h r f localFileCount otherHostFileMask
  | .asyncGrant newTokenP, .run =>
    some (h.setToken newTokenP { h.token newTokenP with granting := false }, .idle)
  | .volWalked r v localVolCount, .run =>
    if localVolCount ≠ (h.volume v).tokenGrants then some (h, .volLoop r (.getVolToken v))
    else grantVolToken L h r v
  | .gc q, .gcAdd p =>
    if h.isGranted p ∧ (h.token p).refused = ∅ then
      some (TKM_HOLDTOKEN h p, .gc (q ++ [⟨some p, (h.token p).types, ∅, none, none⟩]))
    else none
  | .gc q, .gcRevoke => some (h, .revoke .gc q (.preProcess 0))
  | .gcDelete [], .run => some (h, .idle)
  | .gcDelete (elem :: q), .run =>
    match elem.token with
    | none => some (h, .gcDelete q)
    | some p => (TKM_RELETOKEN L h p).map fun h => (h, .gcDelete q)
  | _, _ => none

/-- The token manager: what its threads share and where each of them is. -/
structure State (φ ν τ : Type) where
  heap : Heap φ ν
  thread : τ → Thread φ ν

def Heap.init (lastTokenId : ℕ) : Heap φ ν where
  token _ := Token.blank 0
  allocated := 0
  lastTokenId := lastTokenId
  freeTokens := []
  file _ := ⟨⟨TokenMask.zero, []⟩, [], none, 0⟩
  volume _ := ⟨⟨TokenMask.zero, []⟩, [], [], TokenMask.zero, 0⟩

/-- The steps of the threads, in any order. Between two of them no thread holds the
lock of a file or volume. -/
def tokenManager (τ : Type) [DecidableEq τ] : System (State φ ν τ) (τ × Action φ ν) where
  init s := (∃ lastTokenId, s.heap = Heap.init lastTokenId) ∧ ∀ t, s.thread t = .idle
  step s := fun (t, action) =>
    ((s.thread t).step L s.heap action).map fun (h, thread) => ⟨h, Function.update s.thread t thread⟩

end dce.tkm
