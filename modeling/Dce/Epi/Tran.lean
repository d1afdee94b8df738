import Dce.Lib.Forest
import Dce.Lib.System
import Mathlib.Data.BitVec

open lib

namespace dce.episode.trans

/-- The values of `tranStatus`. -/
inductive TranStatus where
  | FREE
  | ACTIVE
  | PENDING
  | COMPLETE
  deriving DecidableEq, Repr

/-- A position in the log: a pass and an offset. -/
structure LogPosition where
  pass : BitVec 16
  offset : BitVec 16
  deriving DecidableEq, Repr

/-- `struct elbt_TranRec`, without what only the search by identifier, the sleepers and the messages use. A record is known by
its number in place of its address; `last` is `lastPass` and `lastOffset`. -/
structure elbt_TranRec (Dev : Type) where
  tranId : BitVec 32
  ecList : List ℕ
  ecHead : ℕ
  ecSize : ℕ
  tranStatus : TranStatus
  tranSize : BitVec 32
  nested : Bool
  mapP : Option Dev
  reserved : BitVec 32
  atran : Bool
  ptran : Bool
  ctran : Bool
  ageq : Bool
  last : LogPosition

/-- `struct logMap`, as far as the transactions concern it. The lists have the oldest transaction first. -/
structure logMap where
  aTranList : List ℕ
  pTranList : List ℕ
  cTranList : List ℕ
  tranAgeQ : List ℕ
  reserved : BitVec 32
  maxTranSize : BitVec 32
  maxEndSize : BitVec 32
  maxUndoSize : BitVec 32
  logLocnArraySize : BitVec 32
  blkSize : ℕ

/-- What happens to the transactions: their changes of status, the merges of two that are not complete, and the records that are
written to end them. -/
inductive Event where
  | started (tP : ℕ)
  | merged (t1P t2P : ℕ)
  | pended (tP : ℕ)
  | bend (ecP ntP : ℕ)
  | written (tP : ℕ)
  | completed (tP : ℕ)
  | freed (tP : ℕ)
  deriving DecidableEq, Repr

/-- The transactions and the logs. `trace` keeps what has happened. -/
structure World (Dev : Type) where
  tran : ℕ → elbt_TranRec Dev
  allocated : ℕ
  tranFreeList : List ℕ
  tranActiveList : List ℕ
  tranPendingList : List ℕ
  tranCompleteList : List ℕ
  tranHashTable : List ℕ
  elbt_GlobalTranId : BitVec 32
  map : Dev → logMap
  trace : List Event

variable {Dev : Type} [DecidableEq Dev]

namespace World

variable (w : World Dev)

/-- Where the links of the equivalence classes lead. -/
def heads : ℕ → ℕ := fun tP => (w.tran tP).ecHead

def GetECHead (tP : ℕ) : ℕ := follow w.heads w.allocated (w.tran tP).ecHead

def setTran (tP : ℕ) (t : elbt_TranRec Dev) : World Dev := { w with tran := Function.update w.tran tP t }

def setMap (dP : Dev) (lmP : logMap) : World Dev := { w with map := Function.update w.map dP lmP }

def note (es : List Event) : World Dev := { w with trace := w.trace ++ es }

/-- The result of the search by identifier: `none` only when no transaction has it. -/
def LookupTran (tid : BitVec 32) (found : Option ℕ) : Prop :=
  match found with
  | none => ∀ tP ∈ w.tranHashTable, (w.tran tP).tranId ≠ tid
  | some tP => tP ∈ w.tranHashTable ∧ (w.tran tP).tranId = tid

instance (tid : BitVec 32) (found : Option ℕ) : Decidable (w.LookupTran tid found) :=
  match found with
  | none => inferInstanceAs (Decidable (∀ tP ∈ w.tranHashTable, (w.tran tP).tranId ≠ tid))
  | some tP => inferInstanceAs (Decidable (tP ∈ w.tranHashTable ∧ (w.tran tP).tranId = tid))

end World

def LOG_FULL_BUFFER : ℕ := 3

def BytesToLogBlocks (lmP : logMap) (bytes : BitVec 32) : ℕ := (bytes.toNat + (lmP.blkSize - 1)) % 2 ^ 32 / lmP.blkSize

/-- `elbl_StartTran`, when it succeeds: the transaction is put on the lists of the log, and its reservation is made. -/
def elbl_StartTran (w : World Dev) (dP : Dev) (tP : ℕ) (pos : LogPosition) : World Dev :=
  let lmP := w.map dP
  let t := w.tran tP
  let reserved := if t.nested then lmP.maxUndoSize else lmP.maxTranSize
  (w.setTran tP { t with reserved := reserved, atran := true, ptran := false, ctran := false, ageq := true, last := pos,
                         mapP := some dP }).setMap dP
    { lmP with aTranList := lmP.aTranList ++ [tP], tranAgeQ := lmP.tranAgeQ ++ [tP], reserved := lmP.reserved + reserved }

def elbl_PendTran (w : World Dev) (dP : Dev) (tP : ℕ) : Option (World Dev) :=
  let lmP := w.map dP
  let t := w.tran tP
  if t.atran ∧ t.ageq then
    some ((w.setTran tP { t with atran := false, ptran := true, reserved := lmP.maxEndSize }).setMap dP
      { lmP with aTranList := lmP.aTranList.erase tP, pTranList := lmP.pTranList ++ [tP]
                 reserved := lmP.reserved - t.reserved + lmP.maxEndSize })
  else none

/-- The assertions of `elbl_CompleteTran` on the head of the class; that its last position is not before that of the transaction
is left to the arithmetic of the log. -/
def headFits (w : World Dev) (dP : Dev) : Option ℕ → Prop
  | none => True
  | some ecP => (w.tran ecP).mapP = some dP ∧ ((w.tran ecP).atran ∨ (w.tran ecP).ptran)

instance (w : World Dev) (dP : Dev) (ecP : Option ℕ) : Decidable (headFits w dP ecP) :=
  match ecP with
  | none => .isTrue trivial
  | some _ => inferInstanceAs (Decidable (_ ∧ (_ ∨ _)))

/-- The reservations that are made from now on, after a transaction that was larger than they are. -/
def grown (lmP : logMap) (finalSize : BitVec 32) : logMap :=
  if lmP.maxTranSize < finalSize then { lmP with maxTranSize := finalSize } else lmP

/-- The log has room for a transaction of the new size. -/
def grownFits (lmP : logMap) (finalSize : BitVec 32) : Prop :=
  lmP.maxTranSize < finalSize → BytesToLogBlocks lmP finalSize + LOG_FULL_BUFFER < lmP.logLocnArraySize.toNat

instance (lmP : logMap) (finalSize : BitVec 32) : Decidable (grownFits lmP finalSize) :=
  inferInstanceAs (Decidable (_ → _))

def elbl_CompleteTran (w : World Dev) (dP : Dev) (tP : ℕ) (finalSize : BitVec 32) (ecP : Option ℕ) : Option (World Dev) :=
  let lmP := w.map dP
  let t := w.tran tP
  if t.atran ≠ t.ptran ∧ t.ageq ∧ headFits w dP ecP ∧ grownFits lmP finalSize then
    some ((w.setTran tP { t with last := ecP.elim t.last fun ecP => (w.tran ecP).last, atran := false, ptran := false, ctran := true,
                                 ageq := false, reserved := 0 }).setMap dP
      (grown { lmP with aTranList := if t.atran then lmP.aTranList.erase tP else lmP.aTranList
                        pTranList := if t.ptran then lmP.pTranList.erase tP else lmP.pTranList
                        cTranList := lmP.cTranList ++ [tP], tranAgeQ := lmP.tranAgeQ.erase tP
                        reserved := lmP.reserved - t.reserved } finalSize))
  else none

/-- What `elbl_PendTran` and `elbl_CompleteTran` are called for: the log of a transaction, when it has one. -/
def onMap (w : World Dev) (tP : ℕ) (notify : Dev → Option (World Dev)) : Option (World Dev) :=
  (w.tran tP).mapP.elim (some w) notify

def ChangeTranStatus (w : World Dev) (tP : ℕ) (status : TranStatus) : World Dev :=
  w.setTran tP { w.tran tP with tranStatus := status }

def PendTran (w : World Dev) (tP : ℕ) : Option (World Dev) :=
  if (w.tran tP).tranStatus = .ACTIVE then
    let w := { w with tranActiveList := w.tranActiveList.erase tP, tranPendingList := w.tranPendingList ++ [tP] }
    (onMap w tP fun dP => elbl_PendTran w dP tP).map fun w => (ChangeTranStatus w tP .PENDING).note [.pended tP]
  else none

/-- The lists in `CompleteTran`. -/
def moveToComplete (w : World Dev) (tP : ℕ) : Option (World Dev) :=
  match (w.tran tP).tranStatus with
  | .PENDING =>
    some { w with tranPendingList := w.tranPendingList.erase tP, tranCompleteList := w.tranCompleteList ++ [tP] }
  | .ACTIVE => some { w with tranActiveList := w.tranActiveList.erase tP, tranCompleteList := w.tranCompleteList ++ [tP] }
  | .COMPLETE | .FREE => none

def CompleteTran (w : World Dev) (tP : ℕ) (ecHead : Option ℕ) : Option (World Dev) :=
  (moveToComplete w tP).bind fun w =>
    (onMap w tP fun dP =>
      if ecHead.isSome ∨ (w.tran tP).tranStatus = .ACTIVE then elbl_CompleteTran w dP tP (w.tran tP).tranSize ecHead
      else none).map fun w => (ChangeTranStatus w tP .COMPLETE).note [.completed tP]

/-- The record that ends a transaction: it makes the transaction larger, and its position is the last of the transaction. `bytes`
is the size of what was written, the records of the other members of a class included. -/
def writeEnd (w : World Dev) (tP : ℕ) (bytes : BitVec 32) (pos : LogPosition) : World Dev :=
  (w.setTran tP { w.tran tP with tranSize := (w.tran tP).tranSize + bytes, last := pos }).note [.written tP]

/-- The records that `CompleteEC` writes for the other members of the class. -/
def elbl_WriteBends (w : World Dev) (ecP : ℕ) (members : List ℕ) : Option (World Dev) :=
  if ecP ∈ members then none else some (w.note (members.map (Event.bend ecP)))

/-- The loop of `CompleteEC` that completes the other members. -/
def completeMembers (ecP : ℕ) : List ℕ → World Dev → Option (World Dev)
  | [], w => some w
  | ntP :: rest, w =>
    (CompleteTran (w.setTran ecP { w.tran ecP with ecList := rest }) ntP (some ecP)).bind (completeMembers ecP rest)

def CompleteEC (w : World Dev) (ecP : ℕ) (bytes : BitVec 32) (pos : LogPosition) : Option (World Dev) :=
  let members := (w.tran ecP).ecList
  (elbl_WriteBends w ecP members).bind fun w =>
    (completeMembers ecP members (writeEnd w ecP bytes pos)).bind fun w => CompleteTran w ecP (some ecP)

/-- `elbt_EndTran`, from where the transaction has been found. -/
def endTran (w : World Dev) (tP : ℕ) (bytes : BitVec 32) (pos : LogPosition) : Option (World Dev) :=
  let ecHead := w.GetECHead tP
  if (w.tran tP).tranStatus = .ACTIVE ∧ 0 < (w.tran ecHead).ecSize then
    let w := w.setTran ecHead { w.tran ecHead with ecSize := (w.tran ecHead).ecSize - 1 }
    if 0 < (w.tran ecHead).ecSize then PendTran w tP
    else if (w.tran ecHead).ecList = [] then
      if ecHead = tP then CompleteTran (writeEnd w tP bytes pos) tP none else none
    else CompleteEC w ecHead bytes pos
  else none

def elbt_EndTran (w : World Dev) (tranId : BitVec 32) (found : ℕ) (bytes : BitVec 32) (pos : LogPosition) :
    Option (World Dev) :=
  if w.LookupTran tranId (some found) then endTran w found bytes pos else none

/-- The members of one class become members of the other. -/
def fold (w : World Dev) (ec1P ec2P : ℕ) : World Dev :=
  let t1 := w.tran ec1P
  let t2 := w.tran ec2P
  (w.setTran ec2P { t2 with ecSize := t2.ecSize + t1.ecSize, ecList := t2.ecList ++ t1.ecList ++ [ec1P] }).setTran ec1P
    { t1 with ecSize := 0, ecHead := ec2P, ecList := [] }

/-- `elbt_ECMerge`, from where the two transactions have been found. -/
def ecMerge (w : World Dev) (t1P t2P : ℕ) : Option (World Dev) :=
  if (w.tran t2P).tranStatus ≠ .ACTIVE then none
  else if (w.tran t1P).tranStatus = .FREE ∨ (w.tran t1P).tranStatus = .COMPLETE then some w
  else if (w.tran t1P).mapP ≠ (w.tran t2P).mapP then none
  else
    let ec1P := w.GetECHead t1P
    let ec2P := w.GetECHead t2P
    let w := w.note [.merged t1P t2P]
    if ec1P = ec2P then some w
    else if (w.tran ec1P).ecSize = 0 ∨ (w.tran ec2P).ecSize = 0 then none
    else if (w.tran ec1P).ecSize > (w.tran ec2P).ecSize then some (fold w ec2P ec1P)
    else some (fold w ec1P ec2P)

def elbt_ECMerge (w : World Dev) (tran1 tran2 : BitVec 32) (found1 : Option ℕ) (found2 : ℕ) : Option (World Dev) :=
  if tran1 = tran2 then some w
  else if w.LookupTran tran1 found1 then
    found1.elim (some w) fun t1P => if w.LookupTran tran2 (some found2) then ecMerge w t1P found2 else none
  else none

def DeallocTran (w : World Dev) (tP : ℕ) : Option (World Dev) :=
  if (w.tran tP).tranStatus = .COMPLETE ∧ (w.tran tP).mapP = none then
    some ((ChangeTranStatus { w with tranCompleteList := w.tranCompleteList.erase tP, tranFreeList := w.tranFreeList ++ [tP]
                                     tranHashTable := w.tranHashTable.erase tP } tP .FREE).note [.freed tP])
  else none

/-- A transaction is taken off its log by `elbl_GCTran`. -/
def release (dP : Dev) (w : World Dev) (tP : ℕ) : Option (World Dev) :=
  let t := w.tran tP
  if t.ctran ∧ ¬t.ageq ∧ t.mapP ≠ none then
    some ((w.setTran tP { t with ctran := false, mapP := none }).setMap dP
      { w.map dP with cTranList := (w.map dP).cTranList.erase tP })
  else none

/-- `elbt_GCTran` for one log: the completed transactions whose last position is committed are freed. -/
def elbt_GCTran (w : World Dev) (dP : Dev) (committed : LogPosition → Bool) : Option (World Dev) :=
  let gcList := (w.map dP).cTranList.filter fun tP => committed (w.tran tP).last
  (gcList.foldlM (release dP) w).bind fun w => gcList.foldlM DeallocTran w

def collect : List (Dev × (LogPosition → Bool)) → World Dev → Option (World Dev)
  | [], w => some w
  | (dP, committed) :: rest, w => (elbt_GCTran w dP committed).bind (collect rest)

def nextTranId (tranId : BitVec 32) : BitVec 32 := if tranId + 1 = 0 then tranId + 2 else tranId + 1

def zeroed : elbt_TranRec Dev where
  tranId := 0
  ecList := []
  ecHead := 0
  ecSize := 0
  tranStatus := .FREE
  tranSize := 0
  nested := false
  mapP := none
  reserved := 0
  atran := false
  ptran := false
  ctran := false
  ageq := false
  last := ⟨0, 0⟩

/-- The record for a new transaction: the oldest free one, or a new one. -/
def takeRecord (w : World Dev) : ℕ × World Dev :=
  match w.tranFreeList with
  | tP :: rest => (tP, { w with tranFreeList := rest })
  | [] => (w.allocated, { w.setTran w.allocated zeroed with allocated := w.allocated + 1 })

/-- The initialization in `AllocTran`. -/
def initTran (w : World Dev) (tP : ℕ) (force : Bool) : Option (World Dev) :=
  if (w.tran tP).tranStatus = .FREE then
    let tranId := nextTranId w.elbt_GlobalTranId
    let t := w.tran tP
    some (({ w with elbt_GlobalTranId := tranId, tranActiveList := w.tranActiveList ++ [tP]
                    tranHashTable := tP :: w.tranHashTable }.setTran tP
      { t with tranId := tranId, ecList := [], ecHead := tP, ecSize := 1, tranStatus := .ACTIVE, nested := force
               tranSize := 0 }).note [.started tP])
  else none

/-- `AllocTran`, behind the collection that it may make. `full` is the verdict of `elbl_StartTran` on the log. -/
def allocTran (w : World Dev) (dP : Dev) (force full : Bool) (pos : LogPosition) : Option (World Dev) :=
  let taken := takeRecord w
  (initTran taken.2 taken.1 force).bind fun w =>
    if full ∧ ¬force then
      (CompleteTran (w.setTran taken.1 { w.tran taken.1 with mapP := none
                                                             reserved := (w.map dP).maxTranSize }) taken.1 none).bind
        fun w => DeallocTran w taken.1
    else some (elbl_StartTran w dP taken.1 pos)

/-- A try of `elbt_StartTran`; when it fails the caller tries again later, or sleeps and tries again. -/
def elbt_StartTran (w : World Dev) (dP : Dev) (force full : Bool) (pos : LogPosition)
    (gc : List (Dev × (LogPosition → Bool))) : Option (World Dev) :=
  if w.tranFreeList = [] ∧ w.tranCompleteList ≠ [] then (collect gc w).bind fun w => allocTran w dP force full pos
  else allocTran w dP force full pos

def logUpdate (w : World Dev) (tP : ℕ) (bytes : BitVec 32) (pos : LogPosition) : Option (World Dev) :=
  if (w.tran tP).tranStatus = .ACTIVE then
    some (w.setTran tP { w.tran tP with tranSize := (w.tran tP).tranSize + bytes, last := pos })
  else none

/-- The calls, with what the searches find and with what the log answers. -/
inductive Call (Dev : Type) where
  | elbt_StartTran (dP : Dev) (force full : Bool) (pos : LogPosition) (gc : List (Dev × (LogPosition → Bool)))
  | elbt_ECMerge (tran1 tran2 : BitVec 32) (found1 : Option ℕ) (found2 : ℕ)
  | elbt_EndTran (tranId : BitVec 32) (found : ℕ) (bytes : BitVec 32) (pos : LogPosition)
  | elbt_GCTran (dP : Dev) (committed : LogPosition → Bool)
  | logUpdate (tP : ℕ) (bytes : BitVec 32) (pos : LogPosition)

/-- One call; `none` when an assertion fails. -/
def call (w : World Dev) : Call Dev → Option (World Dev)
  | .elbt_StartTran dP force full pos gc => elbt_StartTran w dP force full pos gc
  | .elbt_ECMerge tran1 tran2 found1 found2 => elbt_ECMerge w tran1 tran2 found1 found2
  | .elbt_EndTran tranId found bytes pos => elbt_EndTran w tranId found bytes pos
  | .elbt_GCTran dP committed => elbt_GCTran w dP committed
  | .logUpdate tP bytes pos => logUpdate w tP bytes pos

/-- A log as `AllocLogMap` and `elbl_InitLog` leave it: without transactions, and with the first sizes of its reservations, of
which that of a transaction depends on the block size. -/
structure logMap.Empty (lmP : logMap) : Prop where
  lists : lmP.aTranList = [] ∧ lmP.pTranList = [] ∧ lmP.cTranList = [] ∧ lmP.tranAgeQ = []
  reserved : lmP.reserved = 0
  sizes : lmP.maxUndoSize = 512 ∧ lmP.maxEndSize = 64

/-- No transaction has been started yet. -/
structure World.Initial (w : World Dev) : Prop where
  tran : w.tran = fun _ => zeroed
  allocated : w.allocated = 0
  lists : w.tranFreeList = [] ∧ w.tranActiveList = [] ∧ w.tranPendingList = [] ∧ w.tranCompleteList = []
  hash : w.tranHashTable = []
  map : ∀ dP, (w.map dP).Empty
  trace : w.trace = []

def transactions : System (World Dev) (Call Dev) where
  init := World.Initial
  step := call

end dce.episode.trans
