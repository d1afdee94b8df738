import Dce.Lib.Places
import Dce.Tkm.System

open lib

namespace dce.tkm

variable {φ ν τ : Type}

/-- The lists of tokens that wait for something. -/
inductive Shelf (φ ν : Type) where
  | queued (holder : Holder φ ν)
  | beingGranted (v : ν)
  deriving DecidableEq

/-- Where a token structure can be. -/
inductive Place (φ ν τ : Type) where
  | free
  | granted (holder : Holder φ ν)
  | shelf (s : Shelf φ ν)
  | thread (t : τ)

def Heap.shelf (h : Heap φ ν) : Shelf φ ν → List Ptr
  | .queued (.file f) => (h.file f).queued
  | .queued (.volume v) => (h.volume v).queuedFileTokens
  | .beingGranted v => (h.volume v).beingGranted

/-- The token structures in a place, given the locals of the threads. -/
def contents (h : Heap φ ν) (locals : τ → List Ptr) : Place φ ν τ → List Ptr
  | .free => h.freeTokens
  | .granted holder => h.granted holder
  | .shelf s => h.shelf s
  | .thread t => locals t

/-- The counter of the grants of a file or volume. -/
def Heap.tokenGrants (h : Heap φ ν) : Holder φ ν → ℕ
  | .file f => (h.file f).tokenGrants
  | .volume v => (h.volume v).tokenGrants

@[simp] theorem tkm_PutTokenInFreeList_granted (h : Heap φ ν) (p : Ptr) (holder : Holder φ ν) :
    (tkm_PutTokenInFreeList h p).granted holder = h.granted holder := by
  cases holder <;> rfl

@[simp] theorem tkm_PutTokenInFreeList_shelf (h : Heap φ ν) (p : Ptr) (s : Shelf φ ν) :
    (tkm_PutTokenInFreeList h p).shelf s = h.shelf s := by
  rcases s with (_ | _) | _ <;> rfl

theorem contents_PutTokenInFreeList {h : Heap φ ν} {p : Ptr} {locals : τ → List Ptr} {z : Place φ ν τ} (hz : z ≠ .free) :
    contents (tkm_PutTokenInFreeList h p) locals z = contents h locals z := by
  cases z <;> simp_all [contents]

/-- Nothing but tokens and masks differ. -/
structure Heap.SameLists (h h' : Heap φ ν) : Prop where
  allocated : h'.allocated = h.allocated
  lastTokenId : h'.lastTokenId = h.lastTokenId
  freeTokens : h'.freeTokens = h.freeTokens
  granted : ∀ holder, h'.granted holder = h.granted holder
  shelf : ∀ s, h'.shelf s = h.shelf s
  host : ∀ f, (h'.file f).host = (h.file f).host
  tokenGrants : ∀ holder, h'.tokenGrants holder = h.tokenGrants holder

namespace Heap

section

variable (h : Heap φ ν)

include h

@[simp] theorem setToken_granted (p : Ptr) (t : Token φ ν) (holder : Holder φ ν) :
    (h.setToken p t).granted holder = h.granted holder := by
  cases holder <;> rfl

@[simp] theorem setToken_shelf (p : Ptr) (t : Token φ ν) (s : Shelf φ ν) : (h.setToken p t).shelf s = h.shelf s := by
  rcases s with (_ | _) | _ <;> rfl

@[simp] theorem setToken_tokenGrants (p : Ptr) (t : Token φ ν) (holder : Holder φ ν) :
    (h.setToken p t).tokenGrants holder = h.tokenGrants holder := by
  cases holder <;> rfl

@[simp] theorem setToken_token (p : Ptr) (t : Token φ ν) : (h.setToken p t).token p = t :=
  Function.update_self ..

theorem setToken_token_of_ne {p q : Ptr} (t : Token φ ν) (hne : q ≠ p) :
    (h.setToken p t).token q = h.token q := Function.update_of_ne hne ..

@[simp] theorem setToken_self (p : Ptr) : h.setToken p (h.token p) = h := by
  simp [setToken]

end

namespace SameLists

variable {h h₁ h₂ : Heap φ ν}

theorem setToken (h : Heap φ ν) (p : Ptr) (t : Token φ ν) : SameLists h (h.setToken p t) :=
  ⟨rfl, rfl, rfl, by simp, by simp, fun _ => rfl, by simp⟩

theorem trans (h₁₂ : SameLists h h₁) (h₂₃ : SameLists h₁ h₂) : SameLists h h₂ where
  allocated := h₂₃.allocated.trans h₁₂.allocated
  lastTokenId := h₂₃.lastTokenId.trans h₁₂.lastTokenId
  freeTokens := h₂₃.freeTokens.trans h₁₂.freeTokens
  granted holder := (h₂₃.granted holder).trans (h₁₂.granted holder)
  shelf s := (h₂₃.shelf s).trans (h₁₂.shelf s)
  host f := (h₂₃.host f).trans (h₁₂.host f)
  tokenGrants holder := (h₂₃.tokenGrants holder).trans (h₁₂.tokenGrants holder)

theorem contents (hsame : SameLists h h₁) (locals : τ → List Ptr) : contents h₁ locals = contents h locals := by
  funext place
  cases place with
  | free => exact hsame.freeTokens
  | granted holder => exact hsame.granted holder
  | shelf s => exact hsame.shelf s
  | thread t => rfl

end SameLists

variable [DecidableEq φ] [DecidableEq ν]

def setShelf (h : Heap φ ν) (s : Shelf φ ν) (list : List Ptr) : Heap φ ν :=
  match s with
  | .queued (.file f) => h.setFile f { h.file f with queued := list }
  | .queued (.volume v) => h.setVolume v { h.volume v with queuedFileTokens := list }
  | .beingGranted v => h.setVolume v { h.volume v with beingGranted := list }

omit [DecidableEq ν] in
theorem setFile_same (h : Heap φ ν) (f : φ) (file : File) (hlist : file.granted.list = (h.file f).granted.list)
    (hqueued : file.queued = (h.file f).queued) (hhost : file.host = (h.file f).host)
    (hgrants : file.tokenGrants = (h.file f).tokenGrants) : SameLists h (h.setFile f file) where
  allocated := rfl
  lastTokenId := rfl
  freeTokens := rfl
  granted holder := by
    rcases holder with g | v
    · by_cases hg : g = f <;> simp [granted, setFile, hg, hlist]
    · rfl
  shelf s := by
    rcases s with (g | v) | v
    · by_cases hg : g = f <;> simp [shelf, setFile, hg, hqueued]
    · rfl
    · rfl
  host g := by by_cases hg : g = f <;> simp [setFile, hg, hhost]
  tokenGrants holder := by
    rcases holder with g | v
    · by_cases hg : g = f <;> simp [tokenGrants, setFile, hg, hgrants]
    · rfl

variable (h : Heap φ ν)

include h

omit [DecidableEq φ] in
theorem setVolume_same (v : ν) (volume : Volume)
    (hlist : volume.granted.list = (h.volume v).granted.list) (hbeing : volume.beingGranted = (h.volume v).beingGranted)
    (hqueued : volume.queuedFileTokens = (h.volume v).queuedFileTokens)
    (hgrants : volume.tokenGrants = (h.volume v).tokenGrants) : SameLists h (h.setVolume v volume) where
  allocated := rfl
  lastTokenId := rfl
  freeTokens := rfl
  granted holder := by
    rcases holder with f | w
    · rfl
    · by_cases hw : w = v <;> simp [granted, setVolume, hw, hlist]
  shelf s := by
    rcases s with (f | w) | w
    · rfl
    · by_cases hw : w = v <;> simp [shelf, setVolume, hw, hqueued]
    · by_cases hw : w = v <;> simp [shelf, setVolume, hw, hbeing]
  host _ := rfl
  tokenGrants holder := by
    rcases holder with f | w
    · rfl
    · by_cases hw : w = v <;> simp [tokenGrants, setVolume, hw, hgrants]

@[simp] theorem setShelf_token (s : Shelf φ ν) (list : List Ptr) : (h.setShelf s list).token = h.token := by
  rcases s with (_ | _) | _ <;> rfl

@[simp] theorem setShelf_allocated (s : Shelf φ ν) (list : List Ptr) : (h.setShelf s list).allocated = h.allocated := by
  rcases s with (_ | _) | _ <;> rfl

@[simp] theorem setShelf_lastTokenId (s : Shelf φ ν) (list : List Ptr) : (h.setShelf s list).lastTokenId = h.lastTokenId := by
  rcases s with (_ | _) | _ <;> rfl

@[simp] theorem setShelf_freeTokens (s : Shelf φ ν) (list : List Ptr) : (h.setShelf s list).freeTokens = h.freeTokens := by
  rcases s with (_ | _) | _ <;> rfl

@[simp] theorem setShelf_tokenGrants (s : Shelf φ ν) (list : List Ptr) (holder : Holder φ ν) :
    (h.setShelf s list).tokenGrants holder = h.tokenGrants holder := by
  rcases s with (f | v) | v <;> rcases holder with f' | v'
  all_goals simp only [setShelf, setFile, setVolume, tokenGrants, Function.update_apply]
  · by_cases hf : f' = f <;> simp [hf]
  · by_cases hv : v' = v <;> simp [hv]
  · by_cases hv : v' = v <;> simp [hv]

theorem setShelf_shelf (s s' : Shelf φ ν) (list : List Ptr) :
    (h.setShelf s list).shelf s' = if s' = s then list else h.shelf s' := by
  rcases s with (f | v) | v <;> rcases s' with (f' | v') | v'
  all_goals simp only [setShelf, setFile, setVolume, shelf, Function.update_apply]
  · by_cases hf : f' = f <;> simp [hf]
  · simp
  · simp
  · simp
  · by_cases hv : v' = v <;> simp [hv]
  · by_cases hv : v' = v <;> simp [hv]
  · simp
  · by_cases hv : v' = v <;> simp [hv]
  · by_cases hv : v' = v <;> simp [hv]

@[simp] theorem setShelf_granted (s : Shelf φ ν) (list : List Ptr) (holder : Holder φ ν) :
    (h.setShelf s list).granted holder = h.granted holder := by
  rcases s with (f | v) | v <;> rcases holder with f' | v'
  all_goals simp only [setShelf, setFile, setVolume, granted, Function.update_apply]
  · by_cases hf : f' = f <;> simp [hf]
  · by_cases hv : v' = v <;> simp [hv]
  · by_cases hv : v' = v <;> simp [hv]

end Heap

theorem contents_setShelf [DecidableEq φ] [DecidableEq ν] {h : Heap φ ν} {s : Shelf φ ν} {list : List Ptr}
    {locals : τ → List Ptr} {z : Place φ ν τ} (hz : z ≠ .shelf s) :
    contents (h.setShelf s list) locals z = contents h locals z := by
  cases z <;> simp_all [contents, Heap.setShelf_shelf]

end dce.tkm
