import Dce.Bak.GetText
import Dce.Lib.System

open lib

namespace dce.bak

/-- How the transaction of a call ends that has done its work: it is committed, it is lost, or it is committed and its
caller is told that it failed. -/
inductive Ending where
  | committed
  | lost
  | unanswered
  deriving DecidableEq

/-- The server with its clock. The last two fields are those of the specification: for an instance and a text the
expiration of the lock that the instance got and has not freed, and the blocks that hold no texts. -/
structure Server where
  db : memoryDB
  now : u_long
  granted : u_long → ℕ → Option u_long
  others : List ℕ

/-- A call of an instance, or something else that happens. -/
inductive Event where
  | tick (later : u_long)
  | BUDB_GetLock (caller : u_long) (callPermitted : Bool) (tv_sec instanceId : u_long) (lockName : ℤ) (expiration : u_long)
    (ending : Ending)
  | BUDB_FreeLock (caller : u_long) (callPermitted : Bool) (handle : ℕ) (ending : Ending)
  | BUDB_FreeAllLocks (caller : u_long) (callPermitted : Bool) (instanceId : u_long) (ending : Ending)
  | BUDB_SaveText (caller : u_long) (callPermitted : Bool) (handle : ℕ) (textType offset : ℤ) (flags : u_long)
    (charList : List Byte) (ending : Ending)
  /-- Dumps, tapes and volumes have blocks of their own. -/
  | allocOther (contents : block)
  | writeOther (a : ℕ) (contents : block)
  | freeOther (a : ℕ)

namespace Server

def finish (s : Server) (ending : Ending) : Except Stop memoryDB → memoryDB
  | .ok db' => if ending = .lost then s.db else db'
  | .error _ => s.db

def forget (s : Server) (caller : u_long) (lockName : ℕ) (i : u_long) (n : ℕ) : Option u_long :=
  if i = caller ∧ n = lockName then none else s.granted i n

def step (textLocks : ℕ) (s : Server) : Event → Option Server
  | .tick later => if s.now ≤ later then some { s with now := later } else none
  | .BUDB_GetLock caller callPermitted tv_sec instanceId lockName expiration ending =>
    if tv_sec ≤ s.now then
      match bak.BUDB_GetLock textLocks s.db callPermitted tv_sec instanceId lockName expiration with
      | .error _ => some s
      | .ok (db', _) => some
          { s with
            db := s.finish ending (.ok db')
            granted := fun i n =>
              if ending = .committed ∧ i = caller ∧ n = lockName.toNat then some (tv_sec + expiration) else s.granted i n }
    else none
  | .BUDB_FreeLock caller callPermitted handle ending => some
      { s with
        db := s.finish ending (bak.BUDB_FreeLock textLocks s.db callPermitted handle)
        granted := match checkLockHandle textLocks handle with
          | none => s.granted
          | some lockName => s.forget caller lockName }
  | .BUDB_FreeAllLocks caller callPermitted instanceId ending => some
      { s with
        db := s.finish ending (bak.BUDB_FreeAllLocks s.db callPermitted instanceId)
        granted := fun i n => if i = caller then none else s.granted i n }
  | .BUDB_SaveText _ callPermitted handle textType offset flags charList ending => some
      { s with db := s.finish ending (bak.BUDB_SaveText textLocks s.db callPermitted handle textType offset flags charList) }
  | .allocOther contents => match s.db.AllocBlock with
    | .error _ => none
    | .ok (db', _, a) => some { s with db := db'.put a contents, others := a :: s.others }
  | .writeOther a contents => if a ∈ s.others then some { s with db := s.db.put a contents } else none
  | .freeOther a =>
    if a ∈ s.others then
      match s.db.FreeBlock a with
      | .error _ => none
      | .ok db' => some { s with db := db', others := s.others.erase a }
    else none

/-- A new database: no locks, no texts and no blocks. -/
structure New (s : Server) : Prop where
  freePtr : s.db.h.freePtr = 0
  eofPtr : s.db.h.eofPtr = sizeof_dbHeader
  textLocks : ∀ n, s.db.h.textLocks n = .unlocked
  textBlock : ∀ n, s.db.h.textBlock n = ⟨0, 0, 0, 0, 0⟩
  granted : ∀ i n, s.granted i n = none
  others : s.others = []

end Server

/-- The server with its locks at an address of its memory. -/
def server (textLocks : ℕ) : System Server Event where
  init := Server.New
  step := Server.step textLocks

def Server.Laid (s : Server) : Prop := ∃ blocks, bak.Laid s.db blocks ∧ (blocks .other).Perm s.others

variable {db : memoryDB} {blocks : Use → List ℕ}

/-- The same texts in the same blocks. -/
structure SameTexts (db : memoryDB) (blocks : Use → List ℕ) (db' : memoryDB) (blocks' : Use → List ℕ) : Prop where
  textBlock : db'.h.textBlock = db.h.textBlock
  cells : ∀ u, u ≠ .free → u ≠ .other → blocks' u = blocks u
  disk : ∀ u, u ≠ .free → u ≠ .other → ∀ a ∈ blocks u, db'.disk a = db.disk a

namespace Laid

variable {db' : memoryDB} {a : ℕ}

variable (h : Laid db blocks)

include h

theorem same {blocks' : Use → List ℕ} (hpool : Pool db' blocks')
    (hsame : SameTexts db blocks db' blocks') : Laid db' blocks' := by
  have hnext : ∀ u, u ≠ .free → u ≠ .other → ∀ a ∈ blocks u, db'.next a = db.next a := fun u hu hother a ha => by
    rw [memoryDB.next, hsame.disk u hu hother a ha, memoryDB.next]
  refine ⟨hpool, fun n => ?_, fun n => ?_, fun n => ?_, fun n hn => ?_⟩
  · rw [hsame.textBlock, hsame.cells _ (by simp) (by simp)]
    exact (h.text n).congr (hnext _ (by simp) (by simp))
  · rw [hsame.textBlock, hsame.cells _ (by simp) (by simp)]
    exact (h.newText n).congr (hnext _ (by simp) (by simp))
  · rw [hsame.textBlock, hsame.cells _ (by simp) (by simp)]
    exact h.size n
  · rw [hsame.textBlock] at hn ⊢
    rw [hsame.cells _ (by simp) (by simp)]
    exact h.newsize n hn

theorem setTextLock (lockName : ℕ) (lock : db_lockT) : Laid (db.setTextLock lockName lock) blocks :=
  h.same ⟨h.pool.apart, h.pool.isBlock, h.pool.aligned, h.pool.limit, h.pool.free⟩
    ⟨rfl, fun _ _ _ => rfl, fun _ _ _ _ _ => rfl⟩

theorem put (ha : a ∈ blocks .other) (b : block) : Laid (db.put a b) blocks := by
  refine h.same (h.pool.put (by simp) ha b) ⟨rfl, fun _ _ _ => rfl, fun u _ hu c hc => ?_⟩
  have hca : c ≠ a := fun heq => hu (h.pool.apart.unique (heq ▸ hc) ha)
  exact Function.update_of_ne hca ..

theorem taken {free : List ℕ} (htaken : Taken db blocks .other db' a free) : Laid db' (takenBlocks blocks .other free a) := by
  refine h.same htaken.pool ⟨htaken.textBlock, fun u hfree hu => takenBlocks_of_ne free hu hfree, fun u hfree _ c hc => ?_⟩
  have hca : c ≠ a := fun heq => htaken.fresh u hfree (heq ▸ hc)
  rw [htaken.disk, Function.update_of_ne hca]

theorem freed {blocks' : Use → List ℕ} {cells : List ℕ}
    (hfreed : Freed db blocks .other cells db' blocks') : Laid db' blocks' := by
  refine h.same hfreed.pool ⟨hfreed.textBlock, fun u hfree hu => hfreed.others u hu hfree, fun u _ hu c hc => ?_⟩
  exact hfreed.disk c fun hmem => hu (h.pool.apart.unique hc (hfreed.left ▸ List.mem_append_left _ hmem))

theorem reorder {others : List ℕ} (hperm : (blocks .other).Perm others) : Laid db (Function.update blocks .other others) := by
  have hsame : ∀ u, u ≠ .other → Function.update blocks .other others u = blocks u := fun u hu => Function.update_of_ne hu ..
  have hall : ∀ u, (blocks u).Perm (Function.update blocks .other others u) := by
    intro u
    by_cases hu : u = .other
    · subst hu
      rwa [Function.update_self]
    · rw [hsame u hu]
  refine h.same ⟨h.pool.apart.congr hall, fun u a ha => h.pool.isBlock u a ((hall u).mem_iff.mpr ha), h.pool.aligned,
    h.pool.limit, ?_⟩ ⟨rfl, fun u _ hu => hsame u hu, fun _ _ _ _ _ => rfl⟩
  rw [hsame _ (by simp)]
  exact h.pool.free

theorem freeOther {others : List ℕ} (hothers : (blocks .other).Perm others) (ha : a ∈ others) :
    ∃ db' blocks', db.FreeBlock a = .ok db' ∧
      Freed db (Function.update blocks .other (a :: others.erase a)) .other [a] db' blocks' := by
  have hreordered := h.reorder (hothers.trans (List.perm_cons_erase ha))
  exact FreeBlock_spec hreordered.pool (by simp) (Function.update_self ..)

end Laid

theorem checkLockHandle_lt {textLocks handle lockName : ℕ} (h : checkLockHandle textLocks handle = some lockName) :
    lockName < TB_NUM :=
  List.mem_range.mp (List.mem_of_find?_eq_some h)

theorem writeTextLock_ok (hpool : Pool db blocks) {lockName : ℕ} (h : lockName < TB_NUM) (lock : db_lockT) :
    db.writeTextLock lockName lock = .ok (db.setTextLock lockName lock) := by
  have hle := hpool.header_le
  unfold TB_NUM at h
  unfold sizeof_dbHeader at hle
  refine memoryDB.dbwrite_ok (.inl rfl) ?_ ?_
  · change memoryDB.textLocks_pos lockName < db.h.eofPtr
    unfold memoryDB.textLocks_pos sizeof_db_lockT
    omega
  · unfold memoryDB.textLocks_pos sizeof_db_lockT fileLimit
    omega

theorem tryWriteTextLock_eq (hpool : Pool db blocks) {lockName : ℕ} (h : lockName < TB_NUM) (lock : db_lockT) :
    db.tryWriteTextLock lockName lock = db.setTextLock lockName lock := by
  rw [memoryDB.tryWriteTextLock, writeTextLock_ok hpool h]

/-- Only locks differ. -/
structure SameButLocks (db db' : memoryDB) : Prop where
  disk : db'.disk = db.disk
  freePtr : db'.h.freePtr = db.h.freePtr
  eofPtr : db'.h.eofPtr = db.h.eofPtr
  textBlock : db'.h.textBlock = db.h.textBlock

variable {callPermitted : Bool} {db' : memoryDB}

theorem Laid.sameButLocks (h : Laid db blocks) (hsame : SameButLocks db db') : Laid db' blocks := by
  have hnext : ∀ a, db'.next a = db.next a := fun a => by rw [memoryDB.next, hsame.disk, memoryDB.next]
  refine h.same ⟨h.pool.apart, ?_, ?_, ?_, ?_⟩ ⟨hsame.textBlock, fun _ _ _ => rfl, fun _ _ _ a _ => by rw [hsame.disk]⟩
  · rw [hsame.eofPtr]
    exact h.pool.isBlock
  · rw [hsame.eofPtr]
    exact h.pool.aligned
  · rw [hsame.eofPtr]
    exact h.pool.limit
  · rw [hsame.freePtr]
    exact h.pool.free.congr fun a _ => hnext a

theorem freeAllLocks_loop (instanceId : u_long) (names : List ℕ) (hnames : ∀ n ∈ names, n < TB_NUM) (h : Laid db blocks) :
    ∃ db', names.foldl (fun db lockName =>
        if (db.h.textLocks lockName).lockState = 1 ∧ (db.h.textLocks lockName).instanceId = instanceId then
          db.tryWriteTextLock lockName .unlocked
        else db) db = db' ∧ SameButLocks db db' ∧
      ∀ n, db'.h.textLocks n =
        if n ∈ names ∧ (db.h.textLocks n).lockState = 1 ∧ (db.h.textLocks n).instanceId = instanceId then .unlocked
        else db.h.textLocks n := by
  induction names generalizing db with
  | nil => exact ⟨db, rfl, ⟨rfl, rfl, rfl, rfl⟩, fun n => by simp⟩
  | cons name names ih =>
    have hmore := fun n hn => hnames n (List.mem_cons_of_mem name hn)
    rw [List.foldl_cons]
    by_cases hown : (db.h.textLocks name).lockState = 1 ∧ (db.h.textLocks name).instanceId = instanceId
    · rw [if_pos hown, tryWriteTextLock_eq h.pool (hnames name List.mem_cons_self)]
      obtain ⟨db', hloop, hsame, hlocks⟩ := ih hmore (h.setTextLock name .unlocked)
      refine ⟨db', hloop, ⟨hsame.disk, hsame.freePtr, hsame.eofPtr, hsame.textBlock⟩, fun n => ?_⟩
      rw [hlocks n]
      by_cases hn : n = name
      · subst hn
        have hself : (db.setTextLock n .unlocked).h.textLocks n = .unlocked := Function.update_self ..
        rw [hself, ite_self, if_pos ⟨List.mem_cons_self, hown⟩]
      · have hother : (db.setTextLock name .unlocked).h.textLocks n = db.h.textLocks n := Function.update_of_ne hn ..
        simp only [hother, List.mem_cons, hn, false_or]
    · rw [if_neg hown]
      obtain ⟨db', hloop, hsame, hlocks⟩ := ih hmore h
      refine ⟨db', hloop, hsame, fun n => ?_⟩
      rw [hlocks n]
      by_cases hn : n = name
      · subst hn
        rw [if_neg fun hboth => hown hboth.2, if_neg fun hboth => hown hboth.2]
      · simp only [List.mem_cons, hn, false_or]

theorem BUDB_FreeAllLocks_ok {instanceId : u_long} (h : Laid db blocks)
    (hok : BUDB_FreeAllLocks db callPermitted instanceId = .ok db') : SameButLocks db db' ∧
      ∀ n, db'.h.textLocks n =
        if n < TB_NUM ∧ (db.h.textLocks n).lockState = 1 ∧ (db.h.textLocks n).instanceId = instanceId then .unlocked
        else db.h.textLocks n := by
  rw [BUDB_FreeAllLocks] at hok
  by_cases hpermitted : callPermitted = false
  · rw [if_pos hpermitted] at hok
    exact absurd hok (by simp)
  obtain ⟨db₁, hloop, hsame, hlocks⟩ := freeAllLocks_loop instanceId (List.range TB_NUM) (fun n => List.mem_range.mp) h
  rw [if_neg hpermitted, hloop] at hok
  obtain rfl : db₁ = db' := Except.ok.inj hok
  simp only [List.mem_range] at hlocks
  exact ⟨hsame, hlocks⟩

theorem BUDB_FreeLock_ok {textLocks handle : ℕ} (h : Laid db blocks)
    (hok : BUDB_FreeLock textLocks db callPermitted handle = .ok db') :
    ∃ lockName, checkLockHandle textLocks handle = some lockName ∧ db' = db.setTextLock lockName .unlocked := by
  rw [BUDB_FreeLock] at hok
  obtain ⟨hpermitted, hok⟩ := Stop.ite_error_eq_ok.mp hok
  cases hhandle : checkLockHandle textLocks handle with
  | none =>
    rw [hhandle] at hok
    exact absurd hok (by simp)
  | some lockName =>
    rw [hhandle] at hok
    exact ⟨lockName, rfl, ((tryWriteTextLock_eq h.pool (checkLockHandle_lt hhandle) _).symm.trans (Except.ok.inj hok)).symm⟩

theorem BUDB_GetLock_ok {textLocks handle : ℕ} {tv_sec instanceId expiration : u_long} {name : ℤ}
    (h : Laid db blocks)
    (hok : BUDB_GetLock textLocks db callPermitted tv_sec instanceId name expiration = .ok (db', handle)) :
    ∃ lockName : ℕ, name = (lockName : ℤ) ∧
      ¬((db.h.textLocks lockName).lockState ≠ 0 ∧ tv_sec < (db.h.textLocks lockName).expires) ∧
      db' = db.setTextLock lockName ⟨1, tv_sec, tv_sec + expiration, instanceId⟩ := by
  rw [BUDB_GetLock] at hok
  obtain ⟨hpermitted, hok⟩ := Stop.ite_error_eq_ok.mp hok
  obtain ⟨hname, hok⟩ := Stop.ite_error_eq_ok.mp hok
  obtain ⟨lockName, rfl⟩ := Int.eq_ofNat_of_zero_le (show 0 ≤ name by omega)
  simp only [Int.toNat_natCast] at hok
  by_cases hheld : (db.h.textLocks lockName).lockState ≠ 0 ∧ tv_sec < (db.h.textLocks lockName).expires
  · rw [if_pos hheld] at hok
    split_ifs at hok
  · rw [if_neg hheld, writeTextLock_ok h.pool (by omega), Stop.ok_bind] at hok
    exact ⟨lockName, rfl, hheld, (congrArg Prod.fst (Except.ok.inj hok)).symm⟩

namespace Server

variable {s s' : Server} {textLocks : ℕ} {event : Event}

theorem finish_eq (ending : Ending) (result : Except Stop memoryDB) :
    s.finish ending result = s.db ∨ ∃ db', result = .ok db' ∧ s.finish ending result = db' := by
  cases result with
  | error stop => exact .inl rfl
  | ok db' =>
    by_cases hending : ending = .lost
    · exact .inl (if_pos hending)
    · exact .inr ⟨db', rfl, if_neg hending⟩

theorem finish_ind {P : memoryDB → Prop} (ending : Ending) (result : Except Stop memoryDB) (hlost : P s.db)
    (hok : ∀ db', result = .ok db' → P db') : P (s.finish ending result) := by
  obtain hdb | ⟨db', hresult, hdb⟩ := s.finish_eq ending result
  · rwa [hdb]
  · rw [hdb]
    exact hok db' hresult

theorem step_getLock {caller tv_sec instanceId expiration : u_long} {callPermitted : Bool} {name : ℤ} {ending : Ending}
    (hlaid : s.Laid)
    (hstep : s.step textLocks (.BUDB_GetLock caller callPermitted tv_sec instanceId name expiration ending) = some s') :
    tv_sec ≤ s.now ∧ (s' = s ∨ ∃ lockName : ℕ, name = (lockName : ℤ) ∧
      ¬((s.db.h.textLocks lockName).lockState ≠ 0 ∧ tv_sec < (s.db.h.textLocks lockName).expires) ∧
      s' = { s with
        db := s.finish ending (.ok (s.db.setTextLock lockName ⟨1, tv_sec, tv_sec + expiration, instanceId⟩))
        granted := fun i n =>
          if ending = .committed ∧ i = caller ∧ n = lockName then some (tv_sec + expiration) else s.granted i n }) := by
  obtain ⟨blocks, hlaid, -⟩ := hlaid
  rw [step] at hstep
  obtain ⟨hclock, hstep⟩ := Option.ite_none_right_eq_some.mp hstep
  refine ⟨hclock, ?_⟩
  cases hcall : bak.BUDB_GetLock textLocks s.db callPermitted tv_sec instanceId name expiration with
  | error stop =>
    rw [hcall] at hstep
    exact .inl (Option.some.inj hstep).symm
  | ok result =>
    obtain ⟨db', handle⟩ := result
    obtain ⟨lockName, rfl, hfree, rfl⟩ := BUDB_GetLock_ok hlaid hcall
    rw [hcall] at hstep
    simp only [Int.toNat_natCast] at hstep
    exact .inr ⟨lockName, rfl, hfree, (Option.some.inj hstep).symm⟩

theorem Laid.step (h : s.Laid) (hstep : s.step textLocks event = some s') : s'.Laid := by
  have hwhole := h
  obtain ⟨blocks, hlaid, hothers⟩ := h
  cases event with
  | tick later =>
    rw [Server.step] at hstep
    obtain ⟨hlater, hstep⟩ := Option.ite_none_right_eq_some.mp hstep
    obtain rfl := Option.some.inj hstep
    exact hwhole
  | BUDB_GetLock caller callPermitted tv_sec instanceId lockName expiration ending =>
    obtain ⟨-, rfl | ⟨lockName, rfl, -, rfl⟩⟩ := step_getLock hwhole hstep
    · exact hwhole
    · refine ⟨blocks, finish_ind (P := (bak.Laid · blocks)) ending (.ok _) hlaid fun db' hok => ?_, hothers⟩
      obtain rfl := Except.ok.inj hok
      exact hlaid.setTextLock ..
  | BUDB_FreeLock caller callPermitted handle ending =>
    obtain rfl := Option.some.inj hstep
    refine ⟨blocks, finish_ind (P := (bak.Laid · blocks)) ending _ hlaid fun db' hok => ?_, hothers⟩
    obtain ⟨lockName, -, rfl⟩ := BUDB_FreeLock_ok hlaid hok
    exact hlaid.setTextLock ..
  | BUDB_FreeAllLocks caller callPermitted instanceId ending =>
    obtain rfl := Option.some.inj hstep
    exact ⟨blocks, finish_ind (P := (bak.Laid · blocks)) ending _ hlaid fun db' hok =>
      hlaid.sameButLocks (BUDB_FreeAllLocks_ok hlaid hok).1, hothers⟩
  | BUDB_SaveText caller callPermitted handle textType offset flags charList ending =>
    obtain rfl := Option.some.inj hstep
    refine finish_ind (P := fun db => ∃ blocks, bak.Laid db blocks ∧ (blocks .other).Perm s.others) ending _
      ⟨blocks, hlaid, hothers⟩ fun db' hok => ?_
    obtain ⟨n, lockName, blocks', -, -, hlaid', helsewhere⟩ := BUDB_SaveText_ok hlaid hok
    refine ⟨blocks', hlaid', ?_⟩
    rwa [helsewhere.others .other (by simp) (by simp) (by simp)]
  | allocOther contents =>
    rw [Server.step] at hstep
    by_cases hroom : room s.db blocks = 0
    · rw [AllocBlock_full hlaid.pool hroom] at hstep
      exact absurd hstep (by simp)
    · obtain ⟨db', a, free, halloc, htaken⟩ := AllocBlock_spec hlaid.pool (Nat.pos_of_ne_zero hroom) (u := .other) (by simp)
      rw [halloc] at hstep
      obtain rfl := Option.some.inj hstep
      have hmem : a ∈ takenBlocks blocks .other free a .other := by
        rw [takenBlocks_self]
        simp
      refine ⟨takenBlocks blocks .other free a, (hlaid.taken htaken).put hmem contents, ?_⟩
      rw [takenBlocks_self]
      exact (List.perm_append_singleton a _).trans (hothers.cons a)
  | writeOther a contents =>
    rw [Server.step] at hstep
    obtain ⟨hmem, hstep⟩ := Option.ite_none_right_eq_some.mp hstep
    obtain rfl := Option.some.inj hstep
    exact ⟨blocks, hlaid.put (hothers.mem_iff.mpr hmem) contents, hothers⟩
  | freeOther a =>
    rw [Server.step] at hstep
    obtain ⟨hmem, hstep⟩ := Option.ite_none_right_eq_some.mp hstep
    obtain ⟨db', blocks', hfree, hfreed⟩ := hlaid.freeOther hothers hmem
    rw [hfree] at hstep
    obtain rfl := Option.some.inj hstep
    have hreordered := hlaid.reorder (hothers.trans (List.perm_cons_erase hmem))
    have hleft := hfreed.left
    rw [Function.update_self] at hleft
    exact ⟨blocks', hreordered.freed hfreed, List.Perm.of_eq ((List.cons_inj_right a).mp hleft).symm⟩

theorem New.laid (h : s.New) : s.Laid := by
  refine ⟨fun _ => [], ⟨⟨⟨fun _ => List.nodup_nil, fun hx => absurd hx List.not_mem_nil⟩, fun _ _ ha => absurd ha List.not_mem_nil,
    ⟨0, ?_⟩, ?_, h.freePtr⟩, fun n => ?_, fun n => ?_, fun n => ?_, fun n hn => ?_⟩, ?_⟩
  · rw [h.eofPtr, Nat.zero_mul, Nat.add_zero]
  · rw [h.eofPtr]
    decide
  · rw [h.textBlock]
    rfl
  · rw [h.textBlock]
    rfl
  · rw [h.textBlock]
    exact Nat.zero_le _
  · rw [h.textBlock] at hn
    exact absurd rfl hn
  · rw [h.others]

theorem laid_of_reachable (hreach : (server textLocks).Reachable s) : s.Laid :=
  hreach.invariant (P := Server.Laid) (fun _ hnew => New.laid hnew) fun _ _ _ h hstep => h.step hstep

end Server

def newServer : Server where
  db := ⟨⟨0, sizeof_dbHeader, fun _ => .unlocked, fun _ => ⟨0, 0, 0, 0, 0⟩⟩, fun _ => block.zero⟩
  now := 100
  granted _ _ := none
  others := []

theorem newServer_new : newServer.New := ⟨rfl, rfl, fun _ => rfl, fun _ => rfl, fun _ _ => rfl, rfl⟩

/-- After any calls and other uses of blocks, each committed, lost or not answered, every block is in use for one thing at most,
the unused blocks and those of each text and new text are chained from their heads to an end, and a text has blocks for its size. -/
theorem text_chains_apart (textLocks : ℕ) (s : Server) (hreach : (server textLocks).Reachable s) : ∃ blocks : Use → List ℕ,
    (∀ u v, ∀ a ∈ blocks u, a ∈ blocks v → u = v) ∧ (∀ u, (blocks u).Nodup ∧ ∀ a ∈ blocks u, IsBlock s.db.h.eofPtr a) ∧
    Chained s.db.next 0 s.db.h.freePtr (blocks .free) ∧
    (∀ n, Chained s.db.next 0 (s.db.h.textBlock n).textAddr (blocks (.text n)) ∧
      Chained s.db.next 0 (s.db.h.textBlock n).newTextAddr (blocks (.newText n)) ∧
      (s.db.h.textBlock n).size ≤ BLOCK_DATA_SIZE * (blocks (.text n)).length) ∧
    (blocks .other).Perm s.others := by
  obtain ⟨blocks, hlaid, hothers⟩ := Server.laid_of_reachable hreach
  exact ⟨blocks, fun u v a ha hb => hlaid.pool.apart.unique ha hb, fun u => ⟨hlaid.pool.apart.nodup u, hlaid.pool.isBlock u⟩,
    hlaid.pool.free, fun n => ⟨hlaid.text n, hlaid.newText n, hlaid.size n⟩, hothers⟩

theorem text_chains_apart_freed : ∃ s : Server, s.db.h.freePtr ≠ 0 ∧ ∃ blocks : Use → List ℕ,
    (∀ u v, ∀ a ∈ blocks u, a ∈ blocks v → u = v) ∧ (∀ u, (blocks u).Nodup ∧ ∀ a ∈ blocks u, IsBlock s.db.h.eofPtr a) ∧
    Chained s.db.next 0 s.db.h.freePtr (blocks .free) ∧
    (∀ n, Chained s.db.next 0 (s.db.h.textBlock n).textAddr (blocks (.text n)) ∧
      Chained s.db.next 0 (s.db.h.textBlock n).newTextAddr (blocks (.newText n)) ∧
      (s.db.h.textBlock n).size ≤ BLOCK_DATA_SIZE * (blocks (.text n)).length) ∧
    (blocks .other).Perm s.others := by
  obtain ⟨s, hreach, hfree⟩ := (server 4096).exists_reachable_of_exec (s := newServer)
    [.allocOther block.zero, .allocOther block.zero, .freeOther sizeof_dbHeader] (P := fun s => s.db.h.freePtr != 0)
    newServer_new (by decide +kernel)
  exact ⟨s, bne_iff_ne.mp hfree, text_chains_apart 4096 s hreach⟩

end dce.bak
