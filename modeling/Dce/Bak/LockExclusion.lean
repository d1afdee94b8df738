import Dce.Bak.Server

open lib

namespace dce.bak

namespace Server

/-- An instance holds the lock of a text: it got it, has not freed it, and it has not expired. -/
def Holds (s : Server) (instanceId : u_long) (lockName : ℕ) : Prop :=
  (s.granted instanceId lockName).any (s.now < ·) = true

instance (s : Server) (instanceId : u_long) (lockName : ℕ) : Decidable (s.Holds instanceId lockName) :=
  inferInstanceAs (Decidable (_ = true))

theorem holds_iff {s : Server} {instanceId : u_long} {lockName : ℕ} :
    s.Holds instanceId lockName ↔ ∃ expires, s.granted instanceId lockName = some expires ∧ s.now < expires := by
  rw [Holds, Option.any_eq_true]
  simp only [decide_eq_true_eq]

def Exclusive (s : Server) : Prop :=
  ∀ lockName i j, s.Holds i lockName → s.Holds j lockName → i = j

def chainBlocks (db : memoryDB) : ℕ → ℕ → List block
  | 0, _ => []
  | fuel + 1, a => if a = 0 then [] else db.disk a :: chainBlocks db fuel (db.next a)

def textOf (s : Server) (n : ℕ) : textBlock × List block × List block :=
  (s.db.h.textBlock n, chainBlocks s.db s.db.turns (s.db.h.textBlock n).textAddr,
    chainBlocks s.db s.db.turns (s.db.h.textBlock n).newTextAddr)

/-- A call touches only what its caller has locked: `BUDB_SaveText` a text, and `BUDB_FreeLock` a lock. -/
def Respects (s : Server) (event : Event) (s' : Server) : Prop :=
  match event with
  | .BUDB_SaveText caller .. => ∀ n, s'.textOf n ≠ s.textOf n →
      s.Holds caller n ∧ (s.db.h.textLocks n).instanceId = caller
  | .BUDB_FreeLock caller .. => ∀ n, s'.db.h.textLocks n ≠ s.db.h.textLocks n →
      s.Holds caller n ∧ (s.db.h.textLocks n).instanceId = caller
  | _ => True

/-- An instance keeps to its own locks: it gives its own identifier, and calls `BUDB_FreeLock` and `BUDB_SaveText` with the
handle of a lock that it got, that it has not freed and that has not expired, the latter for the text of that lock. -/
def KeepsToOwn (textLocks : ℕ) (s : Server) : Event → Prop
  | .BUDB_GetLock caller _ _ instanceId _ _ _ => instanceId = caller
  | .BUDB_FreeAllLocks caller _ instanceId _ => instanceId = caller
  | .BUDB_FreeLock caller _ handle _ => ∀ n < TB_NUM, checkLockHandle textLocks handle = some n → s.Holds caller n
  | .BUDB_SaveText caller _ handle textType _ _ _ _ =>
      ∀ n < TB_NUM, checkLockHandle textLocks handle = some n → s.Holds caller n ∧ textType = n
  | _ => True

instance (textLocks : ℕ) (s : Server) : ∀ event, Decidable (KeepsToOwn textLocks s event)
  | .tick _ => inferInstanceAs (Decidable True)
  | .BUDB_GetLock .. => inferInstanceAs (Decidable (_ = _))
  | .BUDB_FreeLock .. => inferInstanceAs (Decidable (∀ n < TB_NUM, _))
  | .BUDB_FreeAllLocks .. => inferInstanceAs (Decidable (_ = _))
  | .BUDB_SaveText .. => inferInstanceAs (Decidable (∀ n < TB_NUM, _))
  | .allocOther _ => inferInstanceAs (Decidable True)
  | .writeOther .. => inferInstanceAs (Decidable True)
  | .freeOther _ => inferInstanceAs (Decidable True)

/-- The locks in the database are those that the instances think they hold. -/
def Agrees (s : Server) : Prop :=
  ∀ i n expires, s.granted i n = some expires → s.now < expires →
    (s.db.h.textLocks n).lockState ≠ 0 ∧ (s.db.h.textLocks n).expires = expires ∧ (s.db.h.textLocks n).instanceId = i

variable {s s' : Server} {textLocks : ℕ} {event : Event}

theorem Agrees.exclusive (h : s.Agrees) : s.Exclusive := by
  intro n i j hi hj
  obtain ⟨e, hgranted, hlt⟩ := holds_iff.mp hi
  obtain ⟨e', hgranted', hlt'⟩ := holds_iff.mp hj
  exact (h i n e hgranted hlt).2.2.symm.trans (h j n e' hgranted' hlt').2.2

theorem Agrees.instanceId (h : s.Agrees) {i : u_long} {n : ℕ} (hholds : s.Holds i n) : (s.db.h.textLocks n).instanceId = i := by
  obtain ⟨e, hgranted, hlt⟩ := holds_iff.mp hholds
  exact (h i n e hgranted hlt).2.2

theorem Agrees.fewer (h : s.Agrees) (hnow : s'.now = s.now)
    (hgranted : ∀ i n expires, s'.granted i n = some expires → s.granted i n = some expires)
    (hlocks : ∀ i n expires, s'.granted i n = some expires → s.now < expires → s'.db.h.textLocks n = s.db.h.textLocks n) :
    s'.Agrees := by
  intro i n expires hsome hlt
  rw [hnow] at hlt
  rw [hlocks i n expires hsome hlt]
  exact h i n expires (hgranted i n expires hsome) hlt

theorem Agrees.step (hlaid : s.Laid) (h : s.Agrees) (hown : KeepsToOwn textLocks s event)
    (hstep : s.step textLocks event = some s') : s'.Agrees := by
  have hwhole := hlaid
  obtain ⟨blocks, hlaid, hothers⟩ := hlaid
  cases event with
  | tick later =>
    rw [Server.step] at hstep
    obtain ⟨hlater, hstep⟩ := Option.ite_none_right_eq_some.mp hstep
    obtain rfl := Option.some.inj hstep
    exact fun i n expires hgranted hlt => h i n expires hgranted (by bv_omega)
  | BUDB_GetLock caller callPermitted tv_sec instanceId lockName expiration ending =>
    obtain rfl : instanceId = caller := hown
    obtain ⟨hclock, rfl | ⟨lockName, rfl, hfree, rfl⟩⟩ := step_getLock hwhole hstep
    · exact h
    · intro i n expires hgranted hlt
      by_cases hnew : ending = .committed ∧ i = instanceId ∧ n = lockName
      · obtain ⟨rfl, rfl, rfl⟩ := hnew
        obtain rfl : tv_sec + expiration = expires := by simpa using hgranted
        have hlock : ((s.finish .committed (.ok (s.db.setTextLock n ⟨1, tv_sec, tv_sec + expiration, i⟩))).h.textLocks n) =
            ⟨1, tv_sec, tv_sec + expiration, i⟩ := Function.update_self ..
        dsimp only
        rw [hlock]
        exact ⟨by simp, rfl, rfl⟩
      · -- a lock that was there before is not expired, so it is another one
        have hold : s.granted i n = some expires := by simpa only [hnew, if_false] using hgranted
        have hlock := h i n expires hold hlt
        have hn : n ≠ lockName := by
          rintro rfl
          refine hfree ⟨hlock.1, ?_⟩
          rw [hlock.2.1]
          dsimp only at hlt
          bv_omega
        have hsame := finish_ind (P := fun db => db.h.textLocks n = s.db.h.textLocks n) ending
          (.ok (s.db.setTextLock lockName ⟨1, tv_sec, tv_sec + expiration, instanceId⟩)) rfl fun db' hok =>
            Except.ok.inj hok ▸ Function.update_of_ne hn ..
        dsimp only
        rwa [hsame]
  | BUDB_FreeLock caller callPermitted handle ending =>
    obtain rfl := Option.some.inj hstep
    cases hhandle : checkLockHandle textLocks handle with
    | none =>
      refine h.fewer rfl (fun i n expires hsome => by simpa only [hhandle] using hsome) fun i n expires _ _ => ?_
      refine finish_ind (P := fun db => db.h.textLocks n = s.db.h.textLocks n) ending _ rfl fun db' hok => ?_
      obtain ⟨lockName, hsome, -⟩ := BUDB_FreeLock_ok hlaid hok
      exact absurd (hhandle.symm.trans hsome) (by simp)
    | some lockName =>
      have hholds : s.Holds caller lockName := hown lockName (checkLockHandle_lt hhandle) hhandle
      have hforgot : ∀ i n expires, s.forget caller lockName i n = some expires →
          ¬(i = caller ∧ n = lockName) ∧ s.granted i n = some expires := by
        intro i n expires hsome
        rw [forget] at hsome
        obtain ⟨hboth, hsome⟩ := Option.ite_none_left_eq_some.mp hsome
        exact ⟨hboth, hsome⟩
      refine h.fewer rfl (fun i n expires hsome => ?_) fun i n expires hsome hlt => ?_
      · exact (hforgot i n expires hsome).2
      · obtain ⟨hboth, hgranted⟩ := hforgot i n expires hsome
        refine finish_ind (P := fun db => db.h.textLocks n = s.db.h.textLocks n) ending _ rfl fun db' hok => ?_
        obtain ⟨lockName', hhandle', rfl⟩ := BUDB_FreeLock_ok hlaid hok
        obtain rfl : lockName = lockName' := Option.some.inj (hhandle.symm.trans hhandle')
        have hn : n ≠ lockName := by
          rintro rfl
          exact hboth ⟨(h i n expires hgranted hlt).2.2.symm.trans (h.instanceId hholds), rfl⟩
        exact Function.update_of_ne hn ..
  | BUDB_FreeAllLocks caller callPermitted instanceId ending =>
    obtain rfl : instanceId = caller := hown
    obtain rfl := Option.some.inj hstep
    have hforgot : ∀ i n expires, (if i = instanceId then none else s.granted i n) = some expires →
        i ≠ instanceId ∧ s.granted i n = some expires := by
      intro i n expires hsome
      obtain ⟨hi, hsome⟩ := Option.ite_none_left_eq_some.mp hsome
      exact ⟨hi, hsome⟩
    refine h.fewer rfl (fun i n expires hsome => (hforgot i n expires hsome).2) fun i n expires hsome hlt => ?_
    obtain ⟨hi, hgranted⟩ := hforgot i n expires hsome
    refine finish_ind (P := fun db => db.h.textLocks n = s.db.h.textLocks n) ending _ rfl fun db' hok => ?_
    have hother : ¬(n < TB_NUM ∧ (s.db.h.textLocks n).lockState = 1 ∧ (s.db.h.textLocks n).instanceId = instanceId) :=
      fun hall => hi ((h i n expires hgranted hlt).2.2.symm.trans hall.2.2)
    rw [(BUDB_FreeAllLocks_ok hlaid hok).2, if_neg hother]
  | BUDB_SaveText caller callPermitted handle textType offset flags charList ending =>
    obtain rfl := Option.some.inj hstep
    refine h.fewer rfl (fun _ _ _ hsome => hsome) fun _ n _ _ _ => ?_
    refine finish_ind (P := fun db => db.h.textLocks n = s.db.h.textLocks n) ending _ rfl fun db' hok => ?_
    obtain ⟨_, _, _, -, -, -, helsewhere⟩ := BUDB_SaveText_ok hlaid hok
    exact congrFun helsewhere.textLocks n
  | allocOther contents =>
    rw [Server.step] at hstep
    by_cases hroom : room s.db blocks = 0
    · rw [AllocBlock_full hlaid.pool hroom] at hstep
      exact absurd hstep (by simp)
    · obtain ⟨db', a, free, halloc, htaken⟩ := AllocBlock_spec hlaid.pool (Nat.pos_of_ne_zero hroom) (u := .other) (by simp)
      rw [halloc] at hstep
      obtain rfl := Option.some.inj hstep
      exact h.fewer rfl (fun _ _ _ hsome => hsome) fun _ n _ _ _ => congrFun htaken.textLocks n
  | writeOther a contents =>
    rw [Server.step] at hstep
    obtain ⟨hmem, hstep⟩ := Option.ite_none_right_eq_some.mp hstep
    obtain rfl := Option.some.inj hstep
    exact h
  | freeOther a =>
    rw [Server.step] at hstep
    obtain ⟨hmem, hstep⟩ := Option.ite_none_right_eq_some.mp hstep
    obtain ⟨db', blocks', hfree, hfreed⟩ := hlaid.freeOther hothers hmem
    rw [hfree] at hstep
    obtain rfl := Option.some.inj hstep
    exact h.fewer rfl (fun _ _ _ hsome => hsome) fun _ n _ _ _ => congrFun hfreed.textLocks n

theorem chainBlocks_eq {db : memoryDB} {a : ℕ} {cells : List ℕ} (hchain : Chained db.next 0 a cells) (fuel : ℕ)
    (hfuel : cells.length ≤ fuel) : chainBlocks db fuel a = cells.map db.disk := by
  induction fuel generalizing a cells with
  | zero =>
    obtain rfl := List.eq_nil_of_length_eq_zero (Nat.le_zero.mp hfuel)
    rfl
  | succ fuel ih =>
    cases cells with
    | nil => exact if_pos hchain
    | cons b cells =>
      obtain ⟨rfl, hne, hrest⟩ := hchain
      rw [chainBlocks, if_neg hne, ih hrest (by simpa using hfuel), List.map_cons]

theorem textOf_elsewhere {n m : ℕ} {blocks blocks' : Use → List ℕ} (h : bak.Laid s.db blocks) (h' : bak.Laid s'.db blocks')
    (helsewhere : Elsewhere n s.db blocks s'.db blocks') (hm : m ≠ n) : s'.textOf m = s.textOf m := by
  have htext : Use.text m ≠ .text n := by simpa using hm
  have hnew : Use.newText m ≠ .newText n := by simpa using hm
  have hsame : (blocks' (.text m)).map s'.db.disk = (blocks (.text m)).map s.db.disk := by
    rw [helsewhere.others _ (by simp) (by simp) htext]
    exact List.map_congr_left fun a ha => helsewhere.disk _ (by simp) (by simp) htext a ha
  have hsame' : (blocks' (.newText m)).map s'.db.disk = (blocks (.newText m)).map s.db.disk := by
    rw [helsewhere.others _ (by simp) hnew (by simp)]
    exact List.map_congr_left fun a ha => helsewhere.disk _ (by simp) hnew (by simp) a ha
  rw [textOf, textOf, chainBlocks_eq (h'.text m) _ (h'.pool.length_le _), chainBlocks_eq (h'.newText m) _ (h'.pool.length_le _),
    chainBlocks_eq (h.text m) _ (h.pool.length_le _), chainBlocks_eq (h.newText m) _ (h.pool.length_le _), hsame, hsame',
    helsewhere.texts m hm]

theorem Agrees.respects (hlaid : s.Laid) (h : s.Agrees) (hown : KeepsToOwn textLocks s event)
    (hstep : s.step textLocks event = some s') : s.Respects event s' := by
  obtain ⟨blocks, hlaid, -⟩ := hlaid
  cases event with
  | BUDB_FreeLock caller callPermitted handle ending =>
    obtain rfl := Option.some.inj hstep
    intro n hchanged
    rcases s.finish_eq ending (bak.BUDB_FreeLock textLocks s.db callPermitted handle) with hlost | ⟨db', hok, hdb⟩
    · exact absurd (by rw [hlost]) hchanged
    · obtain ⟨lockName, hhandle, rfl⟩ := BUDB_FreeLock_ok hlaid hok
      have hn : n = lockName := by
        by_contra hne
        refine hchanged ?_
        rw [hdb]
        exact Function.update_of_ne hne ..
      subst hn
      have hholds : s.Holds caller n := hown n (checkLockHandle_lt hhandle) hhandle
      exact ⟨hholds, h.instanceId hholds⟩
  | BUDB_SaveText caller callPermitted handle textType offset flags charList ending =>
    obtain rfl := Option.some.inj hstep
    intro m hchanged
    rcases s.finish_eq ending (bak.BUDB_SaveText textLocks s.db callPermitted handle textType offset flags charList) with
      hlost | ⟨db', hok, hdb⟩
    · exact absurd (by rw [textOf, hlost, textOf]) hchanged
    · obtain ⟨n, lockName, blocks', rfl, hhandle, hlaid', helsewhere⟩ := BUDB_SaveText_ok hlaid hok
      obtain ⟨hholds, hname⟩ := hown lockName (checkLockHandle_lt hhandle) hhandle
      obtain rfl : n = lockName := by exact_mod_cast hname
      have hm : m = n := by
        by_contra hne
        rw [← hdb] at hlaid' helsewhere
        exact hchanged (textOf_elsewhere hlaid hlaid' helsewhere hne)
      subst hm
      exact ⟨hholds, h.instanceId hholds⟩
  | _ => trivial

end Server

open Server

/-- As long as every instance keeps to its own locks, at most one holds the lock of a text, and texts are saved and locks
freed by their holders only. -/
theorem text_locks_exclude (textLocks : ℕ) {s : Server}
    (hreach : ((server textLocks).restrict (KeepsToOwn textLocks)).Reachable s) :
    s.Exclusive ∧ ∀ event s', ((server textLocks).restrict (KeepsToOwn textLocks)).step s event = some s' →
      s.Respects event s' := by
  have hinv : s.Laid ∧ s.Agrees := by
    refine hreach.invariant (P := fun s => s.Laid ∧ s.Agrees) (fun s hnew => ⟨New.laid hnew, fun i n expires hsome => ?_⟩)
      fun s event s' hinv hstep => ?_
    · exact absurd ((hnew.granted i n).symm.trans hsome) (by simp)
    · obtain ⟨hown, hstep⟩ := System.restrict_step hstep
      exact ⟨hinv.1.step hstep, hinv.2.step hinv.1 hown hstep⟩
  refine ⟨hinv.2.exclusive, fun event s' hstep => ?_⟩
  obtain ⟨hown, hstep⟩ := System.restrict_step hstep
  exact hinv.2.respects hinv.1 hown hstep

theorem text_locks_exclude_oneLock : ∃ s : Server, s.Holds 1 0 ∧ s.Exclusive ∧
    ∀ event s', ((server 4096).restrict (KeepsToOwn 4096)).step s event = some s' → s.Respects event s' := by
  obtain ⟨s, hreach, hholds⟩ := ((server 4096).restrict (KeepsToOwn 4096)).exists_reachable_of_exec (s := newServer)
    [.BUDB_GetLock 1 true 100 1 0 10 .committed, .BUDB_SaveText 1 true 4096 0 0 1 [65] .committed]
    (P := fun s => decide (s.Holds 1 0)) newServer_new (by decide +kernel)
  exact ⟨s, of_decide_eq_true hholds, text_locks_exclude 4096 hreach⟩

/-- The first instance frees its lock when it has expired and the second one has got it; so a third one gets it too. -/
theorem text_locks_shared : ¬ ∀ (textLocks : ℕ) (s : Server), (server textLocks).Reachable s →
    s.Exclusive ∧ ∀ event s', (server textLocks).step s event = some s' → s.Respects event s' := by
  intro hall
  obtain ⟨s, hreach, hboth⟩ := (server 4096).exists_reachable_of_exec (s := newServer)
    [.BUDB_GetLock 1 true 100 1 0 10 .committed, .tick 110, .BUDB_GetLock 2 true 110 2 0 60 .committed,
      .BUDB_FreeLock 1 true 4096 .committed, .BUDB_GetLock 3 true 110 3 0 60 .committed]
    (P := fun s => decide (s.Holds 2 0 ∧ s.Holds 3 0)) newServer_new (by decide +kernel)
  obtain ⟨hsecond, hthird⟩ := of_decide_eq_true hboth
  have hsame := (hall 4096 s hreach).1 0 2 3 hsecond hthird
  exact absurd hsame (by decide)

end dce.bak
