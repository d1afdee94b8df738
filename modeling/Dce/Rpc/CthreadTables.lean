import Dce.Rpc.Cthread

open lib

namespace dce.rpc

open thread_state_t

/-- What is true of an entry of a call thread table while the mutex is free. -/
def cthread_elt_t.Fits (cthread : cthread_elt_t) (stop : Bool) : Prop := match cthread.place with
  | .created => cthread.thread_state = RPC_C_IDLE_CTHREAD
  | .waiting => cthread.thread_state = RPC_C_IDLE_CTHREAD ∧ stop = false
  | .woken => cthread.thread_state = RPC_C_IDLE_CTHREAD ∨
      cthread.thread_state = RPC_C_ACTIVE_CTHREAD ∧ stop = false ∧ ∃ call, cthread.call_rep = some call
  | .executing call => cthread.thread_state ≠ RPC_C_NO_CTHREAD ∧ cthread.call_rep = some call
  | .gone => cthread.thread_state = RPC_C_NO_CTHREAD

namespace Cthreads

/-- The call thread tables and the threads belong together. -/
structure Tables (s : Cthreads) : Prop where
  nodup : ∀ p ts, (s.pools p).ctbl = some ts → ts.Nodup
  pool : ∀ p ts, (s.pools p).ctbl = some ts → ∀ t ∈ ts, (s.cthreads t).pool = p ∧ t < s.n_cthreads
  live : ∀ t, (s.cthreads t).place ≠ .gone → ∃ ts, (s.pools (s.cthreads t).pool).ctbl = some ts ∧ t ∈ ts
  stays : ∀ p ts, (s.pools p).ctbl = some ts → (s.pools p).stop = false → ∀ t ∈ ts, (s.cthreads t).place ≠ .gone
  fits : ∀ t, (s.cthreads t).Fits (s.pools (s.cthreads t).pool).stop

/-- The thread is idle in the sense of the table's description: it waits on its condition variable. -/
def Waits (s : Cthreads) (t : Cthread) : Prop :=
  (s.cthreads t).thread_state = RPC_C_IDLE_CTHREAD ∧ ((s.cthreads t).place = .waiting ∨ (s.cthreads t).place = .woken)

instance (s : Cthreads) (t : Cthread) : Decidable (s.Waits t) := inferInstanceAs (Decidable (_ ∧ _))

/-- The idle threads of a pool are counted. -/
structure Idle (s : Cthreads) : Prop where
  count : ∀ p ts, (s.pools p).ctbl = some ts → (s.pools p).stop = false → (s.pools p).n_idle = ts.countP (s.Waits ·)
  cthread : ∀ p ts, (s.pools p).ctbl = some ts → (s.pools p).stop = false → ∀ t, (s.pools p).idle_cthread = some t →
    t ∈ ts ∧ s.Waits t

variable {s : Cthreads} {t : Cthread}

@[simp] theorem setCthread_pools (cthread : cthread_elt_t) : (s.setCthread t cthread).pools = s.pools := rfl

theorem setPool_pools (p : PoolHandle) (pool : cthread_pool_elt_t) (p' : PoolHandle) :
    (s.setPool p pool).pools p' = if p' = p then pool else s.pools p' := Function.update_apply ..

theorem setCthread_cthreads (cthread : cthread_elt_t) (t' : Cthread) :
    (s.setCthread t cthread).cthreads t' = if t' = t then cthread else s.cthreads t' := Function.update_apply ..

variable {s' : Cthreads}

theorem Tables.congr (h : s.Tables) (hctbl : ∀ p, (s'.pools p).ctbl = (s.pools p).ctbl)
    (hstop : ∀ p, (s'.pools p).stop = (s.pools p).stop) (hcthreads : s'.cthreads = s.cthreads)
    (hn : s'.n_cthreads = s.n_cthreads) : s'.Tables where
  nodup p ts := by
    rw [hctbl]
    exact h.nodup p ts
  pool p ts := by
    rw [hctbl, hcthreads, hn]
    exact h.pool p ts
  live t := by
    rw [hcthreads, hctbl]
    exact h.live t
  stays p ts := by
    rw [hctbl, hstop, hcthreads]
    exact h.stays p ts
  fits t := by
    rw [hcthreads, hstop]
    exact h.fits t

theorem Tables.setCthread (h : s.Tables) {cthread : cthread_elt_t} (hpool : cthread.pool = (s.cthreads t).pool)
    (hfits : cthread.Fits (s.pools (s.cthreads t).pool).stop) (hlive : (s.cthreads t).place ≠ .gone)
    (hgone : cthread.place = .gone → (s.pools (s.cthreads t).pool).stop = true) : (s.setCthread t cthread).Tables where
  nodup := h.nodup
  pool p ts hts t' ht' := by
    have hold := h.pool p ts hts t' ht'
    rw [setCthread_cthreads]
    split
    · next heq => subst heq; exact ⟨hpool.trans hold.1, hold.2⟩
    · exact hold
  live t' := by
    rw [setCthread_cthreads]
    split
    · next heq =>
      subst heq
      rw [hpool]
      exact fun _ => h.live t' hlive
    · exact h.live t'
  stays p ts hts hstop t' ht' := by
    rw [setCthread_cthreads]
    split
    · next heq =>
      subst heq
      intro hplace
      have hp := (h.pool p ts hts t' ht').1
      rw [hp] at hgone
      exact Bool.noConfusion ((hgone hplace).symm.trans hstop)
    · exact h.stays p ts hts hstop t' ht'
  fits t' := by
    rw [setCthread_cthreads]
    split
    · rw [hpool]; exact hfits
    · exact h.fits t'

/-- A pool that the server starts and stops: the default one or one of its reserved pools. -/
def Listed (s : Cthreads) (p : PoolHandle) : Prop := p = .default ∨ ∃ i ∈ s.cthread_reserved_pools, p = .reserved i

/-- The server's pools run while calls may be invoked and have no threads while it is stopped. -/
structure Control (s : Cthreads) : Prop where
  enabled : s.cthread_invoke_enabled = true →
    s.stopping = none ∧ ∀ p, s.Listed p → (s.pools p).stop = false ∧ ∃ ts, (s.pools p).ctbl = some ts
  off : s.cthread_invoke_enabled = false → s.stopping = none → ∀ p, s.Listed p → (s.pools p).ctbl = none
  rest : ∀ i, s.stopping = some (.reserved i) → (s.pools .default).ctbl = none ∧ ∃ before after,
    s.cthread_reserved_pools = before ++ i :: after ∧ ∀ j ∈ before, (s.pools (.reserved j)).ctbl = none
  nodup : s.cthread_reserved_pools.Nodup
  threads : ∀ ts, (s.pools .default).ctbl = some ts → ts ≠ []

def Busy (s : Cthreads) (t : Cthread) : Prop := (s.cthreads t).place ≠ .gone ∧ ¬ s.Waits t

/-- The queues agree with each other and with the calls, and somebody is there for those that queue. -/
structure Queues (s : Cthreads) : Prop where
  is_queued : ∀ call, (s.pvt call).is_queued = true ↔ call ∈ (s.pools .default).call_queue
  reserved : ∀ i, (s.pools (.reserved i)).call_queue =
    (s.pools .default).call_queue.filter fun call => s.poolOf call = .reserved i
  busy : (s.pools .default).call_queue ≠ [] → ∃ ts, (s.pools .default).ctbl = some ts ∧ ∃ t ∈ ts, s.Busy t

/-- The call that a thread has been assigned and has not executed yet. -/
def inHand (s : Cthreads) (t : Cthread) : Option Call :=
  if (s.cthreads t).thread_state = RPC_C_ACTIVE_CTHREAD ∧
      ((s.cthreads t).place = .created ∨ (s.cthreads t).place = .waiting ∨ (s.cthreads t).place = .woken) then
    (s.cthreads t).call_rep
  else none

def desk (s : Cthreads) : Desk Call PoolHandle Cthread where
  accepted := s.accepted
  assigned := s.inHand
  queue := (s.pools .default).call_queue.map fun call => (call, s.poolOf call)
  started := s.started
  served := s.served
  logged := s.logged
  withdrawn := s.dequeued

/-- The invariant of the call threads. -/
structure Inv (s : Cthreads) : Prop where
  tables : s.Tables
  idle : s.Idle
  control : s.Control
  queues : s.Queues
  kept : s.desk.Kept
  astray : s.astray = false

/-- Two states with the same pools and threads, up to the queues and what has happened. -/
structure SameThreads (s s' : Cthreads) : Prop where
  ctbl : ∀ p, (s'.pools p).ctbl = (s.pools p).ctbl
  stop : ∀ p, (s'.pools p).stop = (s.pools p).stop
  n_idle : ∀ p, (s'.pools p).n_idle = (s.pools p).n_idle
  idle_cthread : ∀ p, (s'.pools p).idle_cthread = (s.pools p).idle_cthread
  cthreads : s'.cthreads = s.cthreads
  n_cthreads : s'.n_cthreads = s.n_cthreads
  reserved_pools : s'.cthread_reserved_pools = s.cthread_reserved_pools
  enabled : s'.cthread_invoke_enabled = s.cthread_invoke_enabled
  stopping : s'.stopping = s.stopping

theorem SameThreads.waits (h : SameThreads s s') (t : Cthread) : s'.Waits t ↔ s.Waits t := by
  rw [Waits, Waits, h.cthreads]

theorem SameThreads.busy (h : SameThreads s s') (t : Cthread) : s'.Busy t ↔ s.Busy t := by
  rw [Busy, Busy, h.waits, h.cthreads]

theorem SameThreads.inHand (h : SameThreads s s') : s'.inHand = s.inHand := by
  funext t
  rw [Cthreads.inHand, Cthreads.inHand, h.cthreads]

theorem SameThreads.tables (h : SameThreads s s') (htables : s.Tables) : s'.Tables :=
  htables.congr h.ctbl h.stop h.cthreads h.n_cthreads

theorem SameThreads.idle (h : SameThreads s s') (hidle : s.Idle) : s'.Idle where
  count p ts := by
    have hcount : ts.countP (s'.Waits ·) = ts.countP (s.Waits ·) := by
      refine List.countP_congr fun t _ => ?_
      simp only [decide_eq_true_eq]
      exact h.waits t
    rw [h.ctbl, h.stop, h.n_idle, hcount]
    exact hidle.count p ts
  cthread p ts := by
    simp only [h.ctbl, h.stop, h.idle_cthread, h.waits]
    exact hidle.cthread p ts

theorem Control.congr (h : s.Control) (hctbl : ∀ p, (s'.pools p).ctbl = (s.pools p).ctbl)
    (hstop : ∀ p, (s'.pools p).stop = (s.pools p).stop) (hreserved : s'.cthread_reserved_pools = s.cthread_reserved_pools)
    (henabled : s'.cthread_invoke_enabled = s.cthread_invoke_enabled) (hstopping : s'.stopping = s.stopping) : s'.Control where
  enabled := by
    simp only [Listed, henabled, hstopping, hreserved, hstop, hctbl]
    exact h.enabled
  off := by
    simp only [Listed, henabled, hstopping, hreserved, hctbl]
    exact h.off
  rest := by
    simp only [hstopping, hreserved, hctbl]
    exact h.rest
  nodup := by
    rw [hreserved]
    exact h.nodup
  threads := by
    simp only [hctbl]
    exact h.threads

theorem SameThreads.control (h : SameThreads s s') (hcontrol : s.Control) : s'.Control :=
  hcontrol.congr h.ctbl h.stop h.reserved_pools h.enabled h.stopping

theorem Queues.congr (h : s.Queues) (hqueue : ∀ p, (s'.pools p).call_queue = (s.pools p).call_queue)
    (hpvt : s'.pvt = s.pvt) (hctbl : (s'.pools .default).ctbl = (s.pools .default).ctbl)
    (hbusy : (s.pools .default).call_queue ≠ [] → ∀ ts, (s.pools .default).ctbl = some ts → ∀ t ∈ ts, s.Busy t → s'.Busy t) :
    s'.Queues where
  is_queued call := by
    rw [hpvt, hqueue]
    exact h.is_queued call
  reserved i := by
    simp only [hqueue, poolOf, hpvt]
    exact h.reserved i
  busy hne := by
    rw [hqueue] at hne
    rw [hctbl]
    obtain ⟨ts, hts, t, ht, hb⟩ := h.busy hne
    exact ⟨ts, hts, t, ht, hbusy hne ts hts t ht hb⟩

end Cthreads

end dce.rpc
