import Dce.Lib.Desk
import Dce.Lib.System
import Mathlib.Algebra.Ring.Nat

open lib

set_option linter.style.nameCheck false

namespace dce.rpc

/-- `rpc_call_rep_p_t`. -/
abbrev Call := ℕ

/-- `cthread_elt_p_t`: an entry of a call thread table and the thread that is created for it. -/
abbrev Cthread := ℕ

/-- `rpc_thread_pool_handle_t`: the default pool or one that the application has reserved. -/
inductive PoolHandle where
  | default
  | reserved (i : ℕ)
  deriving DecidableEq, Repr

/-- The states of a call thread. -/
inductive thread_state_t where
  | RPC_C_NO_CTHREAD
  | RPC_C_IDLE_CTHREAD
  | RPC_C_ACTIVE_CTHREAD
  deriving DecidableEq, Repr

open thread_state_t

/-- Where an executor is in `cthread_call_executor`. It holds `cthread_mutex` only between two places. -/
inductive Place where
  /-- It has not run yet. -/
  | created
  /-- It waits on its condition variable. -/
  | waiting
  /-- It has been signalled and waits for the mutex. -/
  | woken
  /-- It runs the routine of a call. -/
  | executing (call : Call)
  | gone
  deriving DecidableEq, Repr

structure cthread_elt_t where
  thread_state : thread_state_t
  pool : PoolHandle
  call_rep : Option Call
  place : Place
  deriving DecidableEq

/-- `cthread_pool_elt_t`. The queue of a reserved pool is that of the calls its elements lead to, and of the free elements
only the number counts. -/
structure cthread_pool_elt_t where
  n_threads : ℕ
  n_idle : ℕ
  ctbl : Option (List Cthread)
  idle_cthread : Option Cthread
  n_queued : ℕ
  max_queued : ℕ
  call_queue : List Call
  free_queue : ℕ
  stop : Bool

/-- `rpc_cthread_pvt_info_t`, with the reserved pool of the queue element in place of the element. -/
structure rpc_cthread_pvt_info_t where
  is_queued : Bool
  qelt : Option ℕ

/-- The state of the call threads. `stopping` is the pool that `rpc__cthread_stop_all` waits for, and `astray` says that it
has to go on from a pool that is no longer in its list. The last fields are what has happened: the calls for which
`rpc__cthread_invoke_null` reported success, those that have been started, those that came from the queue with the pool
they were for, those that ever queued and those that `rpc__cthread_dequeue` returned true for. -/
structure Cthreads where
  pools : PoolHandle → cthread_pool_elt_t
  cthreads : Cthread → cthread_elt_t
  n_cthreads : ℕ
  pvt : Call → rpc_cthread_pvt_info_t
  cthread_reserved_pools : List ℕ
  cthread_default_call_queue_size : ℕ
  cthread_invoke_enabled : Bool
  stopping : Option PoolHandle
  astray : Bool
  accepted : List Call
  started : List (Call × Cthread)
  served : List (Call × PoolHandle)
  logged : List (Call × PoolHandle)
  dequeued : List Call

def RPC_C_CTHREAD_QUEUE_MULTIPLIER : ℕ := 8

namespace Cthreads

variable (s : Cthreads)

def setPool (p : PoolHandle) (pool : cthread_pool_elt_t) : Cthreads := { s with pools := Function.update s.pools p pool }

def setCthread (t : Cthread) (cthread : cthread_elt_t) : Cthreads :=
  { s with cthreads := Function.update s.cthreads t cthread }

def poolOf (call : Call) : PoolHandle := match (s.pvt call).qelt with
  | none => .default
  | some i => .reserved i

def CTHREAD_POOL_IDLE_THREAD (t : Cthread) : Cthreads :=
  let p := (s.cthreads t).pool
  s.setPool p { s.pools p with n_idle := (s.pools p).n_idle + 1, idle_cthread := some t }

/-- `RPC_COND_SIGNAL` of the condition variable of a thread. -/
def RPC_COND_SIGNAL (t : Cthread) : Cthreads :=
  if (s.cthreads t).place = .waiting then s.setCthread t { s.cthreads t with place := .woken } else s

/-- The search of `cthread_pool_assign_thread` in the call thread table. -/
def firstIdle (p : PoolHandle) : Option Cthread :=
  ((s.pools p).ctbl.getD []).find? fun t => (s.cthreads t).thread_state = RPC_C_IDLE_CTHREAD

def cthread_pool_assign_thread (p : PoolHandle) : Option Cthread × Cthreads :=
  let pool := s.pools p
  if 0 < pool.n_idle then
    match pool.idle_cthread with
    | some t => (some t, (s.setPool p { pool with n_idle := pool.n_idle - 1, idle_cthread := none }).setCthread t
        { s.cthreads t with thread_state := RPC_C_ACTIVE_CTHREAD })
    | none => match s.firstIdle p with
      | some t => (some t, (s.setPool p { pool with n_idle := pool.n_idle - 1 }).setCthread t
          { s.cthreads t with thread_state := RPC_C_ACTIVE_CTHREAD })
      | none => (none, s)
  else (none, s)

def CTHREAD_POOL_ASSIGN_THREAD (p : PoolHandle) : Option Cthread × Cthreads :=
  let pool := s.pools p
  match pool.idle_cthread with
  | some t => (some t, (s.setPool p { pool with n_idle := pool.n_idle - 1, idle_cthread := none }).setCthread t
      { s.cthreads t with thread_state := RPC_C_ACTIVE_CTHREAD })
  | none => s.cthread_pool_assign_thread p

/-- `cthread_pool_queue_call`, and whether its status is ok. -/
def cthread_pool_queue_call (p : PoolHandle) (call : Call) : Bool × Cthreads :=
  if (s.pools p).max_queued ≤ (s.pools p).n_queued then (false, s)
  else
    let s := s.setPool .default { s.pools .default with call_queue := (s.pools .default).call_queue ++ [call] }
    match p with
    | .default =>
      (true, { s.setPool .default { s.pools .default with n_queued := (s.pools .default).n_queued + 1 } with
        pvt := Function.update s.pvt call { is_queued := true, qelt := none } })
    | .reserved i =>
      (true, { s.setPool p { s.pools p with
          free_queue := (s.pools p).free_queue - 1
          call_queue := (s.pools p).call_queue ++ [call]
          n_queued := (s.pools p).n_queued + 1 } with
        pvt := Function.update s.pvt call { is_queued := true, qelt := some i } })

/-- `cthread_call_dequeue`, and its value. -/
def cthread_call_dequeue (call : Call) : Bool × Cthreads :=
  if !(s.pvt call).is_queued then (false, s)
  else
    let qelt := (s.pvt call).qelt
    let s := s.setPool .default { s.pools .default with call_queue := (s.pools .default).call_queue.filter (· ≠ call) }
    let s := match qelt with
      | none => s.setPool .default { s.pools .default with n_queued := (s.pools .default).n_queued - 1 }
      | some i => s.setPool (.reserved i) { s.pools (.reserved i) with
          call_queue := (s.pools (.reserved i)).call_queue.filter (· ≠ call)
          n_queued := (s.pools (.reserved i)).n_queued - 1
          free_queue := (s.pools (.reserved i)).free_queue + 1 }
    (true, { s with pvt := Function.update s.pvt call { is_queued := false, qelt := none } })

def execute (t : Cthread) (call : Call) : Cthreads :=
  { s.setCthread t { s.cthreads t with call_rep := some call, place := .executing call } with
    started := s.started ++ [(call, t)] }

/-- The executor takes the first call of its pool's queue (`cthread_pool_dequeue_first`) and executes it. -/
def takeQueued (t : Cthread) : Cthreads := match (s.pools (s.cthreads t).pool).call_queue with
  | [] => s
  | call :: _ => { (s.cthread_call_dequeue call).2.execute t call with served := s.served ++ [(call, s.poolOf call)] }

/-- The executor tests its wait condition: it waits, exits or executes the call assigned to it. -/
def proceed (t : Cthread) : Cthreads :=
  let cthread := s.cthreads t
  if (s.pools cthread.pool).stop then
    s.setCthread t { cthread with thread_state := RPC_C_NO_CTHREAD, place := .gone }
  else if cthread.thread_state = RPC_C_IDLE_CTHREAD then s.setCthread t { cthread with place := .waiting }
  else match cthread.call_rep with
    | some call => s.execute t call
    | none => { s with astray := true }

/-- The executor enters `cthread_call_executor`. With calls in its pool's queue it starts with the first of them. -/
def startExecutor (t : Cthread) : Cthreads :=
  if (s.pools (s.cthreads t).pool).call_queue = [] then (s.CTHREAD_POOL_IDLE_THREAD t).proceed t else s.takeQueued t

def finishCall (t : Cthread) : Cthreads :=
  if (s.pools (s.cthreads t).pool).call_queue = [] then
    ((s.setCthread t { s.cthreads t with thread_state := RPC_C_IDLE_CTHREAD }).CTHREAD_POOL_IDLE_THREAD t).proceed t
  else s.takeQueued t

/-- `rpc__cthread_invoke_null` for a call that the application's function has found the pool of. -/
def rpc__cthread_invoke_null (call : Call) (p : PoolHandle) : Cthreads :=
  if !s.cthread_invoke_enabled then s
  else
    let (cthread, assigned) := s.CTHREAD_POOL_ASSIGN_THREAD p
    let (cthread, assigned) := match cthread, p with
      | none, .reserved _ => assigned.CTHREAD_POOL_ASSIGN_THREAD .default
      | cthread, _ => (cthread, assigned)
    match cthread with
    | some t =>
      let s := { assigned with pvt := Function.update assigned.pvt call { assigned.pvt call with is_queued := false } }
      let s := s.setCthread t { s.cthreads t with call_rep := some call }
      { s.RPC_COND_SIGNAL t with accepted := s.accepted ++ [call] }
    | none => match assigned.cthread_pool_queue_call p call with
      | (true, s) => { s with accepted := s.accepted ++ [call], logged := s.logged ++ [(call, p)] }
      | (false, s) => s

def rpc__cthread_dequeue (call : Call) : Cthreads := match s.cthread_call_dequeue call with
  | (true, s) => { s with dequeued := s.dequeued ++ [call] }
  | (false, s) => s

/-- `cthread_pool_start`, where the threads can be created. They cannot run before the mutex is released. -/
def cthread_pool_start (p : PoolHandle) : Cthreads :=
  let pool := s.pools p
  { s with
    cthreads := fun t => if s.n_cthreads ≤ t ∧ t < s.n_cthreads + pool.n_threads then
        { thread_state := RPC_C_IDLE_CTHREAD, pool := p, call_rep := none, place := .created }
      else s.cthreads t
    n_cthreads := s.n_cthreads + pool.n_threads
    pools := Function.update s.pools p { pool with
      ctbl := some (List.range' s.n_cthreads pool.n_threads)
      n_idle := 0
      idle_cthread := none
      n_queued := 0
      call_queue := []
      free_queue := match p with
        | .default => 0
        | .reserved _ => pool.max_queued
      stop := false } }

/-- `cthread_pool_stop` without the wait. -/
def cthread_pool_stop (p : PoolHandle) : Cthreads := match (s.pools p).ctbl with
  | none => s
  | some ctbl =>
    { s.setPool p { s.pools p with stop := true } with
      cthreads := fun t =>
        if t ∈ ctbl ∧ (s.cthreads t).thread_state ≠ RPC_C_NO_CTHREAD ∧ (s.cthreads t).place = .waiting then
          { s.cthreads t with place := .woken }
        else s.cthreads t }

/-- `rpc__cthread_start_all` for a number of threads that is not null. The pool has sixteen bits for it. -/
def rpc__cthread_start_all (default_pool_cthreads : ℕ) : Cthreads :=
  let s := s.setPool .default { s.pools .default with
    n_threads := default_pool_cthreads % 2 ^ 16
    max_queued := if s.cthread_default_call_queue_size ≠ 0 then s.cthread_default_call_queue_size
      else RPC_C_CTHREAD_QUEUE_MULTIPLIER * default_pool_cthreads % 2 ^ 32 }
  let s := s.cthread_pool_start .default
  let s := s.cthread_reserved_pools.foldl (fun s i => s.cthread_pool_start (.reserved i)) s
  { s with cthread_invoke_enabled := true }

/-- `rpc__cthread_stop_all` up to its first wait. -/
def rpc__cthread_stop_all : Cthreads :=
  let s := { s with cthread_invoke_enabled := false }
  let s := s.cthread_pool_stop .default
  let s := s.cthread_reserved_pools.foldl (fun s i => s.cthread_pool_stop (.reserved i)) s
  { s with stopping := some .default }

def nextPool (i : ℕ) : List ℕ → Option ℕ
  | [] => none
  | j :: rest => if j = i then rest.head? else nextPool i rest

def exited (p : PoolHandle) : Bool :=
  ((s.pools p).ctbl.getD []).all fun t => (s.cthreads t).thread_state = RPC_C_NO_CTHREAD

/-- The end of the wait of `cthread_pool_stop` for a pool, and the pool that `rpc__cthread_stop_all` waits for next. -/
def poolStopped (p : PoolHandle) : Cthreads :=
  { s.setPool p { s.pools p with ctbl := none, free_queue := 0 } with
    stopping := match p with
      | .default => s.cthread_reserved_pools.head?.map .reserved
      | .reserved i => (nextPool i s.cthread_reserved_pools).map .reserved }

/-- `rpc_server_free_thread_pool`: what becomes of the pool's memory later touches no call. -/
def rpc_server_free_thread_pool (i : ℕ) : Cthreads :=
  { s.cthread_pool_stop (.reserved i) with
    cthread_reserved_pools := s.cthread_reserved_pools.filter (· ≠ i)
    astray := s.stopping = some (.reserved i) }

end Cthreads

/-- What can happen to the call threads while `cthread_mutex` is held. -/
inductive CthreadAction where
  | start_all (default_pool_cthreads : ℕ)
  | stop_all
  | stopped
  | free_thread_pool (i : ℕ)
  | invoke (call : Call) (p : PoolHandle)
  | dequeue (call : Call)
  | start (t : Cthread)
  | wake (t : Cthread)
  | wakeEarly (t : Cthread)
  | finish (t : Cthread)
  deriving DecidableEq

open Cthreads

/-- One step. The server is started only when it is stopped and stopped only when it is started; the application's function
finds only pools that it has not freed; a call is invoked once. -/
def cthreadStep (s : Cthreads) (action : CthreadAction) : Option Cthreads :=
  if s.astray then none
  else match action with
    | .start_all n => if s.cthread_invoke_enabled ∨ s.stopping.isSome ∨ n = 0 then none else some (s.rpc__cthread_start_all n)
    | .stop_all => if s.cthread_invoke_enabled then some s.rpc__cthread_stop_all else none
    | .stopped => match s.stopping with
      | some p => if s.exited p then some (s.poolStopped p) else none
      | none => none
    | .free_thread_pool i => if i ∈ s.cthread_reserved_pools then some (s.rpc_server_free_thread_pool i) else none
    | .invoke call p => match p with
      | .default => if call ∈ s.accepted then none else some (s.rpc__cthread_invoke_null call p)
      | .reserved i =>
        if call ∈ s.accepted ∨ i ∉ s.cthread_reserved_pools then none else some (s.rpc__cthread_invoke_null call p)
    | .dequeue call => some (s.rpc__cthread_dequeue call)
    | .start t => if (s.cthreads t).place = .created then some (s.startExecutor t) else none
    | .wake t => if (s.cthreads t).place = .woken then some (s.proceed t) else none
    | .wakeEarly t =>
      if (s.cthreads t).place = .waiting then some (s.setCthread t { s.cthreads t with place := .woken }) else none
    | .finish t => match (s.cthreads t).place with
      | .executing _ => some (s.finishCall t)
      | _ => none

/-- A server that has not been started: its reserved pools have been created, with their numbers of threads and the
lengths of their queues. -/
def Cthreads.Initial (s : Cthreads) : Prop :=
  (∀ p, (s.pools p).ctbl = none ∧ (s.pools p).n_idle = 0 ∧ (s.pools p).idle_cthread = none ∧ (s.pools p).n_queued = 0 ∧
    (s.pools p).call_queue = [] ∧ (s.pools p).stop = false) ∧
  (∀ t, (s.cthreads t).thread_state = RPC_C_NO_CTHREAD ∧ (s.cthreads t).place = .gone) ∧
  (∀ call, (s.pvt call).is_queued = false) ∧ s.cthread_reserved_pools.Nodup ∧ s.cthread_invoke_enabled = false ∧
  s.stopping = none ∧ s.astray = false ∧ s.accepted = [] ∧ s.started = [] ∧ s.served = [] ∧ s.logged = [] ∧ s.dequeued = []

def cthreadSystem : System Cthreads CthreadAction where
  init := Cthreads.Initial
  step := cthreadStep

end dce.rpc
