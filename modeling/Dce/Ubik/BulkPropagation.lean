import Dce.Ubik.BulkCalls

open lib

namespace dce.ubik.propagation

/-- A write as the replicas are to do it, in pieces. -/
def pieces (file : ℤ) (pos : ℕ) (data : List Byte) : List Executed :=
  if _hdone : data = [] then []
  else
    .Write file pos (data.take (min UBULK_MAXLENGTH data.length)) ::
      pieces file (pos + min UBULK_MAXLENGTH data.length) (data.drop (min UBULK_MAXLENGTH data.length))
termination_by data.length
decreasing_by
  have hlen := List.length_pos_of_ne_nil _hdone
  simp only [List.length_drop, UBULK_MAXLENGTH]
  omega

/-- The updates of a script that starts at some place. Read locks stay at the sync site. -/
def updates (file : ℤ) (pos : ℕ) : List Call → List Executed
  | [] => []
  | .Seek fileid position :: rest => updates fileid position rest
  | .Write buffer :: rest => pieces file pos buffer ++ updates file (pos + buffer.length) rest
  | .Truncate length :: rest => .Truncate file length :: updates file pos rest
  | .SetLock apos atype :: rest =>
    if atype = LOCKREAD then updates file pos rest else .Lock apos 1 LOCKWRITE :: updates file pos rest

/-- What the sync site is yet to put into a vector. -/
def pending (script : List Call) (file : ℤ) (pos : ℕ) : Pc → List Executed
  | .BeginTrans => .Begin :: updates file pos script
  | .calls rest => updates file pos rest
  | .Write startPos buffer rest => pieces file startPos buffer ++ updates file pos rest
  | .full next => pending script file pos next
  | _ => []

theorem pieces_ne_begin (file : ℤ) (pos : ℕ) (data : List Byte) : Executed.Begin ∉ pieces file pos data := by
  induction hn : data.length using Nat.strong_induction_on generalizing pos data with
  | _ n ih =>
    rw [pieces.eq_def]
    by_cases hdone : data = []
    · rw [dif_pos hdone]
      exact List.not_mem_nil
    · rw [dif_neg hdone, List.mem_cons]
      have hlen := List.length_pos_of_ne_nil hdone
      rintro (hfirst | hrest)
      · exact absurd hfirst (by simp)
      · refine ih (data.drop (min UBULK_MAXLENGTH data.length)).length ?_ _ _ rfl hrest
        simp only [List.length_drop, UBULK_MAXLENGTH]
        omega

theorem updates_ne_begin (file : ℤ) (pos : ℕ) (script : List Call) : Executed.Begin ∉ updates file pos script := by
  induction script generalizing file pos with
  | nil => exact List.not_mem_nil
  | cons call rest ih =>
    cases call with
    | Seek fileid position => exact ih fileid position
    | Write buffer =>
      rw [updates, List.mem_append]
      rintro (hfirst | hrest)
      · exact pieces_ne_begin file pos buffer hfirst
      · exact ih _ _ hrest
    | Truncate length =>
      rw [updates, List.mem_cons]
      rintro (hfirst | hrest)
      · exact absurd hfirst (by simp)
      · exact ih _ _ hrest
    | SetLock apos atype =>
      unfold updates
      split
      · exact ih file pos
      · rw [List.mem_cons]
        rintro (hfirst | hrest)
        · exact absurd hfirst (by simp)
        · exact ih _ _ hrest

def Means (entry : BulkUpdate) (update : Executed) : Prop :=
  if entry.op = UBULK_BEGIN then update = .Begin
  else entry.run = some update ∧ (entry.op = UBULK_LOCK → entry.arg3 = 1)

section Decoders

variable {entry : BulkUpdate} {update : Executed}

theorem Means.ne_begin (h : Means entry update) (hne : update ≠ .Begin) :
    entry.op ≠ UBULK_BEGIN ∧ entry.run = some update ∧ (entry.op = UBULK_LOCK → entry.arg3 = 1) := by
  unfold Means at h
  by_cases hop : entry.op = UBULK_BEGIN
  · rw [if_pos hop] at h
    exact absurd h hne
  · rw [if_neg hop] at h
    exact ⟨hop, h⟩

theorem Means.of_begin (hop : entry.op = UBULK_BEGIN) : Means entry .Begin := by
  unfold Means
  rw [if_pos hop]

theorem Means.of_run (hop : entry.op ≠ UBULK_BEGIN) (hrun : entry.run = some update)
    (hlock : entry.op = UBULK_LOCK → entry.arg3 = 1) : Means entry update := by
  unfold Means
  rw [if_neg hop]
  exact ⟨hrun, hlock⟩

theorem Means.begin (h : Means entry .Begin) : entry.op = UBULK_BEGIN := by
  by_contra hop
  unfold Means at h
  rw [if_neg hop] at h
  have hrun := h.1
  unfold BulkUpdate.run at hrun
  split_ifs at hrun
  all_goals exact absurd (Option.some.inj hrun) (by simp)

theorem mapM_run {entries : List BulkUpdate} {es : List Executed} (h : List.Forall₂ Means entries es) (hne : Executed.Begin ∉ es) :
    entries.mapM BulkUpdate.run = some es := by
  induction h with
  | nil => rfl
  | cons hfirst _ ih =>
    rw [List.mem_cons, not_or] at hne
    rw [List.mapM_cons, (hfirst.ne_begin (Ne.symm hne.1)).2.1, ih hne.2]
    rfl

theorem SUBIKDISK_BulkUpdate_ok {currentTrans : Bool} {entries : List BulkUpdate} {es : List Executed}
    (h : List.Forall₂ Means entries es) (hsome : es ≠ []) (htail : Executed.Begin ∉ es.tail)
    (hhead : currentTrans = true ∨ es.head? = some .Begin) : SUBIKDISK_BulkUpdate currentTrans entries = some es := by
  cases h with
  | nil => exact absurd rfl hsome
  | @cons entry update entries es hfirst hrest =>
    unfold SUBIKDISK_BulkUpdate
    dsimp only
    by_cases hbegin : update = .Begin
    · subst hbegin
      rw [if_pos hfirst.begin, mapM_run hrest htail]
      rfl
    · obtain ⟨hop, -, -⟩ := hfirst.ne_begin hbegin
      have hcurrent : currentTrans = true := hhead.resolve_right fun hfirst => hbegin (Option.some.inj hfirst)
      rw [if_neg hop, if_pos hcurrent]
      refine mapM_run (.cons hfirst hrest) ?_
      rw [List.mem_cons, not_or]
      exact ⟨Ne.symm hbegin, htail⟩

theorem compatCall_ok {currentTrans : Bool} (h : Means entry update)
    (hcurrent : currentTrans = true ∨ update = .Begin) : compatCall currentTrans entry = some update := by
  unfold compatCall
  by_cases hbegin : update = .Begin
  · subst hbegin
    rw [if_pos h.begin]
  · obtain ⟨hop, hrun, hlock⟩ := h.ne_begin hbegin
    have htrans : currentTrans = true := hcurrent.resolve_right hbegin
    rw [if_neg hop]
    unfold BulkUpdate.run at hrun
    by_cases hisLock : entry.op = UBULK_LOCK
    · rw [if_pos hisLock] at hrun ⊢
      rw [if_pos ⟨htrans, hlock hisLock⟩]
      exact hrun
    · rw [if_neg hisLock] at hrun ⊢
      rw [if_pos htrans, if_pos htrans]
      exact hrun

end Decoders

/-- The entries of a vector stand for some updates. -/
def Holds (memory : ℕ → BulkUpdate) (es : List Executed) : Prop := ∀ k update, es[k]? = some update → Means (memory k) update

/-- Where the thread for a server is: the updates `before` are done, those of `sent` are in the vector `v`. -/
inductive Stage (memory : Vector → ℕ → BulkUpdate) (before sent closing : List Executed) (v : Vector) : Server → Prop where
  | idle {server : Server} (hthread : server.thread = .idle) (hexecuted : server.upToDate = true →
      server.executed = before ++ sent ++ closing ∧ server.currentTrans = !server.executed.isEmpty) :
      Stage memory before sent closing v server
  | bulk {server : Server} {parm : Params} {marshalled : List BulkUpdate} (hthread : server.thread = .BulkUpdate parm marshalled)
      (hclosing : closing = []) (hparm : parm = ⟨sent.length, v⟩) (hholds : Holds (memory v) sent) (hsome : sent ≠ [])
      (hmarshalled : List.Forall₂ Means marshalled (sent.take marshalled.length)) (hexecuted : server.executed = before)
      (htrans : server.currentTrans = !server.executed.isEmpty) : Stage memory before sent closing v server
  | compat {server : Server} {parm : Params} {k : ℕ} (hthread : server.thread = .BulkUpdateCompat parm k)
      (hclosing : closing = []) (hparm : parm = ⟨sent.length, v⟩) (hholds : Holds (memory v) sent) (hk : k ≤ sent.length)
      (hexecuted : server.executed = before ++ sent.take k) (htrans : server.currentTrans = !server.executed.isEmpty) :
      Stage memory before sent closing v server
  | commit {server : Server} (hthread : server.thread = .Commit) (hclosing : closing = [.Commit])
      (hexecuted : server.executed = before ++ sent) (hsome : server.executed ≠ [])
      (htrans : server.currentTrans = !server.executed.isEmpty) : Stage memory before sent closing v server

def Pc.fills : Pc → Prop
  | .BeginTrans | .calls _ | .Write .. => True
  | _ => False

def Pc.closing : Pc → List Executed
  | .WaitCommit | .done => [.Commit]
  | _ => []

def State.sending (s : State) : Vector :=
  match s.pc with
  | .WaitFlush => s.bulk
  | _ => s.rpc_bulk

/-- The account of a transaction: the updates that every server has executed, those that are being sent, and those that
are in the vector make up the beginning of what the script asks for. -/
structure Account (ubik_maxbulk nservers : ℕ) (script : List Call) (s : State) (before sent queued : List Executed) : Prop where
  total : before ++ sent ++ queued ++ pending script s.seekFile s.seekPos s.pc = .Begin :: updates 0 0 script
  vectors : s.bulk ≠ s.rpc_bulk
  queue : Holds (s.memory s.bulk) queued
  count : s.pc ≠ .WaitFlush → s.nbulk = queued.length
  drained : s.pc = .WaitFlush ∨ s.pc = .Commit ∨ s.pc.closing ≠ [] → queued = []
  room : s.pc.fills → s.nbulk < ubik_maxbulk
  next : ∀ next, s.pc = .full next → next.fills ∧ queued ≠ []
  servers : ∀ i < nservers, Stage s.memory before sent s.pc.closing s.sending (s.servers i)
  running : ∀ i < nservers, (s.servers i).thread ≠ .idle → s.RpcRunning = true
  finished : s.pc = .done → s.RpcRunning = false

section Threads

variable {ubik_maxbulk nservers : ℕ} {script : List Call} {s : State} {before sent queued closing : List Executed} {v : Vector}
  {memory memory' : Vector → ℕ → BulkUpdate} {server : Server} {i : ℕ}

theorem Account.begins (h : Account ubik_maxbulk nservers script s before sent queued) :
    Executed.Begin ∉ sent.tail ∧ (before = [] → sent ≠ [] → sent.head? = some .Begin) ∧ (before ≠ [] → Executed.Begin ∉ sent) := by
  have htotal := h.total
  have hnone := updates_ne_begin 0 0 script
  rw [List.append_assoc, List.append_assoc] at htotal
  cases before with
  | nil =>
    cases sent with
    | nil => exact ⟨List.not_mem_nil, fun _ hsome => absurd rfl hsome, fun hsome => absurd rfl hsome⟩
    | cons update sent =>
      obtain ⟨hfirst, hrest⟩ := List.cons.inj htotal
      refine ⟨fun hmem => hnone ?_, fun _ _ => congrArg some hfirst, fun hsome => absurd rfl hsome⟩
      rw [← hrest]
      exact List.mem_append_left _ hmem
  | cons update before =>
    obtain ⟨-, hrest⟩ := List.cons.inj htotal
    have hsent : Executed.Begin ∉ sent := by
      intro hmem
      refine hnone ?_
      rw [← hrest]
      exact List.mem_append_right _ (List.mem_append_left _ hmem)
    exact ⟨fun hmem => hsent (List.mem_of_mem_tail hmem), fun hnil => absurd hnil (List.cons_ne_nil _ _), fun _ => hsent⟩

theorem Account.one (h : Account ubik_maxbulk nservers script s before sent queued)
    (hstage : i < nservers → Stage s.memory before sent s.pc.closing s.sending server)
    (hrunning : i < nservers → server.thread ≠ .idle → s.RpcRunning = true) (srvr_pver : ℕ → ℕ) :
    Account ubik_maxbulk nservers script { s with servers := Function.update s.servers i server, srvr_pver := srvr_pver }
      before sent queued := by
  refine { h with servers := fun j hj => ?_, running := fun j hj => ?_ }
  · change Stage s.memory before sent s.pc.closing s.sending (Function.update s.servers i server j)
    by_cases hji : j = i
    · subst hji
      rw [Function.update_self]
      exact hstage hj
    · rw [Function.update_of_ne hji]
      exact h.servers j hj
  · by_cases hji : j = i
    · subst hji
      dsimp only
      rw [Function.update_self]
      exact hrunning hj
    · dsimp only
      rw [Function.update_of_ne hji]
      exact h.running j hj

theorem Stage.lost (h : Stage memory before sent closing v server) :
    Stage memory before sent closing v { server with upToDate := false } := by
  cases h with
  | idle hthread hexecuted => exact .idle hthread fun hup => absurd hup (by simp)
  | bulk hthread hclosing hparm hholds hsome hmarshalled hexecuted htrans =>
    exact .bulk hthread hclosing hparm hholds hsome hmarshalled hexecuted htrans
  | compat hthread hclosing hparm hholds hk hexecuted htrans => exact .compat hthread hclosing hparm hholds hk hexecuted htrans
  | commit hthread hclosing hexecuted hsome htrans => exact .commit hthread hclosing hexecuted hsome htrans

theorem Account.rpc (h : Account ubik_maxbulk nservers script s before sent queued) (hi : i < nservers)
    (hbusy : (s.servers i).thread ≠ .idle) :
    ∃ s', s.rpc i = some s' ∧ Account ubik_maxbulk nservers script s' before sent queued := by
  obtain ⟨htail, hhead, hlater⟩ := h.begins
  have hrunning := h.running i hi hbusy
  have htransOf : ∀ {executed : List Executed}, executed ≠ [] → true = !executed.isEmpty := by
    intro executed hsome
    rw [List.isEmpty_eq_false_iff.mpr hsome]
    rfl
  unfold State.rpc
  dsimp only
  cases h.servers i hi with
  | idle hthread => exact absurd hthread hbusy
  | @bulk parm marshalled hthread hclosing hparm hholds hsome hmarshalled hexecuted htrans =>
    rw [hthread]
    dsimp only
    subst hparm
    by_cases hmore : marshalled.length < sent.length
    · rw [if_pos hmore]
      refine ⟨_, rfl, h.one (fun _ => ?_) (fun _ _ => hrunning) _⟩
      refine .bulk rfl hclosing rfl hholds hsome ?_ hexecuted htrans
      have hmeans := hholds marshalled.length _ (List.getElem?_eq_getElem hmore)
      rw [List.length_append, List.length_singleton, ← List.take_append_getElem hmore]
      exact List.rel_append hmarshalled (.cons hmeans .nil)
    · rw [if_neg hmore]
      by_cases hversion : (s.servers i).version2 = true
      · rw [if_pos hversion]
        have hall : List.Forall₂ Means marshalled sent := by
          rw [List.take_of_length_le (Nat.not_lt.mp hmore)] at hmarshalled
          exact hmarshalled
        have hfirst : (s.servers i).currentTrans = true ∨ sent.head? = some .Begin := by
          by_cases hbefore : before = []
          · exact .inr (hhead hbefore hsome)
          · exact .inl (htrans.trans (htransOf (hexecuted ▸ hbefore)).symm)
        rw [SUBIKDISK_BulkUpdate_ok hall hsome htail hfirst]
        refine ⟨_, rfl, h.one (fun _ => ?_) (fun _ hidle => absurd rfl hidle) _⟩
        refine .idle rfl fun _ => ⟨?_, ?_⟩
        · change (s.servers i).executed ++ sent = _
          rw [hexecuted, hclosing, List.append_nil]
        · exact htransOf (by simp [hsome])
      · rw [if_neg hversion]
        refine ⟨_, rfl, h.one (fun _ => ?_) (fun _ _ => hrunning) _⟩
        exact .compat rfl hclosing rfl hholds (Nat.zero_le _) (by simpa using hexecuted) htrans
  | @compat parm k hthread hclosing hparm hholds hk hexecuted htrans =>
    rw [hthread]
    dsimp only
    subst hparm
    by_cases hmore : k < sent.length
    · rw [if_pos hmore]
      have hmeans := hholds k _ (List.getElem?_eq_getElem hmore)
      have hfirst : (s.servers i).currentTrans = true ∨ sent[k] = .Begin := by
        by_cases hdone : (s.servers i).executed = []
        · right
          rw [hexecuted] at hdone
          obtain ⟨hbefore, htake⟩ := List.append_eq_nil_iff.mp hdone
          have hsome : sent ≠ [] := List.length_pos_iff.mp (Nat.zero_lt_of_lt hmore)
          have hzero : k = 0 := by
            have hlen := congrArg List.length htake
            rw [List.length_take, List.length_nil] at hlen
            omega
          subst hzero
          have hbegin := hhead hbefore hsome
          rw [List.head?_eq_getElem?, List.getElem?_eq_getElem hmore] at hbegin
          exact Option.some.inj hbegin
        · exact .inl (htrans.trans (htransOf hdone).symm)
      rw [compatCall_ok hmeans hfirst]
      refine ⟨_, rfl, h.one (fun _ => ?_) (fun _ _ => hrunning) _⟩
      refine .compat rfl hclosing rfl hholds hmore ?_ (htransOf (by simp))
      change (s.servers i).executed ++ [sent[k]] = before ++ sent.take (k + 1)
      rw [hexecuted, List.append_assoc, List.take_append_getElem hmore]
    · rw [if_neg hmore]
      refine ⟨_, rfl, h.one (fun _ => ?_) (fun _ hidle => absurd rfl hidle) _⟩
      refine .idle rfl fun _ => ⟨?_, htrans⟩
      change (s.servers i).executed = _
      rw [hexecuted, hclosing, List.append_nil, List.take_of_length_le (Nat.not_lt.mp hmore)]
  | commit hthread hclosing hexecuted hsome htrans =>
    rw [hthread]
    dsimp only
    have hcurrent : (s.servers i).currentTrans = true := htrans.trans (htransOf hsome).symm
    rw [if_pos hcurrent]
    refine ⟨_, rfl, h.one (fun _ => ?_) (fun _ hidle => absurd rfl hidle) _⟩
    refine .idle rfl fun _ => ⟨?_, ?_⟩
    · change (s.servers i).executed ++ [.Commit] = _
      rw [hexecuted, hclosing]
    · exact hcurrent.trans (htransOf (by simp))

end Threads

section SyncSite

variable {ubik_maxbulk nservers : ℕ} {script : List Call} {s s' : State} {before sent queued closing : List Executed} {v : Vector}
  {memory memory' : Vector → ℕ → BulkUpdate} {server : Server} {pc next : Pc}

theorem Pc.fills.spec (h : pc.fills) : pc ≠ .WaitFlush ∧ pc ≠ .Commit ∧ pc.closing = [] ∧ ∀ next, pc ≠ .full next := by
  cases pc with
  | BeginTrans => exact ⟨by simp, by simp, rfl, by simp⟩
  | calls rest => exact ⟨by simp, by simp, rfl, by simp⟩
  | Write startPos buffer rest => exact ⟨by simp, by simp, rfl, by simp⟩
  | _ => exact absurd h id

theorem sending_of_ne (h : s.pc ≠ .WaitFlush) : s.sending = s.rpc_bulk := by
  unfold State.sending
  split
  · next hpc => exact absurd hpc h
  · rfl

theorem Stage.on (h : Stage memory before sent closing v server) (hsame : memory' v = memory v) :
    Stage memory' before sent closing v server := by
  cases h with
  | idle hthread hexecuted => exact .idle hthread hexecuted
  | bulk hthread hclosing hparm hholds hsome hmarshalled hexecuted htrans =>
    exact .bulk hthread hclosing hparm (hsame.symm ▸ hholds) hsome hmarshalled hexecuted htrans
  | compat hthread hclosing hparm hholds hk hexecuted htrans =>
    exact .compat hthread hclosing hparm (hsame.symm ▸ hholds) hk hexecuted htrans
  | commit hthread hclosing hexecuted hsome htrans => exact .commit hthread hclosing hexecuted hsome htrans

section

variable (h : Account ubik_maxbulk nservers script s before sent queued)

include h

theorem Account.move (hfills : s.pc.fills) {file : ℤ} {pos : ℕ}
    (hpc : pc.fills ∨ pc = .Flush) (hpending : pending script file pos pc = pending script s.seekFile s.seekPos s.pc) :
    Account ubik_maxbulk nservers script { s with seekFile := file, seekPos := pos, pc := pc } before sent queued := by
  obtain ⟨hold, -, holdClosing, -⟩ := hfills.spec
  have hnew : pc ≠ .WaitFlush ∧ pc ≠ .Commit ∧ pc.closing = [] ∧ ∀ next, pc ≠ .full next := by
    rcases hpc with hpc | rfl
    · exact hpc.spec
    · exact ⟨by simp, by simp, rfl, by simp⟩
  obtain ⟨hne, hcommit, hclosing, hfull⟩ := hnew
  refine ⟨?_, h.vectors, h.queue, fun _ => h.count hold, ?_, fun _ => h.room hfills, fun next hnext => absurd hnext (hfull next),
    fun i hi => ?_, h.running, fun hdone => ?_⟩
  · dsimp only
    rw [hpending]
    exact h.total
  · rintro (hpc' | hpc' | hpc')
    · exact absurd hpc' hne
    · exact absurd hpc' hcommit
    · exact absurd hclosing hpc'
  · have hstage := h.servers i hi
    rw [holdClosing, sending_of_ne hold] at hstage
    rw [sending_of_ne hne, hclosing]
    exact hstage
  · have hnow : pc = .done := hdone
    rw [hnow] at hclosing
    exact absurd hclosing (by simp [Pc.closing])

theorem Account.append (hfills : s.pc.fills)
    {entry : BulkUpdate → BulkUpdate} {update : Executed} (hmeans : ∀ old, Means (entry old) update) (hnext : next.fills)
    (hpending : pending script s.seekFile s.seekPos s.pc = update :: pending script s.seekFile s.seekPos next) :
    Account ubik_maxbulk nservers script (s.append ubik_maxbulk entry next) before sent (queued ++ [update]) := by
  obtain ⟨hold, -, holdClosing, -⟩ := hfills.spec
  obtain ⟨hne, hcommit, hclosing, hfull⟩ := hnext.spec
  have hcount := h.count hold
  have hroom := h.room hfills
  have hmemory : ∀ {w}, w ≠ s.bulk → (s.append ubik_maxbulk entry next).memory w = s.memory w := fun hw => Function.update_of_ne hw ..
  have hself : (s.append ubik_maxbulk entry next).memory s.bulk =
      Function.update (s.memory s.bulk) s.nbulk (entry (s.memory s.bulk s.nbulk)) := Function.update_self ..
  have hpc : (s.append ubik_maxbulk entry next).pc = next ∨
      s.nbulk + 1 = ubik_maxbulk ∧ (s.append ubik_maxbulk entry next).pc = .full next := by
    by_cases hlast : s.nbulk + 1 = ubik_maxbulk
    · exact .inr ⟨hlast, if_pos hlast⟩
    · exact .inl (if_neg hlast)
  have hpending' : pending script s.seekFile s.seekPos (s.append ubik_maxbulk entry next).pc = pending script s.seekFile s.seekPos next := by
    rcases hpc with hpc | ⟨-, hpc⟩
    · rw [hpc]
    · rw [hpc, pending]
  have hnot : (s.append ubik_maxbulk entry next).pc ≠ .WaitFlush ∧ (s.append ubik_maxbulk entry next).pc ≠ .Commit ∧
      (s.append ubik_maxbulk entry next).pc.closing = [] := by
    rcases hpc with hpc | ⟨-, hpc⟩
    · rw [hpc]
      exact ⟨hne, hcommit, hclosing⟩
    · rw [hpc]
      exact ⟨by simp, by simp, rfl⟩
  refine ⟨?_, h.vectors, ?_, fun _ => ?_, ?_, fun hfills' => ?_, fun next' hnext' => ?_, fun i hi => ?_, h.running,
    fun hdone => ?_⟩
  · change before ++ sent ++ (queued ++ [update]) ++ pending script s.seekFile s.seekPos (s.append ubik_maxbulk entry next).pc = _
    rw [hpending', ← h.total, hpending]
    simp only [List.append_assoc, List.singleton_append]
  · intro k e hk
    change Means ((s.append ubik_maxbulk entry next).memory s.bulk k) e
    rw [hself]
    by_cases hlast : k = queued.length
    · rw [hlast, List.getElem?_append_right (Nat.le_refl _), Nat.sub_self] at hk
      obtain rfl := Option.some.inj hk
      rw [hlast, ← hcount, Function.update_self]
      exact hmeans _
    · have hlt : k < queued.length := by
        have hbound := (List.getElem?_eq_some_iff.mp hk).1
        rw [List.length_append, List.length_singleton] at hbound
        omega
      rw [List.getElem?_append_left hlt] at hk
      rw [Function.update_of_ne (by omega)]
      exact h.queue k e hk
  · rw [List.length_append, List.length_singleton, ← hcount]
    rfl
  · rintro (hpc' | hpc' | hpc')
    · exact absurd hpc' hnot.1
    · exact absurd hpc' hnot.2.1
    · exact absurd hnot.2.2 hpc'
  · change s.nbulk + 1 < ubik_maxbulk
    rcases hpc with hpc | ⟨-, hpc⟩
    · by_contra hfullNow
      have hlast : s.nbulk + 1 = ubik_maxbulk := by omega
      have hwas : (s.append ubik_maxbulk entry next).pc = .full next := if_pos hlast
      exact hfull next (hpc.symm.trans hwas)
    · rw [hpc] at hfills'
      exact absurd hfills' id
  · refine ⟨?_, by simp⟩
    rcases hpc with hpc | ⟨-, hpc⟩
    · exact absurd (hpc.symm.trans hnext') (hfull next')
    · rw [hpc] at hnext'
      exact Pc.full.inj hnext' ▸ hnext
  · have hstage := h.servers i hi
    rw [holdClosing, sending_of_ne hold] at hstage
    rw [sending_of_ne hnot.1, hnot.2.2]
    exact hstage.on (hmemory (Ne.symm h.vectors))
  · have hend := hnot.2.2
    rw [hdone] at hend
    exact absurd hend (by simp [Pc.closing])

theorem Account.wait
    (hwait : s.WaitContactQuorum nservers = some s') : Account ubik_maxbulk nservers script s' before sent queued ∧
      (∀ i < nservers, (s'.servers i).thread = .idle) ∧ s'.pc = s.pc ∧ s'.RpcRunning = false := by
  unfold State.WaitContactQuorum at hwait
  by_cases hrunning : s.RpcRunning = true
  · rw [if_neg (not_not.mpr hrunning)] at hwait
    obtain ⟨hquiet, hwait⟩ := Option.ite_none_right_eq_some.mp hwait
    obtain rfl := Option.some.inj hwait
    have hidle : ∀ i < nservers, (s.servers i).thread = .idle := by
      intro i hi
      have hthread := hquiet i hi
      unfold Thread.isIdle at hthread
      split at hthread
      · assumption
      · exact absurd hthread (by decide)
    exact ⟨{ h with running := fun i hi hbusy => absurd (hidle i hi) hbusy, finished := fun _ => rfl }, hidle, rfl, rfl⟩
  · rw [if_pos hrunning] at hwait
    obtain rfl := Option.some.inj hwait
    refine ⟨h, fun i hi => ?_, rfl, Bool.not_eq_true _ ▸ hrunning⟩
    by_contra hbusy
    exact hrunning (h.running i hi hbusy)

theorem Account.idle {i : ℕ} (hi : i < nservers) (hidle : (s.servers i).thread = .idle) (hup : (s.servers i).upToDate = true) :
    (s.servers i).executed = before ++ sent ++ s.pc.closing ∧ (s.servers i).currentTrans = !(s.servers i).executed.isEmpty := by
  cases h.servers i hi with
  | idle _ hexecuted => exact hexecuted hup
  | bulk hthread => exact absurd (hidle.symm.trans hthread) (by simp)
  | compat hthread => exact absurd (hidle.symm.trans hthread) (by simp)
  | commit hthread => exact absurd (hidle.symm.trans hthread) (by simp)

theorem Account.start
    (hidle : ∀ i < nservers, (s.servers i).thread = .idle) (hclosing : s.pc.closing = []) (hholds : Holds (s.memory v) queued)
    (hsome : queued ≠ []) {i : ℕ} (hi : i < nservers) :
    Stage s.memory (before ++ sent) queued [] v
      ((s.AsyncContactQuorum nservers (State.bulkUpdate ⟨queued.length, v⟩)).servers i) ∧
    (((s.AsyncContactQuorum nservers (State.bulkUpdate ⟨queued.length, v⟩)).servers i).thread ≠ .idle →
      (s.AsyncContactQuorum nservers (State.bulkUpdate ⟨queued.length, v⟩)).RpcRunning = true) := by
  unfold State.AsyncContactQuorum
  dsimp only
  by_cases hup : (s.servers i).upToDate = true
  · rw [if_pos hup]
    obtain ⟨hexecuted, htrans⟩ := h.idle hi (hidle i hi) hup
    rw [hclosing, List.append_nil] at hexecuted
    refine ⟨?_, fun _ => ?_⟩
    · by_cases hversion : 2 ≤ s.ProviderVers i
      · refine .bulk (if_pos hversion) rfl rfl hholds hsome ?_ hexecuted htrans
        exact .nil
      · refine .compat (if_neg hversion) rfl rfl hholds (Nat.zero_le _) ?_ htrans
        rw [List.take_zero, List.append_nil]
        exact hexecuted
    · rw [Bool.or_eq_true, List.any_eq_true]
      exact .inr ⟨i, List.mem_range.mpr hi, hup⟩
  · rw [if_neg hup]
    exact ⟨.idle (hidle i hi) fun hup' => absurd hup' hup, fun hbusy => absurd (hidle i hi) hbusy⟩

end

def Accounted (ubik_maxbulk nservers : ℕ) (script : List Call) (s : State) : Prop :=
  ∃ before sent queued, Account ubik_maxbulk nservers script s before sent queued

variable (h : Account ubik_maxbulk nservers script s before sent queued)

include h

theorem Account.full (hmax : 0 < ubik_maxbulk) (hpc : s.pc = .full next)
    (hstep : s.syncSite ubik_maxbulk nservers script = some s') : Accounted ubik_maxbulk nservers script s' := by
  simp only [State.syncSite, hpc] at hstep
  obtain ⟨s₁, hwait, rfl⟩ := Option.map_eq_some_iff.mp hstep
  obtain ⟨h₁, hidle, hpc₁, -⟩ := h.wait hwait
  have hpcFull : s₁.pc = .full next := hpc₁.trans hpc
  obtain ⟨hfills, hsome⟩ := h₁.next next hpcFull
  obtain ⟨hne, hcommit, hnextClosing, hfull⟩ := hfills.spec
  have hclosing : s₁.pc.closing = [] := by rw [hpcFull]; rfl
  have hcount : s₁.nbulk = queued.length := h₁.count (by rw [hpcFull]; simp)
  have htotal := h₁.total
  rw [hpcFull, pending] at htotal
  refine ⟨before ++ sent, queued, [], ?_, Ne.symm h₁.vectors, fun k e hk => absurd hk (by simp), fun _ => rfl, fun _ => rfl,
    fun _ => hmax, fun next' hnext' => absurd hnext' (hfull next'), fun i hi => ?_, fun i hi => ?_, fun hdone => ?_⟩
  · rw [List.append_nil]
    exact htotal
  · have hstart := (h₁.start hidle hclosing h₁.queue hsome hi).1
    rw [← hcount] at hstart
    change Stage s₁.memory (before ++ sent) queued next.closing _ _
    rw [hnextClosing, sending_of_ne hne]
    exact hstart
  · have hstart := (h₁.start hidle hclosing h₁.queue hsome hi).2
    rw [← hcount] at hstart
    exact hstart
  · rw [show next = .done from hdone] at hfills
    exact absurd hfills id

theorem Account.flush (hpc : s.pc = .Flush)
    (hstep : s.syncSite ubik_maxbulk nservers script = some s') : Accounted ubik_maxbulk nservers script s' := by
  simp only [State.syncSite, hpc] at hstep
  obtain ⟨s₁, hwait, rfl⟩ := Option.map_eq_some_iff.mp hstep
  obtain ⟨h₁, hidle, hpc₁, -⟩ := h.wait hwait
  have hpcFlush : s₁.pc = .Flush := hpc₁.trans hpc
  have hclosing : s₁.pc.closing = [] := by rw [hpcFlush]; rfl
  have hcount : s₁.nbulk = queued.length := h₁.count (by rw [hpcFlush]; simp)
  have htotal := h₁.total
  rw [hpcFlush] at htotal
  by_cases hsome : s₁.nbulk ≠ 0
  · rw [if_pos hsome]
    have hqueued : queued ≠ [] := fun hnil => hsome (by rw [hcount, hnil]; rfl)
    refine ⟨before ++ sent, queued, [], ?_, h₁.vectors, fun k e hk => absurd hk (by simp), fun hne => absurd rfl hne, fun _ => rfl,
      fun hfills => absurd hfills id, fun next' hnext' => absurd hnext' (by simp), fun i hi => ?_, fun i hi => ?_,
      fun hdone => absurd hdone (by simp)⟩
    · rw [List.append_nil]
      exact htotal
    · have hstart := (h₁.start hidle hclosing h₁.queue hqueued hi).1
      rw [← hcount] at hstart
      exact hstart
    · have hstart := (h₁.start hidle hclosing h₁.queue hqueued hi).2
      rw [← hcount] at hstart
      exact hstart
  · rw [if_neg hsome]
    have hqueued : queued = [] := List.length_eq_zero_iff.mp (hcount.symm.trans (not_not.mp hsome))
    refine ⟨before, sent, queued, htotal, h₁.vectors, h₁.queue, fun _ => hcount, fun _ => hqueued,
      fun hfills => absurd hfills id, fun next' hnext' => absurd hnext' (by simp), fun i hi => ?_, h₁.running,
      fun hdone => absurd hdone (by simp)⟩
    have hstage := h₁.servers i hi
    rw [hclosing, sending_of_ne (by rw [hpcFlush]; simp)] at hstage
    exact hstage

theorem Account.commit (hpc : s.pc = .Commit)
    (hstep : s.syncSite ubik_maxbulk nservers script = some s') : Accounted ubik_maxbulk nservers script s' := by
  simp only [State.syncSite, hpc] at hstep
  obtain ⟨s₁, hwait, rfl⟩ := Option.map_eq_some_iff.mp hstep
  obtain ⟨h₁, hidle, hpc₁, -⟩ := h.wait hwait
  have hpcCommit : s₁.pc = .Commit := hpc₁.trans hpc
  have hclosing : s₁.pc.closing = [] := by rw [hpcCommit]; rfl
  have hqueued : queued = [] := h₁.drained (.inr (.inl hpcCommit))
  have htotal := h₁.total
  rw [hpcCommit] at htotal
  refine ⟨before, sent, queued, htotal, h₁.vectors, h₁.queue, fun _ => h₁.count (by rw [hpcCommit]; simp), fun _ => hqueued,
    fun hfills => absurd hfills id, fun next' hnext' => absurd hnext' (by simp), fun i hi => ?_, fun i hi hbusy => ?_,
    fun hdone => absurd hdone (by simp)⟩
  · change Stage s₁.memory before sent [.Commit] s₁.rpc_bulk _
    unfold State.AsyncContactQuorum
    dsimp only
    by_cases hup : (s₁.servers i).upToDate = true
    · rw [if_pos hup]
      obtain ⟨hexecuted, htrans⟩ := h₁.idle hi (hidle i hi) hup
      rw [hclosing, List.append_nil] at hexecuted
      refine .commit rfl rfl hexecuted ?_ htrans
      replace htotal : before ++ sent ++ queued ++ [] = _ := htotal
      rw [hqueued, List.append_nil, List.append_nil] at htotal
      change (s₁.servers i).executed ≠ []
      rw [hexecuted, htotal]
      exact List.cons_ne_nil _ _
    · rw [if_neg hup]
      exact .idle (hidle i hi) fun hup' => absurd hup' hup
  · unfold State.AsyncContactQuorum at hbusy ⊢
    dsimp only at hbusy ⊢
    by_cases hup : (s₁.servers i).upToDate = true
    · rw [Bool.or_eq_true, List.any_eq_true]
      exact .inr ⟨i, List.mem_range.mpr hi, hup⟩
    · rw [if_neg hup] at hbusy
      exact absurd (hidle i hi) hbusy

theorem Account.syncSite (hmax : 0 < ubik_maxbulk)
    (hstep : s.syncSite ubik_maxbulk nservers script = some s') : Accounted ubik_maxbulk nservers script s' := by
  have hwrite : ∀ (startPos : ℕ) {buffer : List Byte}, buffer ≠ [] →
      (if buffer.length > UBULK_MAXLENGTH then UBULK_MAXLENGTH else buffer.length) = min UBULK_MAXLENGTH buffer.length := by
    intro _ buffer _
    split <;> omega
  cases hpc : s.pc with
  | BeginTrans =>
    simp only [State.syncSite, hpc] at hstep
    obtain rfl := Option.some.inj hstep
    refine ⟨before, sent, queued ++ [.Begin], h.append (hpc ▸ trivial) (fun old => ?_) trivial ?_⟩
    · exact Means.of_begin rfl
    · rw [hpc]
      rfl
  | calls rest =>
    cases rest with
    | nil =>
      simp only [State.syncSite, hpc] at hstep
      obtain rfl := Option.some.inj hstep
      refine ⟨before, sent, queued, h.move (hpc ▸ trivial) (.inr rfl) ?_⟩
      rw [hpc]
      rfl
    | cons call rest =>
      cases call with
      | Seek fileid position =>
        simp only [State.syncSite, hpc] at hstep
        obtain rfl := Option.some.inj hstep
        refine ⟨before, sent, queued, h.move (hpc ▸ trivial) (.inl trivial) ?_⟩
        rw [hpc]
        rfl
      | Write buffer =>
        simp only [State.syncSite, hpc] at hstep
        obtain rfl := Option.some.inj hstep
        refine ⟨before, sent, queued, h.move (hpc ▸ trivial) (.inl trivial) ?_⟩
        rw [hpc]
        rfl
      | Truncate length =>
        simp only [State.syncSite, hpc] at hstep
        obtain rfl := Option.some.inj hstep
        refine ⟨before, sent, queued ++ [.Truncate s.seekFile length], h.append (hpc ▸ trivial) (fun old => ?_) trivial ?_⟩
        · exact Means.of_run (by decide : UBULK_TRUNC ≠ UBULK_BEGIN) rfl fun hlock => absurd hlock (by decide : UBULK_TRUNC ≠ UBULK_LOCK)
        · rw [hpc]
          rfl
      | SetLock apos atype =>
        simp only [State.syncSite, hpc] at hstep
        by_cases hread : atype = LOCKREAD
        · rw [if_pos hread] at hstep
          obtain rfl := Option.some.inj hstep
          refine ⟨before, sent, queued, h.move (hpc ▸ trivial) (.inl trivial) ?_⟩
          rw [hpc]
          exact (if_pos hread).symm
        · rw [if_neg hread] at hstep
          obtain rfl := Option.some.inj hstep
          refine ⟨before, sent, queued ++ [.Lock apos 1 LOCKWRITE], h.append (hpc ▸ trivial) (fun old => ?_) trivial ?_⟩
          · exact Means.of_run (by decide : UBULK_LOCK ≠ UBULK_BEGIN) rfl fun _ => rfl
          · rw [hpc]
            exact if_neg hread
  | Write startPos buffer rest =>
    simp only [State.syncSite, hpc] at hstep
    by_cases hdone : buffer = []
    · rw [if_pos hdone] at hstep
      obtain rfl := Option.some.inj hstep
      refine ⟨before, sent, queued, h.move (hpc ▸ trivial) (.inl trivial) ?_⟩
      rw [hpc, pending, pending, pieces.eq_def, dif_pos hdone, List.nil_append]
    · rw [if_neg hdone, hwrite startPos hdone] at hstep
      obtain rfl := Option.some.inj hstep
      refine ⟨before, sent, queued ++ [.Write s.seekFile startPos (buffer.take (min UBULK_MAXLENGTH buffer.length))],
        h.append (hpc ▸ trivial) (fun old => ?_) trivial ?_⟩
      · refine Means.of_run (by decide : UBULK_WRITE ≠ UBULK_BEGIN) ?_ fun hlock => absurd hlock (by decide : UBULK_WRITE ≠ UBULK_LOCK)
        have htake : (buffer.take (min UBULK_MAXLENGTH buffer.length)).length = min UBULK_MAXLENGTH buffer.length := by
          rw [List.length_take]
          omega
        change some (Executed.Write _ _ (List.take _ (_ ++ _))) = _
        rw [List.take_left' htake]
      · rw [hpc, pending, pending, pieces.eq_def, dif_neg hdone, List.cons_append]
  | full next => exact h.full hmax hpc hstep
  | Flush => exact h.flush hpc hstep
  | WaitFlush =>
    simp only [State.syncSite, hpc] at hstep
    obtain ⟨s₁, hwait, rfl⟩ := Option.map_eq_some_iff.mp hstep
    obtain ⟨h₁, hidle, hpc₁, -⟩ := h.wait hwait
    have hpcWait : s₁.pc = .WaitFlush := hpc₁.trans hpc
    have hqueued : queued = [] := h₁.drained (.inl hpcWait)
    have htotal := h₁.total
    rw [hpcWait] at htotal
    refine ⟨before, sent, queued, htotal, h₁.vectors, h₁.queue, fun _ => by rw [hqueued]; rfl, fun _ => hqueued,
      fun hfills => absurd hfills id, fun next' hnext' => absurd hnext' (by simp), fun i hi => ?_, h₁.running,
      fun hdone => absurd hdone (by simp)⟩
    refine .idle (hidle i hi) fun hup => ?_
    have hdone := h₁.idle hi (hidle i hi) hup
    rw [hpcWait] at hdone
    exact hdone
  | Commit => exact h.commit hpc hstep
  | WaitCommit =>
    simp only [State.syncSite, hpc] at hstep
    obtain ⟨s₁, hwait, rfl⟩ := Option.map_eq_some_iff.mp hstep
    obtain ⟨h₁, hidle, hpc₁, hrunning⟩ := h.wait hwait
    have hpcWait : s₁.pc = .WaitCommit := hpc₁.trans hpc
    have htotal := h₁.total
    rw [hpcWait] at htotal
    refine ⟨before, sent, queued, htotal, h₁.vectors, h₁.queue, fun _ => h₁.count (by rw [hpcWait]; simp),
      fun _ => h₁.drained (.inr (.inr (by rw [hpcWait]; simp [Pc.closing]))), fun hfills => absurd hfills id,
      fun next' hnext' => absurd hnext' (by simp), fun i hi => ?_, h₁.running, fun _ => hrunning⟩
    refine .idle (hidle i hi) fun hup => ?_
    have hdone := h₁.idle hi (hidle i hi) hup
    rw [hpcWait] at hdone
    exact hdone
  | done => simp [State.syncSite, hpc] at hstep

end SyncSite

section Runs

variable {ubik_maxbulk nservers : ℕ} {script : List Call} {s s' : State} {before sent queued : List Executed}

theorem accounted_init (hmax : 0 < ubik_maxbulk) (hinit : (writeTrans ubik_maxbulk nservers script).init s) :
    Accounted ubik_maxbulk nservers script s := by
  obtain ⟨hvectors, hnbulk, hfile, hpos, hrunning, hpc, hservers⟩ := hinit
  refine ⟨[], [], [], ?_, hvectors, fun k e hk => absurd hk (by simp), fun _ => hnbulk, fun _ => rfl, fun _ => hnbulk ▸ hmax,
    fun next hnext => absurd (hpc.symm.trans hnext) (by simp), fun i _ => ?_, fun i _ hbusy => absurd (hservers i).1 hbusy,
    fun _ => hrunning⟩
  · rw [hfile, hpos, hpc]
    rfl
  · refine .idle (hservers i).1 fun _ => ?_
    rw [hpc, (hservers i).2.1, (hservers i).2.2]
    exact ⟨rfl, rfl⟩

theorem accounted_step (hmax : 0 < ubik_maxbulk) (h : Accounted ubik_maxbulk nservers script s) {event : Event}
    (hstep : (writeTrans ubik_maxbulk nservers script).step s event = some s') : Accounted ubik_maxbulk nservers script s' := by
  obtain ⟨before, sent, queued, h⟩ := h
  cases event with
  | syncSite => exact h.syncSite hmax hstep
  | rpc i =>
    by_cases hi : i < nservers
    · have hrpc : s.rpc i = some s' := (if_pos hi).symm.trans hstep
      have hbusy : (s.servers i).thread ≠ .idle := by
        intro hidle
        unfold State.rpc at hrpc
        dsimp only at hrpc
        rw [hidle] at hrpc
        exact absurd hrpc (by simp)
      obtain ⟨s₁, hs₁, h₁⟩ := h.rpc hi hbusy
      obtain rfl := Option.some.inj (hs₁.symm.trans hrpc)
      exact ⟨before, sent, queued, h₁⟩
    · exact absurd ((if_neg hi).symm.trans hstep) (by simp)
  | lost i =>
    obtain rfl := Option.some.inj hstep
    exact ⟨before, sent, queued, h.one (fun hi => (h.servers i hi).lost) (fun hi hbusy => h.running i hi hbusy) s.srvr_pver⟩

theorem accounted_of_reachable (hmax : 0 < ubik_maxbulk) (hreach : (writeTrans ubik_maxbulk nservers script).Reachable s) :
    Accounted ubik_maxbulk nservers script s :=
  hreach.invariant (P := Accounted ubik_maxbulk nservers script) (fun _ hinit => accounted_init hmax hinit)
    fun _ _ _ hacc hstep => accounted_step hmax hacc hstep

theorem Account.executed_prefix (h : Account ubik_maxbulk nservers script s before sent queued) {i : ℕ} (hi : i < nservers)
    (hup : (s.servers i).upToDate = true) : (s.servers i).executed <+: .Begin :: updates 0 0 script ++ [.Commit] := by
  have htotal : ∀ {es : List Executed}, es <+: before ++ sent → es <+: .Begin :: updates 0 0 script ++ [.Commit] := by
    intro es hes
    rw [← h.total]
    simp only [List.append_assoc]
    rw [← List.append_assoc before]
    exact hes.trans (List.prefix_append _ _)
  cases h.servers i hi with
  | idle hthread hexecuted =>
    rw [(hexecuted hup).1]
    by_cases hclosing : s.pc.closing = []
    · rw [hclosing, List.append_nil]
      exact htotal (List.prefix_refl _)
    · have hqueued := h.drained (.inr (.inr hclosing))
      have hend : s.pc.closing = [.Commit] ∧ pending script s.seekFile s.seekPos s.pc = [] := by
        cases hpc : s.pc with
        | WaitCommit => exact ⟨rfl, rfl⟩
        | done => exact ⟨rfl, rfl⟩
        | _ => exact absurd (by rw [hpc]; rfl) hclosing
      have hall := h.total
      rw [hqueued, hend.2, List.append_nil, List.append_nil] at hall
      rw [hend.1, hall]
  | bulk _ _ _ _ _ _ hexecuted =>
    rw [hexecuted]
    exact htotal (List.prefix_append _ _)
  | compat _ _ _ _ _ hexecuted =>
    rw [hexecuted]
    exact htotal ((List.prefix_append_right_inj before).mpr (List.take_prefix _ _))
  | commit _ _ hexecuted =>
    rw [hexecuted]
    exact htotal (List.prefix_refl _)

theorem syncSite_memory (hstep : s.syncSite ubik_maxbulk nservers script = some s') {v : Vector} (hv : s.pc.fills → v ≠ s.bulk) :
    s'.memory v = s.memory v := by
  have happend : ∀ {entry : BulkUpdate → BulkUpdate} {next : Pc}, s.pc.fills →
      (s.append ubik_maxbulk entry next).memory v = s.memory v := fun hfills => Function.update_of_ne (hv hfills) ..
  have hwait : ∀ {s₁ : State}, s.WaitContactQuorum nservers = some s₁ → s₁.memory = s.memory := by
    intro s₁ hs₁
    unfold State.WaitContactQuorum at hs₁
    split_ifs at hs₁
    · exact Option.some.inj hs₁ ▸ rfl
    · exact Option.some.inj hs₁ ▸ rfl
  cases hpc : s.pc with
  | BeginTrans =>
    simp only [State.syncSite, hpc] at hstep
    obtain rfl := Option.some.inj hstep
    exact happend (hpc ▸ trivial)
  | calls rest =>
    cases rest with
    | nil =>
      simp only [State.syncSite, hpc] at hstep
      exact Option.some.inj hstep ▸ rfl
    | cons call rest =>
      cases call with
      | Seek fileid position =>
        simp only [State.syncSite, hpc] at hstep
        exact Option.some.inj hstep ▸ rfl
      | Write buffer =>
        simp only [State.syncSite, hpc] at hstep
        exact Option.some.inj hstep ▸ rfl
      | Truncate length =>
        simp only [State.syncSite, hpc] at hstep
        obtain rfl := Option.some.inj hstep
        exact happend (hpc ▸ trivial)
      | SetLock apos atype =>
        simp only [State.syncSite, hpc] at hstep
        split_ifs at hstep
        · exact Option.some.inj hstep ▸ rfl
        · obtain rfl := Option.some.inj hstep
          exact happend (hpc ▸ trivial)
  | Write startPos buffer rest =>
    simp only [State.syncSite, hpc] at hstep
    by_cases hdone : buffer = []
    · rw [if_pos hdone] at hstep
      exact Option.some.inj hstep ▸ rfl
    · rw [if_neg hdone] at hstep
      obtain rfl := Option.some.inj hstep
      exact happend (hpc ▸ trivial)
  | done => simp [State.syncSite, hpc] at hstep
  | Flush =>
    simp only [State.syncSite, hpc] at hstep
    obtain ⟨s₁, hs₁, rfl⟩ := Option.map_eq_some_iff.mp hstep
    refine Eq.trans ?_ (congrFun (hwait hs₁) v)
    split <;> rfl
  | _ =>
    simp only [State.syncSite, hpc] at hstep
    obtain ⟨s₁, hs₁, rfl⟩ := Option.map_eq_some_iff.mp hstep
    exact congrFun (hwait hs₁) v

theorem Account.progress (h : Account ubik_maxbulk nservers script s before sent queued) (hpc : s.pc ≠ .done) :
    ∃ event s', (∀ i, event ≠ .lost i) ∧ (writeTrans ubik_maxbulk nservers script).step s event = some s' := by
  by_cases hbusy : ∃ i < nservers, (s.servers i).thread ≠ .idle
  · obtain ⟨i, hi, hbusy⟩ := hbusy
    obtain ⟨s', hs', -⟩ := h.rpc hi hbusy
    exact ⟨.rpc i, s', by simp, (if_pos hi).trans hs'⟩
  · have hquiet : s.Quiet nservers := by
      intro i hi
      have hidle : (s.servers i).thread = .idle := not_not.mp fun hne => hbusy ⟨i, hi, hne⟩
      rw [hidle]
      rfl
    have hwait : ∃ s₁, s.WaitContactQuorum nservers = some s₁ := by
      unfold State.WaitContactQuorum
      by_cases hrunning : s.RpcRunning = true
      · rw [if_neg (not_not.mpr hrunning), if_pos hquiet]
        exact ⟨_, rfl⟩
      · rw [if_pos hrunning]
        exact ⟨_, rfl⟩
    obtain ⟨s₁, hs₁⟩ := hwait
    have hgoes : ∃ s', s.syncSite ubik_maxbulk nservers script = some s' := by
      cases hat : s.pc with
      | BeginTrans =>
        simp only [State.syncSite, hat]
        exact ⟨_, rfl⟩
      | calls rest =>
        cases rest with
        | nil =>
          simp only [State.syncSite, hat]
          exact ⟨_, rfl⟩
        | cons call rest =>
          cases call with
          | SetLock apos atype =>
            simp only [State.syncSite, hat]
            split
            · exact ⟨_, rfl⟩
            · exact ⟨_, rfl⟩
          | _ =>
            simp only [State.syncSite, hat]
            exact ⟨_, rfl⟩
      | Write startPos buffer rest =>
        simp only [State.syncSite, hat]
        split
        · exact ⟨_, rfl⟩
        · exact ⟨_, rfl⟩
      | done => exact absurd hat hpc
      | _ =>
        simp only [State.syncSite, hat, hs₁, Option.map_some]
        exact ⟨_, rfl⟩
    obtain ⟨s', hs'⟩ := hgoes
    exact ⟨.syncSite, s', by simp, hs'⟩

end Runs

def Executed.on (file : ℤ) : Executed → Option FileOp
  | .Write f pos data => if f = file then some (.write pos.toNat data) else none
  | .Truncate f length => if f = file then some (.truncate length.toNat) else none
  | _ => none

/-- What the calls of a script do to a file, with the writes in one piece. -/
def fileOps (target file : ℤ) (pos : ℕ) : List Call → List FileOp
  | [] => []
  | .Seek fileid position :: rest => fileOps target fileid position rest
  | .Write buffer :: rest =>
    (if file = target then [.write pos buffer] else []) ++ fileOps target file (pos + buffer.length) rest
  | .Truncate length :: rest => (if file = target then [.truncate length.toNat] else []) ++ fileOps target file pos rest
  | .SetLock .. :: rest => fileOps target file pos rest

section Bytes

variable {file target : ℤ}

theorem runScript_append (left right : List FileOp) (f : ByteFile) : runScript (left ++ right) f = runScript right (runScript left f) :=
  List.foldl_append

theorem pieces_bytes (target file : ℤ) (pos : ℕ) (data : List Byte) (f : ByteFile) :
    runScript ((pieces file pos data).filterMap (Executed.on target)) f = if file = target then f.write pos data else f := by
  induction hn : data.length using Nat.strong_induction_on generalizing pos data f with
  | _ n ih =>
    rw [pieces.eq_def]
    by_cases hdone : data = []
    · rw [dif_pos hdone, hdone, ByteFile.write_nil, ite_self]
      rfl
    · have hlen := List.length_pos_of_ne_nil hdone
      have hshort : (data.drop (min UBULK_MAXLENGTH data.length)).length < n := by
        simp only [List.length_drop, UBULK_MAXLENGTH]
        omega
      have htake : (data.take (min UBULK_MAXLENGTH data.length)).length = min UBULK_MAXLENGTH data.length := by
        rw [List.length_take]
        omega
      rw [dif_neg hdone]
      by_cases hfile : file = target
      · rw [List.filterMap_cons_some (b := FileOp.write pos (data.take (min UBULK_MAXLENGTH data.length)))
          (by simp [Executed.on, hfile]), if_pos hfile]
        change runScript _ (f.write pos _) = _
        have happend := f.write_append pos (data.take (min UBULK_MAXLENGTH data.length)) (data.drop (min UBULK_MAXLENGTH data.length))
        rw [htake, List.take_append_drop] at happend
        rw [ih _ hshort _ _ _ rfl, if_pos hfile, happend]
      · rw [List.filterMap_cons_none (by simp [Executed.on, hfile]), ih _ hshort _ _ _ rfl, if_neg hfile, if_neg hfile]

theorem updates_bytes (target file : ℤ) (pos : ℕ) (script : List Call) (f : ByteFile) :
    runScript ((updates file pos script).filterMap (Executed.on target)) f = runScript (fileOps target file pos script) f := by
  induction script generalizing file pos f with
  | nil => rfl
  | cons call rest ih =>
    cases call with
    | Seek fileid position => exact ih fileid position f
    | Write buffer =>
      rw [updates, fileOps, List.filterMap_append, runScript_append, runScript_append, pieces_bytes, ih]
      by_cases hfile : file = target
      · rw [if_pos hfile, if_pos hfile]
        rfl
      · rw [if_neg hfile, if_neg hfile]
        rfl
    | Truncate length =>
      rw [updates, fileOps, runScript_append]
      by_cases hfile : file = target
      · rw [List.filterMap_cons_some (b := FileOp.truncate length.toNat) (by simp [Executed.on, hfile]), if_pos hfile]
        exact ih file pos _
      · rw [List.filterMap_cons_none (by simp [Executed.on, hfile]), if_neg hfile]
        exact ih file pos _
    | SetLock apos atype =>
      unfold updates
      split
      · exact ih file pos f
      · rw [List.filterMap_cons_none rfl]
        exact ih file pos f

end Bytes

def Thread.sends (thread : Thread) (parm : Params) : Prop :=
  (∃ marshalled, thread = .BulkUpdate parm marshalled) ∨ ∃ k, thread = .BulkUpdateCompat parm k

/-- What is to hold while the updates of a script are propagated, and when they have been. -/
structure Propagated (ubik_maxbulk nservers : ℕ) (script : List Call) (s : State) : Prop where
  /-- In the end the servers that are up to date have begun, done the updates and committed, by whatever calls. -/
  executed : s.pc = .done → ∀ i < nservers, (s.servers i).upToDate = true →
    (s.servers i).executed = .Begin :: updates 0 0 script ++ [.Commit]
  /-- Before that they have done the first of them. -/
  order : ∀ i < nservers, (s.servers i).upToDate = true → (s.servers i).executed <+: .Begin :: updates 0 0 script ++ [.Commit]
  /-- There is one beginning. -/
  once : Executed.Begin ∉ updates 0 0 script
  /-- The updates write every byte where the script does. -/
  bytes : ∀ file f, runScript ((updates 0 0 script).filterMap (Executed.on file)) f = runScript (fileOps file 0 0 script) f
  /-- A new entry has room in its vector. -/
  room : s.pc.fills → s.nbulk < ubik_maxbulk
  /-- A vector that is being sent stays as it is. -/
  untouched : ∀ s', s.syncSite ubik_maxbulk nservers script = some s' → ∀ i < nservers, ∀ parm, (s.servers i).thread.sends parm →
    s'.memory parm.bulk = s.memory parm.bulk
  /-- The transaction goes on until it is done. -/
  progress : s.pc ≠ .done → ∃ event s', (∀ i, event ≠ .lost i) ∧ (writeTrans ubik_maxbulk nservers script).step s event = some s'

def twoServers : State where
  memory _ _ := default
  bulk := .first
  nbulk := 0
  rpc_bulk := .second
  rpc_nbulk := 0
  seekFile := 0
  seekPos := 0
  RpcRunning := false
  pc := .BeginTrans
  servers i := ⟨true, i = 0, .idle, false, []⟩
  ProviderVers _ := 2
  srvr_pver _ := 0

end dce.ubik.propagation
