import Dce.Rpc.Sct

open lib

set_option linter.style.nameCheck false

namespace dce.rpc.sct

section Table

theorem entry_set (sct : Sct) (spot spot' : Spot) (scte : rpc_dg_sct_elt_t) :
    (sct.set spot scte).entry spot' =
      if spot' = spot then (sct.entry spot').map fun _ => scte else sct.entry spot' := by
  obtain ⟨probe, i⟩ := spot
  obtain ⟨probe', i'⟩ := spot'
  by_cases hprobe : probe' = probe
  · subst hprobe
    by_cases hi : i' = i
    · subst hi
      rw [if_pos rfl]
      simp only [Sct.entry, Sct.set, Function.update_self, List.getElem?_set_self']
      rfl
    · rw [if_neg (by simp [hi])]
      simp [Sct.entry, Sct.set, List.getElem?_set_ne (Ne.symm hi)]
  · rw [if_neg (by simp [hprobe])]
    simp [Sct.entry, Sct.set, hprobe]

variable {sct : Sct} {actid : actuid_t} {spot : Spot}

theorem entry_of_set {spot spot' : Spot} {scte scte' : rpc_dg_sct_elt_t}
    (hentry : (sct.set spot scte).entry spot' = some scte') :
    scte' = scte ∨ (spot' ≠ spot ∧ sct.entry spot' = some scte') := by
  rw [entry_set] at hentry
  split_ifs at hentry with hspot
  · obtain ⟨old, -, rfl⟩ := Option.map_eq_some_iff.mp hentry
    exact Or.inl rfl
  · exact Or.inr ⟨hspot, hentry⟩

theorem scan_actid {probe : Probe} (hscan : scan sct actid probe = some spot) :
    ∃ scte, sct.entry spot = some scte ∧ scte.actid = actid := by
  obtain ⟨i, hfound, rfl⟩ := Option.map_eq_some_iff.mp hscan
  obtain ⟨hi, hactid, -⟩ := List.findIdx?_eq_some_iff_getElem.mp hfound
  exact ⟨(sct probe)[i], List.getElem?_eq_getElem hi, by simpa using hactid⟩

theorem rpc__dg_sct_lookup_actid {probe_hint : ℕ}
    (hlookup : rpc__dg_sct_lookup sct actid probe_hint = some spot) :
    ∃ scte, sct.entry spot = some scte ∧ scte.actid = actid := by
  simp only [rpc__dg_sct_lookup] at hlookup
  split at hlookup
  · rename_i hscan
    obtain rfl := Option.some.inj hlookup
    exact scan_actid hscan
  · split_ifs at hlookup
    exact scan_actid hlookup

theorem rpc__dg_sct_get_cases {probe_hint : ℕ} {seq : BitVec 32} {alloc : Bool}
    (hget : (rpc__dg_sct_get sct actid probe_hint seq alloc).2 = some spot) :
    (rpc__dg_sct_lookup sct actid (probe_of actid probe_hint).val = some spot ∧
      (rpc__dg_sct_get sct actid probe_hint seq alloc).1 = sct) ∨
    (rpc__dg_sct_lookup sct actid (probe_of actid probe_hint).val = none ∧ spot = (probe_of actid probe_hint, 0) ∧
      (rpc__dg_sct_get sct actid probe_hint seq alloc).1 =
        Function.update sct spot.1 (new_scte actid (BitVec.ofNat 16 spot.1.val) seq :: sct spot.1)) := by
  simp only [rpc__dg_sct_get] at hget ⊢
  cases hlookup : rpc__dg_sct_lookup sct actid (probe_of actid probe_hint).val with
  | some found =>
    simp only [hlookup] at hget ⊢
    exact Or.inl ⟨hget, trivial⟩
  | none =>
    simp only [hlookup] at hget ⊢
    split_ifs at hget ⊢
    obtain rfl := Option.some.inj hget
    exact Or.inr ⟨trivial, rfl, rfl⟩

theorem entry_of_update_cons {probe : Probe} {scte scte' : rpc_dg_sct_elt_t}
    (hentry : Sct.entry (Function.update sct probe (scte :: sct probe)) spot = some scte') (hspot : spot ≠ (probe, 0)) :
    ∃ old, sct.entry old = some scte' := by
  obtain ⟨probe', i⟩ := spot
  by_cases hprobe : probe' = probe
  · subst hprobe
    cases i with
    | zero => exact absurd rfl hspot
    | succ i => exact ⟨(probe', i), by simpa [Sct.entry] using hentry⟩
  · exact ⟨(probe', i), by simpa [Sct.entry, hprobe] using hentry⟩

end Table

section Calls

variable {scte : rpc_dg_sct_elt_t} {hdr : rpc_dg_pkt_hdr_t} {around : Around}

@[simp] theorem store_actid (scall : rpc_dg_scall_t) (place : Place) : (scte.store scall place).actid = scte.actid := by
  cases place <;> rfl

@[simp] theorem store_high_seq (scall : rpc_dg_scall_t) (place : Place) :
    (scte.store scall place).high_seq = scte.high_seq := by
  cases place <;> rfl

variable {filtered : rpc_dg_sct_elt_t × Disposition} {scallp : Option (Place × rpc_dg_scall_t)} (place : Place)

@[simp] theorem release_actid : (scte.release place).actid = scte.actid := by
  cases place <;> rfl

@[simp] theorem release_high_seq : (scte.release place).high_seq = scte.high_seq := by
  cases place <;> rfl

/-- A call handle that was given to a call: the connection is the same, and the call has the number of the packet. -/
structure GivenTo (scte : rpc_dg_sct_elt_t) (hdr : rpc_dg_pkt_hdr_t) (given : Given) : Prop where
  actid : given.1.actid = scte.actid
  high_seq : given.1.high_seq = scte.high_seq
  call_seq : given.2.2.call_seq = hdr.seq

theorem reuse_givenTo (scall : rpc_dg_scall_t) : GivenTo scte hdr (reuse scte hdr place scall) := by
  unfold reuse
  dsimp only
  split_ifs
  · exact ⟨rfl, rfl, rfl⟩
  · exact ⟨store_actid _ _, store_high_seq _ _, rfl⟩

theorem rpc__dg_scall_alloc_givenTo : GivenTo scte hdr (rpc__dg_scall_alloc scte hdr) := by
  unfold rpc__dg_scall_alloc
  dsimp only
  split_ifs
  · exact ⟨rfl, rfl, rfl⟩
  · exact ⟨rfl, rfl, rfl⟩

theorem reuse_place {place : Place} {scall : rpc_dg_scall_t} (hnowhere : (reuse scte hdr place scall).2.1 = .nowhere) :
    place = .nowhere := by
  unfold reuse at hnowhere
  dsimp only at hnowhere
  split_ifs at hnowhere
  exact hnowhere

theorem rpc__dg_scall_alloc_place : (rpc__dg_scall_alloc scte hdr).2.1 ≠ .nowhere := by
  unfold rpc__dg_scall_alloc
  dsimp only
  split_ifs
  · simp
  · simp

theorem materialize_spec {alloc : Bool} {given : Given}
    (hgiven : materialize scte hdr alloc scallp = some given) :
    GivenTo scte hdr given ∧ (given.2.1 = .nowhere → ∃ scall, scallp = some (.nowhere, scall)) := by
  simp only [materialize] at hgiven
  split at hgiven
  · rename_i place scall hfound
    obtain rfl := Option.some.inj hgiven
    refine ⟨reuse_givenTo place scall, ?_⟩
    intro hnowhere
    obtain rfl := reuse_place hnowhere
    rcases Option.or_eq_some_iff.mp hfound with hat | ⟨-, husable⟩
    · exact ⟨scall, hat⟩
    · obtain ⟨cached, -, hcached⟩ := Option.bind_eq_some_iff.mp husable
      split_ifs at hcached
      simp at hcached
  · split_ifs at hgiven
    obtain rfl := Option.some.inj hgiven
    exact ⟨rpc__dg_scall_alloc_givenTo, fun hnowhere => absurd hnowhere rpc__dg_scall_alloc_place⟩

variable (scte hdr) in
theorem materialize_isSome {alloc : Bool} (scallp : Option (Place × rpc_dg_scall_t)) (halloc : alloc = true) :
    (materialize scte hdr alloc scallp).isSome := by
  simp only [materialize, halloc]
  split
  · rfl
  · rfl

/-- A maybe call that is no later than its connection has got. -/
def is_old_maybe (scte : rpc_dg_sct_elt_t) (hdr : rpc_dg_pkt_hdr_t) : Prop :=
  hdr.maybe = true ∧ ¬ serialLt scte.high_seq hdr.seq

instance : Decidable (is_old_maybe scte hdr) := by
  unfold is_old_maybe
  infer_instance

theorem raise_high_seq_spec {given : Given} (hgiven : GivenTo scte hdr given) :
    (raise_high_seq hdr given).actid = scte.actid ∧
      (raise_high_seq hdr given).high_seq = if is_old_maybe scte hdr then scte.high_seq else hdr.seq := by
  refine ⟨hgiven.actid, ?_⟩
  simp only [raise_high_seq, hgiven.high_seq, hgiven.call_seq]
  by_cases hold : is_old_maybe scte hdr
  · rw [if_pos hold, if_neg]
    simpa [is_old_maybe] using hold
  · rw [if_neg hold, if_pos]
    by_contra hnot
    exact hold (by simpa [is_old_maybe] using hnot)

theorem take_new_call_cases
    (htake : take_new_call hdr around scte scallp = some filtered) :
    (filtered = (scte, .dropped) ∧ around.scall_alloc = false) ∨
    ∃ place scall, filtered.2 = .taken place scall true ∧ filtered.1.actid = scte.actid ∧
      (filtered.1.high_seq = if is_old_maybe scte hdr then scte.high_seq else hdr.seq) ∧
      (place = .nowhere → ∃ found, scallp = some (.nowhere, found)) := by
  simp only [take_new_call, rpc__dg_sct_new_call] at htake
  cases hgiven : materialize scte hdr around.scall_alloc scallp with
  | none =>
    rw [hgiven] at htake
    obtain rfl := Option.some.inj htake
    refine Or.inl ⟨rfl, Bool.eq_false_iff.mpr fun halloc => ?_⟩
    simpa [hgiven] using materialize_isSome scte hdr scallp halloc
  | some given =>
    obtain ⟨hto, hplace⟩ := materialize_spec hgiven
    simp only [hgiven] at htake
    split_ifs at htake with habort
    obtain rfl := Option.some.inj htake
    obtain ⟨hactid, hhigh⟩ := raise_high_seq_spec hto
    exact Or.inr ⟨given.2.1, given.2.2, rfl, hactid, hhigh, hplace⟩

variable (scte) in
theorem rpc__dg_scall_orphan_call_actid (scall : rpc_dg_scall_t) :
    (rpc__dg_scall_orphan_call scte place scall).1.actid = scte.actid := by
  unfold rpc__dg_scall_orphan_call
  split_ifs
  · rfl
  · exact release_actid place

variable (scte) in
theorem rpc__dg_scall_orphan_call_high_seq (scall : rpc_dg_scall_t) :
    (rpc__dg_scall_orphan_call scte place scall).1.high_seq = scte.high_seq := by
  unfold rpc__dg_scall_orphan_call
  split_ifs
  · rfl
  · exact release_high_seq place

theorem scan_maybe_chain_place {seq : BitVec 32} {found : Place × rpc_dg_scall_t}
    (hscan : scan_maybe_chain scte seq = some found) : found.1 ≠ .nowhere := by
  obtain ⟨i, -, hfound⟩ := Option.bind_eq_some_iff.mp hscan
  obtain ⟨temp, -, rfl⟩ := Option.map_eq_some_iff.mp hfound
  simp

theorem rpc__dg_sct_inq_scall_place {seq : BitVec 32} {found : Place × rpc_dg_scall_t}
    (hinq : rpc__dg_sct_inq_scall scte seq = some found) : found.1 ≠ .nowhere := by
  simp only [rpc__dg_sct_inq_scall] at hinq
  split at hinq
  · split_ifs at hinq
    · obtain rfl := Option.some.inj hinq
      simp
    · exact scan_maybe_chain_place hinq
  · exact scan_maybe_chain_place hinq

/-- A maybe call finds an older call of its connection in progress: that one is orphaned, and the maybe call gets its handle. -/
def takes_orphan (scte : rpc_dg_sct_elt_t) (hdr : rpc_dg_pkt_hdr_t) : Prop :=
  hdr.maybe = true ∧ (rpc__dg_sct_inq_scall scte hdr.seq).any fun found => found.2.state.in_progress

instance : Decidable (takes_orphan scte hdr) := by
  unfold takes_orphan
  infer_instance

theorem do_request_common_of_ne {cur_call_seq : BitVec 32} {cur_call_state : rpc_dg_call_state_t}
    (hne : hdr.seq ≠ cur_call_seq) :
    do_request_common cur_call_seq cur_call_state hdr ≠ .non_idem_rerun ∧
      do_request_common cur_call_seq cur_call_state hdr ≠ .cur_call := by
  rw [do_request_common.eq_def, if_neg hne]
  by_cases hlt : serialLt cur_call_seq hdr.seq
  · rw [if_pos hlt]
    cases cur_call_state
    case orphan => by_cases hmaybe : hdr.maybe = true <;> simp [hmaybe]
    all_goals simp
  · rw [if_neg hlt]
    by_cases hmaybe : hdr.maybe = true <;> simp [hmaybe]

theorem do_request_common_orphan {cur_call_seq : BitVec 32} {cur_call_state : rpc_dg_call_state_t}
    (horphan : do_request_common cur_call_seq cur_call_state hdr = .orphan_cur_call) : cur_call_state.in_progress = true := by
  unfold do_request_common at horphan
  cases cur_call_state <;> simp [rpc_dg_call_state_t.in_progress] at horphan ⊢
  all_goals (split_ifs at horphan)

/-- What the filter makes of a request. -/
inductive Filtered (scte : rpc_dg_sct_elt_t) (hdr : rpc_dg_pkt_hdr_t) (around : Around) :
    rpc_dg_sct_elt_t → Disposition → Prop where
  | rejected (hseq : hdr.seq = scte.high_seq) : Filtered scte hdr around scte .rejected
  | dropped {scte' : rpc_dg_sct_elt_t} (hactid : scte'.actid = scte.actid) (hhigh : scte'.high_seq = scte.high_seq) :
    Filtered scte hdr around scte' .dropped
  | current {place : Place} {scall : rpc_dg_scall_t} (hseq : hdr.seq = scte.high_seq) (hplace : place ≠ .nowhere) :
    Filtered scte hdr around scte (.taken place scall false)
  | new {scte' : rpc_dg_sct_elt_t} {place : Place} {scall : rpc_dg_scall_t} (hactid : scte'.actid = scte.actid)
    (hhigh : scte'.high_seq = if is_old_maybe scte hdr then scte.high_seq else hdr.seq)
    (hplace : place = .nowhere → takes_orphan scte hdr) : Filtered scte hdr around scte' (.taken place scall true)

theorem Filtered.of_take_new_call {scte' : rpc_dg_sct_elt_t}
    (htake : take_new_call hdr around scte' scallp = some filtered)
    (hactid : scte'.actid = scte.actid) (hhigh : scte'.high_seq = scte.high_seq)
    (horphan : ∀ found, scallp = some (.nowhere, found) → takes_orphan scte hdr) :
    Filtered scte hdr around filtered.1 filtered.2 := by
  obtain ⟨rfl, -⟩ | ⟨place, scall, htaken, hactid', hhigh', hplace⟩ := take_new_call_cases htake
  · exact .dropped hactid hhigh
  · rw [htaken]
    have hold : is_old_maybe scte' hdr = is_old_maybe scte hdr := by simp only [is_old_maybe, hhigh]
    refine .new (hactid'.trans hactid) (by simpa only [hhigh, hold] using hhigh') ?_
    intro hnowhere
    obtain ⟨found, hfound⟩ := hplace hnowhere
    exact horphan found hfound

theorem filter_request_filtered
    (hfilter : filter_request hdr around scte = some filtered) : Filtered scte hdr around filtered.1 filtered.2 := by
  have hinq : ∀ found, rpc__dg_sct_inq_scall scte hdr.seq = some found → found.1 ≠ .nowhere :=
    fun found => rpc__dg_sct_inq_scall_place
  unfold filter_request filter_found at hfilter
  generalize hfound : rpc__dg_sct_inq_scall scte hdr.seq = scallp at hfilter hinq
  split at hfilter
  · obtain rfl := Option.some.inj hfilter
    exact .dropped rfl rfl
  · rename_i place scall hcommon
    obtain rfl := Option.some.inj hfilter
    refine .current ?_ (hinq _ rfl)
    by_contra hne
    exact (do_request_common_of_ne hne).2 hcommon
  · rename_i place scall hcommon
    have hactid := rpc__dg_scall_orphan_call_actid scte place scall
    have hhigh := rpc__dg_scall_orphan_call_high_seq scte place scall
    dsimp only at hfilter
    split_ifs at hfilter with hmaybe
    · obtain rfl := Option.some.inj hfilter
      exact .dropped hactid hhigh
    · refine .of_take_new_call hfilter hactid hhigh ?_
      intro found _
      refine ⟨by simpa using hmaybe, ?_⟩
      rw [hfound]
      exact do_request_common_orphan hcommon
  · refine .of_take_new_call hfilter rfl rfl ?_
    intro found hnowhere
    exact absurd rfl (hinq _ hnowhere)
  · obtain rfl := Option.some.inj hfilter
    exact .dropped rfl rfl
  · rename_i hcommon
    obtain rfl := Option.some.inj hfilter
    refine .rejected ?_
    by_contra hne
    exact (do_request_common_of_ne hne).1 hcommon
  · obtain rfl := Option.some.inj hfilter
    exact .dropped rfl rfl
  · obtain rfl := Option.some.inj hfilter
    exact .dropped rfl rfl

variable (scte hdr around) in
theorem reach_call_cases (scall : rpc_dg_scall_t) :
    (reach_call hdr around scte place scall).1.actid = scte.actid ∧
      (((reach_call hdr around scte place scall).2 ≠ .backed_out ∧
          (reach_call hdr around scte place scall).1.high_seq = scte.high_seq) ∨
        ((reach_call hdr around scte place scall).2 = .backed_out ∧ around.invoked = .no_executors ∧
          (place ≠ .nowhere → (reach_call hdr around scte place scall).1.high_seq =
            if hdr.seq = scte.high_seq then scte.high_seq - 1 else scte.high_seq))) := by
  unfold reach_call
  dsimp only
  by_cases hforwarded : hdr.forwarded_2 = true
  · rw [if_pos hforwarded]
    exact ⟨store_actid _ _, Or.inl ⟨by simp, store_high_seq _ _⟩⟩
  · rw [if_neg hforwarded]
    by_cases hsetup : (note_request hdr scall).call_is_setup = true
    · rw [if_pos hsetup]
      exact ⟨store_actid _ _, Or.inl ⟨by simp, store_high_seq _ _⟩⟩
    · rw [if_neg hsetup]
      cases hinvoked : around.invoked with
      | ok => exact ⟨store_actid _ _, Or.inl ⟨by simp, store_high_seq _ _⟩⟩
      | call_queued => exact ⟨store_actid _ _, Or.inl ⟨by simp, store_high_seq _ _⟩⟩
      | no_executors =>
        by_cases hplace : place = .nowhere
        · refine ⟨?_, Or.inr ⟨rfl, rfl, fun hne => absurd hplace hne⟩⟩
          dsimp only
          rw [if_pos hplace]
          exact store_actid _ _
        · simp only [if_neg hplace, rpc__dg_sct_backout_new_call, store_high_seq]
          by_cases hseq : hdr.seq = scte.high_seq
          · rw [if_pos hseq]
            exact ⟨store_actid _ _, Or.inr ⟨trivial, trivial, fun _ => (if_pos hseq).symm⟩⟩
          · rw [if_neg hseq]
            exact ⟨store_actid _ _, Or.inr ⟨trivial, trivial, fun _ => (store_high_seq _ _).trans (if_neg hseq).symm⟩⟩

/-- What a request does to its entry, with the events. -/
inductive Requested (scte : rpc_dg_sct_elt_t) (hdr : rpc_dg_pkt_hdr_t) (around : Around) (scte' : rpc_dg_sct_elt_t) :
    List Event → Prop where
  | rejected (hseq : hdr.seq = scte.high_seq) (hhigh : scte'.high_seq = scte.high_seq) :
    Requested scte hdr around scte' [.rejected hdr.actuid hdr.seq]
  | quiet (hhigh : scte'.high_seq = scte.high_seq) : Requested scte hdr around scte' []
  | accepted (hhigh : scte'.high_seq = if is_old_maybe scte hdr then scte.high_seq else hdr.seq) :
    Requested scte hdr around scte' [.accepted hdr.actuid hdr.seq]
  | backed_out {events : List Event} (hinvoked : around.invoked = .no_executors)
    (hevents : events = [] ∨ events = [.accepted hdr.actuid hdr.seq])
    (hhigh : takes_orphan scte hdr ∨
      scte'.high_seq = if is_old_maybe scte hdr ∧ hdr.seq ≠ scte.high_seq then scte.high_seq else hdr.seq - 1) :
    Requested scte hdr around scte' (.unaccepted hdr.actuid hdr.seq :: events)

theorem Requested.of_filtered {scte' : rpc_dg_sct_elt_t} {disposition : Disposition}
    (hfiltered : Filtered scte hdr around scte' disposition) :
    (dispose hdr around scte' disposition).1.actid = scte.actid ∧
      Requested scte hdr around (dispose hdr around scte' disposition).1 (dispose hdr around scte' disposition).2 := by
  cases hfiltered with
  | rejected hseq => exact ⟨rfl, .rejected hseq rfl⟩
  | dropped hactid hhigh => exact ⟨hactid, .quiet hhigh⟩
  | @current place scall hseq hplace =>
    obtain ⟨hactid, ⟨hkept, hhigh⟩ | ⟨hback, hinvoked, hhigh⟩⟩ := reach_call_cases scte hdr around place scall
    · simp only [dispose, if_neg hkept]
      exact ⟨hactid, .quiet hhigh⟩
    · simp only [dispose, if_pos hback]
      refine ⟨hactid, .backed_out hinvoked (Or.inl rfl) (Or.inr ?_)⟩
      rw [hhigh hplace, if_pos hseq, if_neg fun hold => hold.2 hseq, hseq]
  | @new _ place scall hactid' hhigh' hplace =>
    obtain ⟨hactid, ⟨hkept, hhigh⟩ | ⟨hback, hinvoked, hhigh⟩⟩ := reach_call_cases scte' hdr around place scall
    · simp only [dispose, if_neg hkept]
      refine ⟨hactid.trans hactid', .accepted ?_⟩
      rwa [hhigh]
    · simp only [dispose, if_pos hback]
      refine ⟨hactid.trans hactid', .backed_out hinvoked (Or.inr rfl) ?_⟩
      by_cases hnowhere : place = .nowhere
      · exact Or.inl (hplace hnowhere)
      · refine Or.inr ?_
        rw [hhigh hnowhere]
        by_cases hold : is_old_maybe scte hdr
        · rw [if_pos hold] at hhigh'
          by_cases hseq : hdr.seq = scte.high_seq
          · simp [hhigh', hseq]
          · simp [hhigh', hseq, hold]
        · rw [if_neg hold] at hhigh'
          simp [hhigh', hold]

theorem request_to_requested {done : rpc_dg_sct_elt_t × List Event} (hrequest : request_to hdr around scte = some done) :
    done.1.actid = scte.actid ∧ Requested scte hdr around done.1 done.2 := by
  obtain ⟨filtered, hfilter, rfl⟩ := Option.map_eq_some_iff.mp hrequest
  exact Requested.of_filtered (filter_request_filtered hfilter)

theorem serialLt_sub_one (seq : BitVec 32) : serialLt (seq - 1) seq := by
  have hdiff : seq - 1 - seq = -1 := by grind
  rw [serialLt, hdiff]
  decide

theorem request_to_new {actid : actuid_t} {ahint : BitVec 16} {done : rpc_dg_sct_elt_t × List Event}
    (halloc : around.scall_alloc = true)
    (hrequest : request_to hdr around (new_scte actid ahint hdr.seq).reference = some done) :
    .accepted hdr.actuid hdr.seq ∈ done.2 := by
  obtain ⟨filtered, hfilter, rfl⟩ := Option.map_eq_some_iff.mp hrequest
  have hcommon : do_request_common (new_scte actid ahint hdr.seq).reference.high_seq (found_state none) hdr = .new_call := by
    have hne : hdr.seq ≠ hdr.seq - 1 := by grind
    rw [do_request_common.eq_def]
    exact (if_neg hne).trans (if_pos (serialLt_sub_one hdr.seq))
  have hinq : rpc__dg_sct_inq_scall (new_scte actid ahint hdr.seq).reference hdr.seq = none := rfl
  have htake : filter_request hdr around (new_scte actid ahint hdr.seq).reference =
      take_new_call hdr around (new_scte actid ahint hdr.seq).reference none := by
    rw [filter_request, hinq]
    unfold filter_found
    rw [hcommon]
  rw [htake] at hfilter
  obtain ⟨-, hfailed⟩ | ⟨place, scall, htaken, -⟩ := take_new_call_cases hfilter
  · simp [halloc] at hfailed
  · simp [dispose, htaken]

end Calls

end dce.rpc.sct
