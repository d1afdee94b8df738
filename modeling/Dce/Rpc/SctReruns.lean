import Dce.Rpc.SctFilter

open lib

namespace dce.rpc.sct

/-- A call was accepted, and not unaccepted since. The newest event stands first. -/
def Accepted : List Event → actuid_t → BitVec 32 → Prop
  | [], _, _ => False
  | .accepted a s :: earlier, actid, seq => (a = actid ∧ s = seq) ∨ Accepted earlier actid seq
  | .unaccepted a s :: earlier, actid, seq => ¬ (a = actid ∧ s = seq) ∧ Accepted earlier actid seq
  | .rejected _ _ :: earlier, actid, seq => Accepted earlier actid seq

instance decidableAccepted : ∀ history actid seq, Decidable (Accepted history actid seq)
  | [], _, _ => isFalse id
  | .accepted a s :: earlier, actid, seq =>
    @instDecidableOr (a = actid ∧ s = seq) _ _ (decidableAccepted earlier actid seq)
  | .unaccepted a s :: earlier, actid, seq =>
    @instDecidableAnd (¬ (a = actid ∧ s = seq)) _ _ (decidableAccepted earlier actid seq)
  | .rejected _ _ :: earlier, actid, seq => decidableAccepted earlier actid seq

/-- Every call that was rejected as a rerun had been accepted before. -/
def RerunsAccepted (history : List Event) : Prop :=
  ∀ later actid seq earlier, history = later ++ .rejected actid seq :: earlier → Accepted earlier actid seq

/-- Every number that a connection has as its highest one is that of a call that was accepted. -/
def HighAccepted (t : Server) : Prop :=
  ∀ spot scte, t.rpc_g_dg_sct.entry spot = some scte → Accepted t.history scte.actid scte.high_seq

section Events

theorem rerunsAccepted_nil : RerunsAccepted [] := by
  intro later actid seq earlier hsplit
  simp at hsplit

theorem RerunsAccepted.cons {history : List Event} {event : Event} (hreruns : RerunsAccepted history)
    (hevent : ∀ actid seq, event = .rejected actid seq → Accepted history actid seq) :
    RerunsAccepted (event :: history) := by
  intro later actid seq earlier hsplit
  cases later with
  | nil =>
    obtain ⟨rfl, rfl⟩ := List.cons_eq_cons.mp hsplit
    exact hevent actid seq rfl
  | cons event' later =>
    obtain ⟨rfl, hrest⟩ := List.cons_eq_cons.mp hsplit
    exact hreruns later actid seq earlier hrest

theorem Accepted.cons {history : List Event} {event : Event} {actid : actuid_t} {seq : BitVec 32}
    (haccepted : Accepted history actid seq) (hother : event ≠ .unaccepted actid seq) :
    Accepted (event :: history) actid seq := by
  cases event with
  | accepted a s => exact Or.inr haccepted
  | unaccepted a s =>
    refine ⟨?_, haccepted⟩
    rintro ⟨rfl, rfl⟩
    exact hother rfl
  | rejected a s => exact haccepted

end Events

section Runs

variable {t : Server} {hdr : rpc_dg_pkt_hdr_t} {around : Around}

def spot_of (t : Server) (hdr : rpc_dg_pkt_hdr_t) : Option Spot :=
  rpc__dg_sct_lookup t.rpc_g_dg_sct hdr.actuid (probe_of hdr.actuid hdr.ahint.toNat).val

/-- A request that finds no entry gets a call handle, or the call before it had been accepted. -/
def FirstTaken (t : Server) (hdr : rpc_dg_pkt_hdr_t) (around : Around) : Prop :=
  spot_of t hdr = none → around.scall_alloc = true ∨ Accepted t.history hdr.actuid (hdr.seq - 1)

/-- The entry that a request finds does not lose its number when the call is backed out, and no maybe call has taken the handle
of an orphan; or the call before it had been accepted. -/
def BackoutKept (t : Server) (hdr : rpc_dg_pkt_hdr_t) : Prop :=
  match (spot_of t hdr).bind t.rpc_g_dg_sct.entry with
  | none => Accepted t.history hdr.actuid (hdr.seq - 1)
  | some scte =>
    ¬ takes_orphan scte hdr ∧
      ((is_old_maybe scte hdr ∧ hdr.seq ≠ scte.high_seq) ∨ Accepted t.history hdr.actuid (hdr.seq - 1))

/-- No other entry of the activity stands at the number of a request. -/
def AloneAt (t : Server) (hdr : rpc_dg_pkt_hdr_t) : Prop :=
  ∀ probe, ∀ i < (t.rpc_g_dg_sct probe).length, spot_of t hdr ≠ some (probe, i) →
    ∀ scte ∈ t.rpc_g_dg_sct.entry (probe, i), ¬ (scte.actid = hdr.actuid ∧ scte.high_seq = hdr.seq)

/-- The steps that leave no number of a call that was not accepted in an entry: a client answers with the number of a call that
was accepted, or with an earlier one than the connection has; a request that an entry is created for is not lost; a call that
is backed out was preceded by one that was accepted. -/
def Keeps (t : Server) : Step → Prop
  | .request hdr around =>
    FirstTaken t hdr around ∧ (around.invoked = .no_executors → BackoutKept t hdr ∧ AloneAt t hdr)
  | .way_answered spot seq =>
    ∀ scte ∈ t.rpc_g_dg_sct.entry spot, serialLt seq scte.high_seq ∨ Accepted t.history scte.actid seq
  | _ => True

instance : Decidable (FirstTaken t hdr around) := by
  unfold FirstTaken
  infer_instance

instance : Decidable (BackoutKept t hdr) := by
  unfold BackoutKept
  split <;> infer_instance

instance : Decidable (AloneAt t hdr) := by
  unfold AloneAt
  infer_instance

instance decidableKeeps (t : Server) : ∀ s, Decidable (Keeps t s)
  | .request hdr around =>
    inferInstanceAs (Decidable (FirstTaken t hdr around ∧ (around.invoked = .no_executors → BackoutKept t hdr ∧ AloneAt t hdr)))
  | .way_answered spot seq =>
    inferInstanceAs (Decidable (∀ scte ∈ t.rpc_g_dg_sct.entry spot,
      serialLt seq scte.high_seq ∨ Accepted t.history scte.actid seq))
  | .way_started _ _ => isTrue trivial
  | .way_failed _ => isTrue trivial
  | .moved _ _ _ => isTrue trivial
  | .orphaned _ _ => isTrue trivial
  | .uncached _ _ => isTrue trivial
  | .aged _ => isTrue trivial

variable {scte scte' : rpc_dg_sct_elt_t} {events history : List Event} {spot : Spot} {t' : Server}

theorem Requested.keeps_accepted
    (hrequested : Requested scte hdr around scte' events) {actid : actuid_t} {seq : BitVec 32}
    (haccepted : Accepted history actid seq)
    (hother : around.invoked = .no_executors → ¬ (actid = hdr.actuid ∧ seq = hdr.seq)) :
    Accepted (events ++ history) actid seq := by
  have hnot : around.invoked = .no_executors → Event.unaccepted hdr.actuid hdr.seq ≠ .unaccepted actid seq := by
    intro hinvoked heq
    obtain ⟨rfl, rfl⟩ := Event.unaccepted.inj heq
    exact hother hinvoked ⟨rfl, rfl⟩
  cases hrequested with
  | rejected hseq hhigh => exact haccepted
  | quiet hhigh => exact haccepted
  | accepted hhigh => exact haccepted.cons (by simp)
  | backed_out hinvoked hevents hhigh =>
    obtain rfl | rfl := hevents
    · exact haccepted.cons (hnot hinvoked)
    · exact (haccepted.cons (by simp)).cons (hnot hinvoked)

theorem not_is_old_maybe {scte : rpc_dg_sct_elt_t} (hhigh : scte.high_seq = hdr.seq - 1) : ¬ is_old_maybe scte hdr := by
  rintro ⟨-, hnot⟩
  rw [hhigh] at hnot
  exact hnot (serialLt_sub_one hdr.seq)

theorem Requested.high_accepted
    (hrequested : Requested scte hdr around scte' events)
    (hhigh : Accepted history hdr.actuid scte.high_seq ∨
      (scte.high_seq = hdr.seq - 1 ∧ .accepted hdr.actuid hdr.seq ∈ events))
    (hbackout : around.invoked = .no_executors → ¬ takes_orphan scte hdr ∧
      ((is_old_maybe scte hdr ∧ hdr.seq ≠ scte.high_seq) ∨ Accepted history hdr.actuid (hdr.seq - 1))) :
    Accepted (events ++ history) hdr.actuid scte'.high_seq := by
  cases hrequested with
  | rejected hseq hsame =>
    rw [hsame]
    obtain haccepted | ⟨-, hnew⟩ := hhigh
    · exact haccepted
    · simp at hnew
  | quiet hsame =>
    rw [hsame]
    obtain haccepted | ⟨-, hnew⟩ := hhigh
    · exact haccepted
    · simp at hnew
  | accepted hhigh' =>
    by_cases hold : is_old_maybe scte hdr
    · rw [if_pos hold] at hhigh'
      rw [hhigh']
      obtain haccepted | ⟨hfirst, -⟩ := hhigh
      · exact haccepted.cons (by simp)
      · exact absurd hold (not_is_old_maybe hfirst)
    · rw [if_neg hold] at hhigh'
      rw [hhigh']
      exact Or.inl ⟨rfl, rfl⟩
  | backed_out hinvoked hevents hhigh' =>
    obtain ⟨horphan, hkept⟩ := hbackout hinvoked
    have hback := Requested.backed_out hinvoked hevents hhigh'
    have hhigh'' := hhigh'.resolve_left horphan
    by_cases hstays : is_old_maybe scte hdr ∧ hdr.seq ≠ scte.high_seq
    · rw [if_pos hstays] at hhigh''
      rw [hhigh'']
      obtain haccepted | ⟨hfirst, -⟩ := hhigh
      · exact hback.keeps_accepted haccepted fun _ heq => hstays.2 heq.2.symm
      · exact absurd hstays.1 (not_is_old_maybe hfirst)
    · rw [if_neg hstays] at hhigh''
      rw [hhigh'']
      refine hback.keeps_accepted (hkept.resolve_left hstays) ?_
      rintro - ⟨-, hseq⟩
      exact absurd hseq (by grind)

theorem Requested.reruns
    (hrequested : Requested scte hdr around scte' events)
    (hhigh : Accepted history hdr.actuid scte.high_seq ∨
      (scte.high_seq = hdr.seq - 1 ∧ .accepted hdr.actuid hdr.seq ∈ events))
    (hreruns : RerunsAccepted history) : RerunsAccepted (events ++ history) := by
  cases hrequested with
  | rejected hseq hsame =>
    refine hreruns.cons ?_
    intro actid seq heq
    obtain ⟨rfl, rfl⟩ := Event.rejected.inj heq
    obtain haccepted | ⟨-, hnew⟩ := hhigh
    · rwa [hseq]
    · simp at hnew
  | quiet hsame => exact hreruns
  | accepted hhigh' => exact hreruns.cons (by simp)
  | backed_out hinvoked hevents hhigh' =>
    obtain rfl | rfl := hevents
    · exact hreruns.cons (by simp)
    · exact (hreruns.cons (by simp)).cons (by simp)

theorem request_keeps_of_entry {sct : Sct} {scte : rpc_dg_sct_elt_t} {done : rpc_dg_sct_elt_t × List Event}
    (hrequest : request_to hdr around scte.reference = some done) (hactid : scte.actid = hdr.actuid)
    (hothers : ∀ spot' scte', spot' ≠ spot → sct.entry spot' = some scte' →
      Accepted t.history scte'.actid scte'.high_seq ∧
        (around.invoked = .no_executors → ¬ (scte'.actid = hdr.actuid ∧ scte'.high_seq = hdr.seq)))
    (hhigh : Accepted t.history hdr.actuid scte.high_seq ∨
      (scte.high_seq = hdr.seq - 1 ∧ .accepted hdr.actuid hdr.seq ∈ done.2))
    (hbackout : around.invoked = .no_executors → ¬ takes_orphan scte hdr ∧
      ((is_old_maybe scte hdr ∧ hdr.seq ≠ scte.high_seq) ∨ Accepted t.history hdr.actuid (hdr.seq - 1)))
    (hreruns : RerunsAccepted t.history) :
    HighAccepted { rpc_g_dg_sct := sct.set spot done.1.unreference, history := done.2 ++ t.history } ∧
      RerunsAccepted (done.2 ++ t.history) := by
  obtain ⟨hsame, hrequested⟩ := request_to_requested hrequest
  refine ⟨?_, hrequested.reruns hhigh hreruns⟩
  intro spot' scte' hentry
  obtain rfl | ⟨hspot, hold⟩ := entry_of_set hentry
  · have hactid' : done.1.unreference.actid = hdr.actuid := hsame.trans hactid
    rw [hactid']
    exact hrequested.high_accepted hhigh hbackout
  · obtain ⟨haccepted, hother⟩ := hothers spot' scte' hspot hold
    exact hrequested.keeps_accepted haccepted hother

theorem request_keeps {boot_time : BitVec 32} {done : Sct × List Event} (hhigh : HighAccepted t)
    (hreruns : RerunsAccepted t.history) (hkeeps : Keeps t (.request hdr around))
    (hrequest : rpc__dg_do_request hdr around boot_time t.rpc_g_dg_sct = some done) :
    HighAccepted { rpc_g_dg_sct := done.1, history := done.2 ++ t.history } ∧ RerunsAccepted (done.2 ++ t.history) := by
  obtain ⟨hfirst, hback⟩ := hkeeps
  simp only [rpc__dg_do_request] at hrequest
  split_ifs at hrequest with hboot hconvc
  · obtain rfl := Option.some.inj hrequest
    exact ⟨hhigh, hreruns⟩
  · obtain rfl := Option.some.inj hrequest
    exact ⟨hhigh, hreruns⟩
  · split at hrequest
    · obtain rfl := Option.some.inj hrequest
      exact ⟨hhigh, hreruns⟩
    · rename_i spot hget
      obtain ⟨scte, hentry, hrequest⟩ := Option.bind_eq_some_iff.mp hrequest
      obtain ⟨hlookup, hsct⟩ | ⟨hlookup, rfl, hsct⟩ := rpc__dg_sct_get_cases hget
      · -- the entry was in the table
        rw [hsct] at hentry hrequest
        split_ifs at hrequest with hrefcnt
        · obtain rfl := Option.some.inj hrequest
          exact ⟨hhigh, hreruns⟩
        · obtain ⟨answer, hanswer, rfl⟩ := Option.map_eq_some_iff.mp hrequest
          obtain ⟨found, hfound, hactid⟩ := rpc__dg_sct_lookup_actid hlookup
          obtain rfl : found = scte := Option.some.inj (hfound.symm.trans hentry)
          have hspot : spot_of t hdr = some spot := hlookup
          refine request_keeps_of_entry hanswer hactid ?_ (Or.inl ?_) ?_ hreruns
          · intro spot' scte' hne hold
            refine ⟨hhigh spot' scte' hold, ?_⟩
            intro hinvoked
            have hi : spot'.2 < (t.rpc_g_dg_sct spot'.1).length := (List.getElem?_eq_some_iff.mp hold).1
            refine (hback hinvoked).2 spot'.1 spot'.2 hi ?_ scte' hold
            rw [hspot]
            exact fun heq => hne (Option.some.inj heq).symm
          · rw [← hactid]
            exact hhigh spot found hentry
          · intro hinvoked
            simpa [BackoutKept, hspot, hentry] using (hback hinvoked).1
      · -- the entry is new
        have hnew : scte = new_scte hdr.actuid (BitVec.ofNat 16 (probe_of hdr.actuid hdr.ahint.toNat).val) hdr.seq := by
          rw [hsct] at hentry
          simpa [Sct.entry] using hentry.symm
        subst hnew
        have hspot : spot_of t hdr = none := hlookup
        rw [if_neg (by simp [new_scte, rpc_dg_sct_elt_t.reference, RPC_DG_SCT_REFCNT_MAX])] at hrequest
        obtain ⟨answer, hanswer, rfl⟩ := Option.map_eq_some_iff.mp hrequest
        refine request_keeps_of_entry hanswer rfl ?_ ?_ ?_ hreruns
        · intro spot' scte' hne hnow
          rw [hsct] at hnow
          obtain ⟨old, hold⟩ := entry_of_update_cons hnow hne
          refine ⟨hhigh old scte' hold, ?_⟩
          intro hinvoked
          have hi : old.2 < (t.rpc_g_dg_sct old.1).length := (List.getElem?_eq_some_iff.mp hold).1
          refine (hback hinvoked).2 old.1 old.2 hi ?_ scte' hold
          simp [hspot]
        · obtain halloc | haccepted := hfirst hspot
          · exact Or.inr ⟨rfl, request_to_new halloc hanswer⟩
          · exact Or.inl haccepted
        · intro hinvoked
          refine ⟨fun horphan => by simp [takes_orphan, new_scte, rpc__dg_sct_inq_scall, scan_maybe_chain] at horphan, ?_⟩
          have hbefore := (hback hinvoked).1
          simp only [BackoutKept, hspot, Option.bind_none] at hbefore
          exact Or.inr hbefore

theorem on_keeps {f : rpc_dg_sct_elt_t → Option rpc_dg_sct_elt_t} (hhigh : HighAccepted t)
    (hf : ∀ scte scte', t.rpc_g_dg_sct.entry spot = some scte → f scte = some scte' →
      scte'.actid = scte.actid ∧ Accepted t.history scte.actid scte'.high_seq)
    (hon : t.on spot f = some t') : HighAccepted t' ∧ t'.history = t.history := by
  obtain ⟨scte', hscte', rfl⟩ := Option.map_eq_some_iff.mp hon
  obtain ⟨scte, hentry, hnext⟩ := Option.bind_eq_some_iff.mp hscte'
  refine ⟨?_, rfl⟩
  intro spot' scte'' hnow
  obtain rfl | ⟨-, hold⟩ := entry_of_set hnow
  · obtain ⟨hactid, haccepted⟩ := hf scte scte'' hentry hnext
    rwa [hactid]
  · exact hhigh spot' scte'' hold

theorem way_start_spec {force_way_auth : Bool}
    (hstart : way_start scte force_way_auth = some scte') :
    scte'.actid = scte.actid ∧ scte'.high_seq = scte.high_seq := by
  simp only [way_start] at hstart
  split_ifs at hstart
  obtain rfl := Option.some.inj hstart
  exact ⟨rfl, rfl⟩

theorem way_end_spec (hend : way_end scte = some scte') :
    scte'.actid = scte.actid ∧ scte'.high_seq = scte.high_seq := by
  simp only [way_end] at hend
  split_ifs at hend
  obtain rfl := Option.some.inj hend
  exact ⟨rfl, rfl⟩

theorem age_keeps (hhigh : HighAccepted t) (hage : t.age spot = some t') :
    HighAccepted t' ∧ t'.history = t.history := by
  obtain ⟨scte, -, rfl⟩ := Option.map_eq_some_iff.mp hage
  refine ⟨?_, rfl⟩
  intro spot' scte' hnow
  obtain ⟨probe', i⟩ := spot'
  by_cases hprobe : probe' = spot.1
  · subst hprobe
    simp only [Sct.entry, Function.update_self] at hnow
    obtain ⟨j, hj⟩ := List.mem_iff_getElem?.mp (List.mem_of_mem_eraseIdx (List.mem_of_getElem? hnow))
    exact hhigh (spot.1, j) scte' hj
  · exact hhigh (probe', i) scte' (by simpa [Sct.entry, hprobe] using hnow)

theorem step_keeps {boot_time : BitVec 32} {s : Step} (hhigh : HighAccepted t)
    (hreruns : RerunsAccepted t.history) (hkeeps : Keeps t s) (hstep : step boot_time t s = some t') :
    HighAccepted t' ∧ RerunsAccepted t'.history := by
  -- the steps on one entry that keep its number
  have hon : ∀ {spot f}, (∀ scte scte', f scte = some scte' → scte'.actid = scte.actid ∧ scte'.high_seq = scte.high_seq) →
      t.on spot f = some t' → HighAccepted t' ∧ RerunsAccepted t'.history := by
    intro spot f hf hon
    have haccepted : ∀ scte scte', t.rpc_g_dg_sct.entry spot = some scte → f scte = some scte' →
        scte'.actid = scte.actid ∧ Accepted t.history scte.actid scte'.high_seq := by
      intro scte scte' hentry hnext
      obtain ⟨hactid, hsame⟩ := hf scte scte' hnext
      exact ⟨hactid, hsame ▸ hhigh spot scte hentry⟩
    obtain ⟨hhigh', hhistory⟩ := on_keeps hhigh haccepted hon
    exact ⟨hhigh', hhistory ▸ hreruns⟩
  cases s with
  | request hdr around =>
    obtain ⟨done, hrequest, rfl⟩ := Option.map_eq_some_iff.mp hstep
    exact request_keeps hhigh hreruns hkeeps hrequest
  | way_started spot force_way_auth => exact hon (fun scte scte' => way_start_spec) hstep
  | way_failed spot => exact hon (fun scte scte' => way_end_spec) hstep
  | way_answered spot seq =>
    have haccepted : ∀ scte scte', t.rpc_g_dg_sct.entry spot = some scte →
        ((way_end scte).map fun scte => rpc__dg_sct_way_validate scte seq) = some scte' →
        scte'.actid = scte.actid ∧ Accepted t.history scte.actid scte'.high_seq := by
      intro scte scte' hentry hnext
      obtain ⟨ended, hended, rfl⟩ := Option.map_eq_some_iff.mp hnext
      obtain ⟨hactid, hsame⟩ := way_end_spec hended
      refine ⟨hactid, ?_⟩
      simp only [rpc__dg_sct_way_validate, hsame]
      split_ifs with hback
      · exact hhigh spot scte hentry
      · exact (hkeeps scte hentry).resolve_left hback
    obtain ⟨hhigh', hhistory⟩ := on_keeps hhigh haccepted hstep
    exact ⟨hhigh', hhistory ▸ hreruns⟩
  | moved spot place state =>
    refine hon (fun scte scte' hnext => ?_) hstep
    obtain ⟨scall, -, rfl⟩ := Option.map_eq_some_iff.mp hnext
    exact ⟨store_actid _ _, store_high_seq _ _⟩
  | orphaned spot place =>
    refine hon (fun scte scte' hnext => ?_) hstep
    obtain ⟨scall, -, rfl⟩ := Option.map_eq_some_iff.mp hnext
    exact ⟨rpc__dg_scall_orphan_call_actid scte place scall, rpc__dg_scall_orphan_call_high_seq scte place scall⟩
  | uncached spot place =>
    refine hon (fun scte scte' hnext => ?_) hstep
    obtain ⟨scall, -, rfl⟩ := Option.map_eq_some_iff.mp hnext
    exact ⟨release_actid place, release_high_seq place⟩
  | aged spot =>
    obtain ⟨hhigh', hhistory⟩ := age_keeps hhigh hstep
    exact ⟨hhigh', hhistory ▸ hreruns⟩

/-- In a run whose steps leave no number of a call that was not accepted in an entry, only calls that were accepted before are
rejected as reruns. -/
theorem reruns_accepted {boot_time : BitVec 32} {t : Server}
    (hreach : ((sctSystem boot_time).restrict Keeps).Reachable t) : RerunsAccepted t.history := by
  have hinv : HighAccepted t ∧ RerunsAccepted t.history := by
    refine hreach.invariant (P := fun t => HighAccepted t ∧ RerunsAccepted t.history) ?_ ?_
    · rintro t rfl
      exact ⟨fun spot scte hentry => by simp [Sct.entry] at hentry, rerunsAccepted_nil⟩
    · intro t s t' hinv hstep
      obtain ⟨hkeeps, hnext⟩ := System.restrict_step hstep
      exact step_keeps hinv.1 hinv.2 hkeeps hnext
  exact hinv.2

/-- The only packet of a non-idempotent call with the given number. -/
def only_packet (seq : BitVec 32) : rpc_dg_pkt_hdr_t where
  actuid := ⟨1, 2, 3, 4⟩
  ahint := 0xffff
  seq
  fragnum := 0
  server_boot := 0
  if_is_convc := false
  idempotent := false
  maybe := false
  forwarded := false
  forwarded_2 := false

def with_room : Around where
  scte_alloc := true
  scall_alloc := true
  invoked := .ok

def only_probe : Probe := hash_probe (only_packet 0).actuid

/-- A call is accepted and found valid, and its request is rejected when it comes again after the answer was acknowledged. -/
theorem reruns_accepted_duplicate :
    ∃ t : Server, RerunsAccepted t.history ∧
      t.history = [.rejected (only_packet 5).actuid 5, .accepted (only_packet 5).actuid 5] := by
  obtain ⟨t, hreach, hhistory⟩ := ((sctSystem 7).restrict Keeps).exists_reachable_of_exec
    (s := { rpc_g_dg_sct := fun _ => [], history := [] })
    [.request (only_packet 5) with_room, .way_started (only_probe, 0) false, .way_answered (only_probe, 0) 5,
      .moved (only_probe, 0) .cached .final, .moved (only_probe, 0) .cached .idle, .request (only_packet 5) with_room]
    (P := fun t => t.history = [.rejected (only_packet 5).actuid 5, .accepted (only_packet 5).actuid 5]) rfl
    (by decide +kernel)
  exact ⟨t, reruns_accepted hreach, of_decide_eq_true hhistory⟩

/-- A late packet of call 5 arrives first, the client tells that it is at call 6, and the packet of that call is rejected. -/
theorem rerun_of_late_call :
    ∃ t : Server, (sctSystem 7).Reachable t ∧ ¬ RerunsAccepted t.history := by
  obtain ⟨t, hreach, hhistory⟩ := (sctSystem 7).exists_reachable_of_exec
    (s := { rpc_g_dg_sct := fun _ => [], history := [] })
    [.request (only_packet 5) with_room, .way_started (only_probe, 0) false, .way_answered (only_probe, 0) 6,
      .moved (only_probe, 0) .cached .idle, .request (only_packet 6) with_room]
    (P := fun t => t.history = [.rejected (only_packet 6).actuid 6, .accepted (only_packet 5).actuid 5]) rfl
    (by decide +kernel)
  refine ⟨t, hreach, ?_⟩
  intro hreruns
  have haccepted := hreruns [] (only_packet 6).actuid 6 [.accepted (only_packet 5).actuid 5] (of_decide_eq_true hhistory)
  exact absurd haccepted (by decide)

end Runs

end dce.rpc.sct
