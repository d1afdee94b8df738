import Dce.Sec.AclEval

open lib dce.rpc

set_option linter.style.nameCheck false

namespace dce.sec

/-- What the credential calls say of a client's credentials. `sec_cred_get_initiator` and
`sec_cred_get_pa_data` for the initiator are one step; a delegate is an answer of
`sec_cred_get_delegate` and, if that has one, of `sec_cred_get_pa_data`. -/
structure Creds where
  initiator : Except error_status_t (sec_id_pa_t uuid_t)
  authenticated : Bool
  /-- The status of `sec_cred_initialize_cursor`. -/
  cursor : error_status_t
  delegates : List (Except error_status_t (Except error_status_t (sec_id_pa_t uuid_t)))

/-- `rpc_authz_cred_handle_t`. -/
inductive CredHandle where
  /-- `s_unauthen_cred_h`: the runtime has no credentials at all. -/
  | unauthen
  | creds (creds : Creds)

/-- The pointer `error_status_t *st`. The functions write through it before anything else. -/
structure StatusPtr where
  address : ℕ
  nonnull : address ≠ 0

/-- `error_status_ok` as a constant. -/
def error_status_ok : ℕ := 0

/-- What the function leaves in `*perms` and `*st`. -/
structure Outcome where
  perms : sec_acl_permset_t
  st : error_status_t
  deriving DecidableEq

def dce_acl__inq_unauthen_perms (ap : sec_acl_t) : sec_acl_permset_t :=
  let any_other_ep := ap.sec_acl_entries.reverse.find? (·.entry_info = .any_other)
  let unauth_ep := ap.sec_acl_entries.reverse.find? (·.entry_info = .unauthenticated)
  let mask_perms := ((ap.sec_acl_entries.reverse.find? (·.entry_info = .mask_obj)).map (·.perms)).getD MAX_PERMISSIONS
  match any_other_ep, unauth_ep with
  | some any_other_ep, some unauth_ep => MASKIT any_other_ep mask_perms &&& unauth_ep.perms
  | _, _ => dce_acl_c_no_permissions

/-- What one run of the access algorithm leaves. -/
structure Evaluation where
  perms : sec_acl_permset_t
  unauth_mask : sec_acl_permset_t
  st : error_status_t

variable (ap : sec_acl_t) (own_id grp_id : Option uuid_t)

/-- A run of the algorithm for one identity. It sets the status before it reads it. -/
def evaluate (do_deleg : Bool) (pa_p : sec_id_pa_t uuid_t) (unauth_mask : sec_acl_permset_t) : Evaluation :=
  let ((perms, unauth_mask), st) :=
    (dce_acl__permset_alg do_deleg pa_p ap own_id grp_id unauth_mask).run .error_status_ok
  ⟨perms, unauth_mask, st⟩

/-- The loop over the delegates, and the masking behind it. -/
def delegateLoop (auth : Bool) (perms unauth_mask : sec_acl_permset_t) (st : error_status_t) :
    List (Except error_status_t (Except error_status_t (sec_id_pa_t uuid_t))) → Outcome
  | [] =>
    if perms = dce_acl_c_no_permissions then ⟨perms, st⟩
    else ⟨if !auth then perms &&& unauth_mask else perms, .error_status_ok⟩
  | delegate :: rest =>
    if perms = dce_acl_c_no_permissions then ⟨perms, st⟩
    else
      match delegate with
      | .error st => ⟨perms, st⟩
      | .ok (.error st) => ⟨dce_acl_c_no_permissions, st⟩
      | .ok (.ok pa_p) =>
        let e := evaluate ap own_id grp_id true pa_p unauth_mask
        if e.st ≠ .error_status_ok then ⟨dce_acl_c_no_permissions, e.st⟩
        else delegateLoop auth e.perms e.unauth_mask e.st rest

def dce_acl_inq_permset_for_creds (st : StatusPtr) (cred_h : CredHandle) : Outcome :=
  match cred_h with
  | .unauthen => ⟨dce_acl__inq_unauthen_perms ap, .error_status_ok⟩
  | .creds creds =>
    match creds.initiator with
    | .error code => ⟨dce_acl_c_no_permissions, code⟩
    | .ok pa_p =>
      let e := evaluate ap own_id grp_id false pa_p dce_acl_c_no_permissions
      -- the pointer is compared, not the status it points to
      if st.address ≠ error_status_ok then ⟨e.perms, e.st⟩
      else if creds.cursor ≠ .error_status_ok then ⟨e.perms, creds.cursor⟩
      else delegateLoop ap own_id grp_id creds.authenticated e.perms e.unauth_mask e.st creds.delegates

def unauthenticatedPerms : sec_acl_permset_t :=
  ((ap.sec_acl_entries.reverse.find? (·.entry_info = .unauthenticated)).map (·.perms)).getD dce_acl_c_no_permissions

/-- What the delegate algorithm grants a delegate, unless a step of its evaluation reports an error. -/
def delegatePerms : Except error_status_t (Except error_status_t (sec_id_pa_t uuid_t)) → Option sec_acl_permset_t
  | .ok (.ok pa_p) =>
    let e := evaluate ap own_id grp_id true pa_p dce_acl_c_no_permissions
    if e.st = .error_status_ok then some e.perms else none
  | _ => none

/-- The access of a chain by the extended algorithm: what the initiator and every delegate are granted, behind the
unauthenticated entry if the credentials are not authenticated, and nothing if a step reports an error. -/
def chainAccess (creds : Creds) : sec_acl_permset_t :=
  match creds.initiator with
  | .error _ => dce_acl_c_no_permissions
  | .ok pa_p =>
    let e := evaluate ap own_id grp_id false pa_p dce_acl_c_no_permissions
    if e.st = .error_status_ok ∧ creds.cursor = .error_status_ok ∧
        ∀ delegate ∈ creds.delegates, (delegatePerms ap own_id grp_id delegate).isSome then
      e.perms &&& (meet (creds.delegates.filterMap (delegatePerms ap own_id grp_id)) &&&
        if creds.authenticated then MAX_PERMISSIONS else unauthenticatedPerms ap)
    else dce_acl_c_no_permissions

/-- Neither a delegate nor missing authentication takes a permission of the initiator away, and no step reports an error,
unless the initiator has no permission to lose. -/
def NothingTakenAway (creds : Creds) : Prop :=
  match creds.initiator with
  | .error _ => True
  | .ok pa_p =>
    let e := evaluate ap own_id grp_id false pa_p dce_acl_c_no_permissions
    e.perms = dce_acl_c_no_permissions ∨
      e.st = .error_status_ok ∧ creds.cursor = .error_status_ok ∧
        (∀ delegate ∈ creds.delegates, ∃ perms, delegatePerms ap own_id grp_id delegate = some perms ∧ Within e.perms perms) ∧
        (creds.authenticated = false → Within e.perms (unauthenticatedPerms ap))

theorem permset_for_initiator (st : StatusPtr) (creds : Creds) {pa_p : sec_id_pa_t uuid_t} (hinitiator : creds.initiator = .ok pa_p) :
    (dce_acl_inq_permset_for_creds ap own_id grp_id st (.creds creds)).perms =
      (evaluate ap own_id grp_id false pa_p dce_acl_c_no_permissions).perms := by
  have haddress : st.address ≠ error_status_ok := st.nonnull
  simp only [dce_acl_inq_permset_for_creds, hinitiator, if_pos haddress]

theorem within_delegates_iff {perms : sec_acl_permset_t}
    {delegates : List (Except error_status_t (Except error_status_t (sec_id_pa_t uuid_t)))} :
    ((∀ delegate ∈ delegates, (delegatePerms ap own_id grp_id delegate).isSome) ∧
      Within perms (meet (delegates.filterMap (delegatePerms ap own_id grp_id)))) ↔
    ∀ delegate ∈ delegates, ∃ p, delegatePerms ap own_id grp_id delegate = some p ∧ Within perms p := by
  rw [within_meet_iff]
  constructor
  · intro ⟨hsome, hwithin⟩ delegate hmem
    obtain ⟨p, hp⟩ := Option.isSome_iff_exists.mp (hsome delegate hmem)
    exact ⟨p, hp, hwithin p (List.mem_filterMap.mpr ⟨delegate, hmem, hp⟩)⟩
  · intro h
    refine ⟨fun delegate hmem => ?_, fun p hmem => ?_⟩
    · obtain ⟨p, hp, _⟩ := h delegate hmem
      exact Option.isSome_iff_exists.mpr ⟨p, hp⟩
    · obtain ⟨delegate, hdelegate, hp⟩ := List.mem_filterMap.mp hmem
      obtain ⟨p', hp', hwithin⟩ := h delegate hdelegate
      rwa [Option.some.inj (hp.symm.trans hp')]

/-- The permissions are those of the chain exactly as long as nothing takes away from the initiator's. -/
theorem permset_for_creds_iff (st : StatusPtr) (creds : Creds) :
    (dce_acl_inq_permset_for_creds ap own_id grp_id st (.creds creds)).perms = chainAccess ap own_id grp_id creds ↔
      NothingTakenAway ap own_id grp_id creds := by
  rw [chainAccess, NothingTakenAway]
  cases hinitiator : creds.initiator with
  | error code => simp only [dce_acl_inq_permset_for_creds, hinitiator]
  | ok pa_p =>
    rw [permset_for_initiator ap own_id grp_id st creds hinitiator]
    dsimp only
    generalize evaluate ap own_id grp_id false pa_p dce_acl_c_no_permissions = e
    have hall : MAX_PERMISSIONS = BitVec.allOnes 32 := by decide
    have hmask : Within e.perms (if creds.authenticated then MAX_PERMISSIONS else unauthenticatedPerms ap) ↔
        (creds.authenticated = false → Within e.perms (unauthenticatedPerms ap)) := by
      cases creds.authenticated with
      | true =>
        rw [if_pos rfl, hall]
        exact iff_of_true within_allOnes nofun
      | false => simp
    split
    · next hsteps =>
      obtain ⟨hst, hcursor, hsome⟩ := hsteps
      rw [eq_comm]
      refine within_and_iff.trans ?_
      rw [hmask, ← within_delegates_iff]
      constructor
      · intro ⟨hwithin, hauth⟩
        exact .inr ⟨hst, hcursor, ⟨hsome, hwithin⟩, hauth⟩
      · intro h
        obtain hnone | ⟨_, _, ⟨_, hwithin⟩, hauth⟩ := h
        · rw [hnone]
          exact ⟨zero_within, fun _ => zero_within⟩
        · exact ⟨hwithin, hauth⟩
    · next hsteps =>
      refine ⟨.inl, fun h => ?_⟩
      obtain hnone | ⟨hst, hcursor, hdelegates, _⟩ := h
      · exact hnone
      · exact absurd ⟨hst, hcursor, (within_delegates_iff ap own_id grp_id |>.mpr hdelegates).1⟩ hsteps

/-- An identifier that tells identities apart by its last byte. -/
def exampleId (n : Byte) : sec_id_t uuid_t := ⟨⟨0, 0, 0, 0x80, 0, ⟨[8, 0, 9, 0, 0, n], rfl⟩⟩⟩

/-- An initiator with three permissions and a delegate with none: the three are granted. -/
theorem delegate_ignored : ∃ (ap : sec_acl_t) (st : StatusPtr) (creds : Creds),
    chainAccess ap none none creds = dce_acl_c_no_permissions ∧
      (dce_acl_inq_permset_for_creds ap none none st (.creds creds)).perms = 7 :=
  ⟨⟨exampleId 1, [⟨7, .user (exampleId 2)⟩]⟩, ⟨1, by decide⟩,
    ⟨.ok ⟨exampleId 1, exampleId 2, exampleId 3, [], []⟩, true, .error_status_ok,
      [.ok (.ok ⟨exampleId 1, exampleId 4, exampleId 3, [], []⟩)]⟩,
    by decide +kernel, by decide +kernel⟩

end dce.sec
