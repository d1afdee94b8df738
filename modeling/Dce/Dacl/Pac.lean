import Dce.Dacl.Access

open lib dce.sec

namespace dce.dacl

/-- `pac_list_t`, one link. An anonymous caller and its anonymous delegates share one PAC, so the addresses count. -/
structure pac_list_t where
  pacp : ℕ
  authenticated : Bool
  deriving DecidableEq

/-- The identities that the kernel is configured with. -/
structure Identities where
  dacl_localCellID : epi_uuid_t
  dacl_sysAdminGroupID : epi_uuid_t
  dacl_networkRootID : epi_uuid_t

/-- What `dacl_epi_CheckAccessAllowedPac` is called with, apart from the PACs. -/
structure Request where
  source : epi_source_id_t
  identities : Identities
  acl : dacl_t
  permBitsP : Option (BitVec 32)
  accessRequested : dacl_permset_t
  userObj : epi_principal_id_t
  groupObjP : Option epi_principal_id_t
  networkRootCheck : Bool

def networkRootRights : dacl_permset_t :=
  dacl_perm_control ||| dacl_perm_read ||| dacl_perm_execute ||| dacl_perm_write ||| dacl_perm_insert ||| dacl_perm_delete

/-- `networkRootFound` and `superGroupFound`. -/
structure Found where
  networkRootFound : Bool
  superGroupFound : Bool

def Found.rights (found : Found) : dacl_permset_t :=
  (if found.networkRootFound then networkRootRights else 0) ||| if found.superGroupFound then dacl_perm_control else 0

variable (request : Request)

def ofLocalCell (pac : sec_id_pa_t epi_uuid_t) : Bool :=
  bcmp request.identities.dacl_localCellID pac.realm.uuid sizeof_uuid = 0

def isSysAdminGroup (group : sec_id_t epi_uuid_t) : Bool :=
  Epi_PrinId_Cmp request.source request.identities.dacl_sysAdminGroupID group.uuid = 0

/-- The PAC's principal is the network root, and that is asked for. -/
def isNetworkRoot (pac : sec_id_pa_t epi_uuid_t) : Bool :=
  request.networkRootCheck ∧ Epi_PrinId_Cmp request.source request.identities.dacl_networkRootID pac.principal.uuid = 0

/-- The first part of the check: the groups of the PAC itself. -/
def checkLocalGroups (pac : sec_id_pa_t epi_uuid_t) (found : Found) : Found :=
  if ofLocalCell request pac then
    let found := if isNetworkRoot request pac then { found with networkRootFound := true } else found
    if !found.networkRootFound then
      { found with
        superGroupFound := found.superGroupFound || isSysAdminGroup request pac.group || pac.groups.any (isSysAdminGroup request) }
    else found
  else found

def checkForeignGroups (pac : sec_id_pa_t epi_uuid_t) (found : Found) : Found :=
  if !found.networkRootFound && !found.superGroupFound then
    { found with
      superGroupFound := pac.foreign_groupsets.any fun groupset =>
        -- the comparison with zero stands within the call: the number of bytes compared is that of `sizeof(uuid_t) == 0`
        bcmp request.identities.dacl_localCellID groupset.realm.uuid (if sizeof_uuid = 0 then 1 else 0) ≠ 0 &&
          groupset.groups.any (isSysAdminGroup request) }
  else found

variable (pacs : ℕ → sec_id_pa_t epi_uuid_t)

/-- What `dacl_epi_DetermineAccessAllowed` grants the PAC of a link. -/
def granted (do_dlg : Bool) (link : pac_list_t) : dacl_permset_t :=
  (dacl_epi_DetermineAccessAllowed request.source request.acl request.permBitsP request.accessRequested (pacs link.pacp)
    (some request.userObj) request.groupObjP link.authenticated do_dlg).accessAllowed

/-- The variables of the loop over the chain. -/
structure Chain where
  found : Found
  do_dlg : Bool
  accessAcrossPacList : dacl_permset_t

def checkLink (initiator : pac_list_t) (link : pac_list_t) (chain : Chain) : Chain :=
  let pac := pacs link.pacp
  let found := checkForeignGroups request pac (checkLocalGroups request pac chain.found)
  let localAccessAllowed := granted request pacs chain.do_dlg link ||| found.rights
  if link.pacp = initiator.pacp then ⟨found, true, localAccessAllowed⟩
  else ⟨found, chain.do_dlg, chain.accessAcrossPacList &&& localAccessAllowed⟩

def checkChain (initiator : pac_list_t) : List pac_list_t → Chain → Chain
  | [], chain => chain
  | link :: links, chain => checkChain initiator links (checkLink request pacs initiator link chain)

def isOwner (pac : sec_id_pa_t epi_uuid_t) : Bool :=
  Epi_PrinId_Cmp request.source pac.principal.uuid request.userObj = 0 ∧
    bcmp pac.realm.uuid request.acl.default_realm sizeof_uuid = 0

/-- The end of the function: the requested rights are compared with those computed. -/
def answer (accessRequested localAccessAllowed : dacl_permset_t) : Access :=
  if accessRequested &&& localAccessAllowed = accessRequested then ⟨.DACL_SUCCESS, localAccessAllowed⟩
  else ⟨.DACL_ERROR_ACCESS_DENIED, localAccessAllowed⟩

@[simp] theorem answer_accessAllowed (accessRequested localAccessAllowed : dacl_permset_t) :
    (answer accessRequested localAccessAllowed).accessAllowed = localAccessAllowed := by
  rw [answer]
  split <;> rfl

theorem answer_success_iff (accessRequested localAccessAllowed : dacl_permset_t) :
    (answer accessRequested localAccessAllowed).rtnVal = .DACL_SUCCESS ↔ Within accessRequested localAccessAllowed := by
  rw [answer]
  split
  · exact iff_of_true rfl ‹_›
  · exact iff_of_false dacl_status.noConfusion ‹_›

/-- `dacl_epi_CheckAccessAllowedPac`, in the kernel. -/
def dacl_epi_CheckAccessAllowedPac (initiator : pac_list_t) (delegates : List pac_list_t) : Access :=
  let chain := checkChain request pacs initiator (initiator :: delegates) ⟨⟨false, false⟩, false, 0⟩
  let lastDlg := (initiator :: delegates).getLast (List.cons_ne_nil _ _)
  let localAccessAllowed :=
    if isOwner request (pacs lastDlg.pacp) then chain.accessAcrossPacList ||| dacl_perm_control else chain.accessAcrossPacList
  answer request.accessRequested localAccessAllowed

/-- The rights that a PAC of the local cell has as the network root or as a system administrator. -/
def localRights (pac : sec_id_pa_t epi_uuid_t) : dacl_permset_t :=
  if ofLocalCell request pac then
    (if isNetworkRoot request pac then networkRootRights else 0) |||
      if isSysAdminGroup request pac.group || pac.groups.any (isSysAdminGroup request) then dacl_perm_control else 0
  else 0

/-- The right that a PAC has as a system administrator through a foreign group set of the local cell. -/
def foreignRights (pac : sec_id_pa_t epi_uuid_t) : dacl_permset_t :=
  if pac.foreign_groupsets.any fun groupset =>
      bcmp request.identities.dacl_localCellID groupset.realm.uuid sizeof_uuid = 0 &&
        groupset.groups.any (isSysAdminGroup request) then dacl_perm_control
  else 0

def ownRights (pac : sec_id_pa_t epi_uuid_t) : dacl_permset_t := localRights request pac ||| foreignRights request pac

/-- A link with what it is granted. -/
structure Grant where
  link : pac_list_t
  access : dacl_permset_t

/-- What the links of a chain are granted, the first one as the initiator, the others as delegates. -/
def grants (initiator : pac_list_t) (delegates : List pac_list_t) : List Grant :=
  ⟨initiator, granted request pacs false initiator⟩ :: delegates.map fun link => ⟨link, granted request pacs true link⟩

def ownerRights (initiator : pac_list_t) (delegates : List pac_list_t) : dacl_permset_t :=
  if isOwner request (pacs ((initiator :: delegates).getLast (List.cons_ne_nil _ _)).pacp) then dacl_perm_control else 0

/-- The access of a chain: what every PAC is granted or has by its own membership, and the owner's right. -/
def chainAccess (initiator : pac_list_t) (delegates : List pac_list_t) : dacl_permset_t :=
  meet ((grants request pacs initiator delegates).map fun grant => grant.access ||| ownRights request (pacs grant.link.pacp)) |||
    ownerRights request pacs initiator delegates

/-- The PAC of a grant has the right neither from the ACL nor by its own membership. -/
def Lacks (right : ℕ) (grant : Grant) : Prop :=
  grant.access.getLsbD right = false ∧ (ownRights request (pacs grant.link.pacp)).getLsbD right = false

/-- Some PAC is not granted the right, neither it nor a PAC before it has it as a member in the local cell, and no later link
shares the PAC of the initiator. -/
def Withheld (initiator : pac_list_t) (right : ℕ) (grants : List Grant) : Prop :=
  ∃ before grant after, grants = before ++ grant :: after ∧ grant.access.getLsbD right = false ∧
    (∀ earlier ∈ before ++ [grant], (localRights request (pacs earlier.link.pacp)).getLsbD right = false) ∧
    ∀ later ∈ after, later.link.pacp ≠ initiator.pacp

/-- The place of `dacl_perm_control`. -/
def controlRight : ℕ := 3

/-- The memberships of one PAC do not pass to another: a right that a PAC lacks is withheld, neither carried over from an
earlier member nor forgotten where the initiator's PAC comes again; and control is not withheld from members through a foreign
group set alone. Rights that the owner's covers do not count. -/
structure KeptApart (initiator : pac_list_t) (delegates : List pac_list_t) : Prop where
  withheld : ∀ right < 32, (ownerRights request pacs initiator delegates).getLsbD right = false →
    (∃ grant ∈ grants request pacs initiator delegates, Lacks request pacs right grant) →
    Withheld request pacs initiator right (grants request pacs initiator delegates)
  foreign : (ownerRights request pacs initiator delegates).getLsbD controlRight = false →
    Withheld request pacs initiator controlRight (grants request pacs initiator delegates) →
    ∃ grant ∈ grants request pacs initiator delegates, Lacks request pacs controlRight grant

theorem rights_checkLocalGroups (pac : sec_id_pa_t epi_uuid_t) (found : Found) :
    (checkLocalGroups request pac found).rights = found.rights ||| localRights request pac := by
  obtain ⟨root, super⟩ := found
  cases hcell : ofLocalCell request pac with
  | false => simp [checkLocalGroups, localRights, hcell]
  | true =>
    cases hroot : isNetworkRoot request pac <;> cases hgroup : isSysAdminGroup request pac.group <;>
      cases hgroups : pac.groups.any (isSysAdminGroup request) <;> cases root <;> cases super <;>
        simp [checkLocalGroups, localRights, Found.rights, hcell, hroot, hgroup, hgroups] <;> decide

theorem rights_checkForeignGroups (pac : sec_id_pa_t epi_uuid_t) (found : Found) :
    (checkForeignGroups request pac found).rights = found.rights := by
  have hnever : (pac.foreign_groupsets.any fun _ => false) = false := List.any_eq_false.mpr fun _ _ => Bool.false_ne_true
  obtain ⟨root, super⟩ := found
  cases root <;> cases super <;> simp [checkForeignGroups, bcmp, sizeof_uuid, hnever]

theorem withheld_cons {initiator : pac_list_t} {right : ℕ} {grant : Grant} {grants : List Grant} :
    Withheld request pacs initiator right (grant :: grants) ↔
      (localRights request (pacs grant.link.pacp)).getLsbD right = false ∧
        (Withheld request pacs initiator right grants ∨
          grant.access.getLsbD right = false ∧ ∀ later ∈ grants, later.link.pacp ≠ initiator.pacp) := by
  constructor
  · rintro ⟨before, withholding, after, heq, haccess, hearlier, hlater⟩
    cases before with
    | nil =>
      obtain ⟨rfl, rfl⟩ := List.cons.inj heq
      exact ⟨hearlier _ (by simp), .inr ⟨haccess, hlater⟩⟩
    | cons first before =>
      obtain ⟨rfl, rfl⟩ := List.cons.inj heq
      exact ⟨hearlier _ (by simp), .inl ⟨before, withholding, after, rfl, haccess,
        fun earlier hmem => hearlier earlier (List.mem_cons_of_mem _ hmem), hlater⟩⟩
  · rintro ⟨hmember, ⟨before, withholding, after, rfl, haccess, hearlier, hlater⟩ | ⟨haccess, hlater⟩⟩
    · refine ⟨grant :: before, withholding, after, rfl, haccess, fun earlier hmem => ?_, hlater⟩
      obtain rfl | hmem := List.mem_cons.mp hmem
      · exact hmember
      · exact hearlier earlier hmem
    · refine ⟨[], grant, grants, rfl, haccess, fun earlier hmem => ?_, hlater⟩
      rw [List.mem_singleton.mp hmem]
      exact hmember

variable {request pacs} {initiator : pac_list_t} {right : ℕ}

variable (request pacs initiator) in
theorem checkLink_found (link : pac_list_t) (chain : Chain) :
    (checkLink request pacs initiator link chain).found.rights = chain.found.rights ||| localRights request (pacs link.pacp) := by
  have hrights := (rights_checkForeignGroups request (pacs link.pacp) _).trans (rights_checkLocalGroups request (pacs link.pacp) chain.found)
  by_cases hshared : link.pacp = initiator.pacp
  · rw [checkLink, if_pos hshared]
    exact hrights
  · rw [checkLink, if_neg hshared]
    exact hrights

theorem checkChain_delegates (links : List pac_list_t) (found : Found) (access : dacl_permset_t) :
    (checkChain request pacs initiator links ⟨found, true, access⟩).accessAcrossPacList.getLsbD right = false ↔
      (found.rights.getLsbD right = false ∧
        Withheld request pacs initiator right (links.map fun link => ⟨link, granted request pacs true link⟩)) ∨
      access.getLsbD right = false ∧ ∀ link ∈ links, link.pacp ≠ initiator.pacp := by
  induction links generalizing found access with
  | nil => simp [checkChain, Withheld]
  | cons link links ih =>
    have hfound := checkLink_found request pacs initiator link ⟨found, true, access⟩
    have hlater : (∀ later ∈ links.map fun link => (⟨link, granted request pacs true link⟩ : Grant), later.link.pacp ≠ initiator.pacp) ↔
        ∀ link ∈ links, link.pacp ≠ initiator.pacp := List.forall_mem_map
    rw [checkChain, List.map_cons, withheld_cons, hlater]
    by_cases hshared : link.pacp = initiator.pacp
    · rw [checkLink, if_pos hshared] at hfound ⊢
      generalize checkForeignGroups request _ _ = found' at hfound ⊢
      rw [ih, hfound]
      simp only [BitVec.getLsbD_or, Bool.or_eq_false_iff, List.forall_mem_cons, hshared]
      tauto
    · rw [checkLink, if_neg hshared] at hfound ⊢
      generalize checkForeignGroups request _ _ = found' at hfound ⊢
      rw [ih, hfound]
      simp only [BitVec.getLsbD_or, BitVec.getLsbD_and, Bool.or_eq_false_iff, Bool.and_eq_false_iff, List.forall_mem_cons]
      tauto

theorem checkChain_iff (delegates : List pac_list_t) :
    (checkChain request pacs initiator (initiator :: delegates) ⟨⟨false, false⟩, false, 0⟩).accessAcrossPacList.getLsbD right = false ↔
      Withheld request pacs initiator right (grants request pacs initiator delegates) := by
  have hfound := checkLink_found request pacs initiator initiator ⟨⟨false, false⟩, false, 0⟩
  have hlater : (∀ later ∈ delegates.map fun link => (⟨link, granted request pacs true link⟩ : Grant), later.link.pacp ≠ initiator.pacp) ↔
      ∀ link ∈ delegates, link.pacp ≠ initiator.pacp := List.forall_mem_map
  have hnone : (⟨false, false⟩ : Found).rights.getLsbD right = false := BitVec.getLsbD_zero
  rw [checkChain, grants, withheld_cons, hlater]
  rw [checkLink, if_pos rfl] at hfound ⊢
  generalize checkForeignGroups request _ _ = found at hfound ⊢
  rw [checkChain_delegates, hfound]
  simp only [BitVec.getLsbD_or, Bool.or_eq_false_iff, hnone]
  tauto

variable (request pacs initiator right) in
theorem accessAllowed_iff (delegates : List pac_list_t) :
    (dacl_epi_CheckAccessAllowedPac request pacs initiator delegates).accessAllowed.getLsbD right = false ↔
      Withheld request pacs initiator right (grants request pacs initiator delegates) ∧
        (ownerRights request pacs initiator delegates).getLsbD right = false := by
  rw [← checkChain_iff, dacl_epi_CheckAccessAllowedPac, ownerRights, answer_accessAllowed]
  split
  · rw [BitVec.getLsbD_or, Bool.or_eq_false_iff]
  · exact (and_iff_left BitVec.getLsbD_zero).symm

theorem chainAccess_iff (delegates : List pac_list_t) (hright : right < 32) :
    (chainAccess request pacs initiator delegates).getLsbD right = false ↔
      (∃ grant ∈ grants request pacs initiator delegates, Lacks request pacs right grant) ∧
        (ownerRights request pacs initiator delegates).getLsbD right = false := by
  rw [chainAccess, BitVec.getLsbD_or, Bool.or_eq_false_iff, ← Bool.not_eq_true, getLsbD_meet hright]
  simp [Lacks, BitVec.getLsbD_or]

theorem lacks_of_ne_control {grant : Grant} (hne : right ≠ controlRight) (haccess : grant.access.getLsbD right = false)
    (hlocal : (localRights request (pacs grant.link.pacp)).getLsbD right = false) : Lacks request pacs right grant := by
  have hcontrol : dacl_perm_control = BitVec.twoPow 32 controlRight := rfl
  have hforeign : (foreignRights request (pacs grant.link.pacp)).getLsbD right = false := by
    rw [foreignRights]
    split
    · rw [hcontrol, BitVec.getLsbD_twoPow]
      simp [Ne.symm hne]
    · exact BitVec.getLsbD_zero
  exact ⟨haccess, by rw [ownRights, BitVec.getLsbD_or, hlocal, hforeign]; rfl⟩

theorem success_iff (delegates : List pac_list_t) :
    (dacl_epi_CheckAccessAllowedPac request pacs initiator delegates).rtnVal = .DACL_SUCCESS ↔
      Within request.accessRequested (dacl_epi_CheckAccessAllowedPac request pacs initiator delegates).accessAllowed := by
  rw [dacl_epi_CheckAccessAllowedPac, answer_accessAllowed, answer_success_iff]

variable (request pacs initiator) (delegates : List pac_list_t)

/-- The access of a chain is the intersection over its PACs exactly when their memberships are kept apart; what is returned
always agrees with the access computed. -/
theorem check_access_allowed_pac_iff :
    ((dacl_epi_CheckAccessAllowedPac request pacs initiator delegates).accessAllowed = chainAccess request pacs initiator delegates ∧
      ((dacl_epi_CheckAccessAllowedPac request pacs initiator delegates).rtnVal = .DACL_SUCCESS ↔
        Within request.accessRequested (dacl_epi_CheckAccessAllowedPac request pacs initiator delegates).accessAllowed)) ↔
      KeptApart request pacs initiator delegates := by
  rw [and_iff_left (success_iff delegates)]
  constructor
  · intro heq
    have hbits (right : ℕ) (hright : right < 32) (howner : (ownerRights request pacs initiator delegates).getLsbD right = false) :
        Withheld request pacs initiator right (grants request pacs initiator delegates) ↔
          ∃ grant ∈ grants request pacs initiator delegates, Lacks request pacs right grant := by
      have hiff := accessAllowed_iff request pacs initiator right delegates
      rw [heq, chainAccess_iff delegates hright] at hiff
      simpa [howner] using hiff.symm
    exact ⟨fun right hright howner => (hbits right hright howner).mpr, (hbits controlRight (by decide) · |>.mp)⟩
  · intro hapart
    refine eq_of_bits fun right hright => ?_
    rw [Bool.eq_iff_iff, ← not_iff_not, Bool.not_eq_true, Bool.not_eq_true, accessAllowed_iff, chainAccess_iff delegates hright]
    refine and_congr_left fun howner => ⟨fun hwithheld => ?_, hapart.withheld right hright howner⟩
    by_cases hcontrol : right = controlRight
    · subst hcontrol
      exact hapart.foreign howner hwithheld
    · obtain ⟨before, grant, after, heq, haccess, hearlier, _⟩ := hwithheld
      exact ⟨grant, by rw [heq]; simp, lacks_of_ne_control hcontrol haccess (hearlier grant (by simp))⟩

def repeatedUuid (b : Byte) : epi_uuid_t := ⟨List.replicate 16 b, rfl⟩

def cellMember (principal group : Byte) : sec_id_pa_t epi_uuid_t :=
  ⟨⟨repeatedUuid 1⟩, ⟨repeatedUuid principal⟩, ⟨repeatedUuid group⟩, [], []⟩

def controlRequest : Request where
  source := .uuid
  identities := ⟨repeatedUuid 1, repeatedUuid 2, zeroUuid⟩
  acl := ⟨zeroUuid, repeatedUuid 1, 0, fun _ => ⟨0, 0⟩, fun _ => [], 0⟩
  permBitsP := some 0
  accessRequested := dacl_perm_control
  userObj := repeatedUuid 9
  groupObjP := some (repeatedUuid 9)
  networkRootCheck := false

/-- A system administrator calls through a delegate that is none: the delegate has the administrator's right, and control is
granted. -/
theorem membership_carried_over :
    ¬ ∀ (request : Request) (pacs : ℕ → sec_id_pa_t epi_uuid_t) (initiator : pac_list_t) (delegates : List pac_list_t),
      (dacl_epi_CheckAccessAllowedPac request pacs initiator delegates).accessAllowed = chainAccess request pacs initiator delegates ∧
      ((dacl_epi_CheckAccessAllowedPac request pacs initiator delegates).rtnVal = .DACL_SUCCESS ↔
        Within request.accessRequested (dacl_epi_CheckAccessAllowedPac request pacs initiator delegates).accessAllowed) := by
  intro h
  have hpacs := (h controlRequest (fun pacp => if pacp = 0 then cellMember 3 2 else cellMember 4 5) ⟨0, true⟩ [⟨1, true⟩]).1
  revert hpacs
  decide +kernel

end dce.dacl
