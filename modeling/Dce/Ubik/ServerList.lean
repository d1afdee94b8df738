import Mathlib.Data.List.MinMax
import Dce.Ubik.Beacon

open Finset

namespace dce.ubik

/-- One binding of a server: its address, and whether `ubik_auth_binding` succeeds
on the copies for the disk and for the vote interface. -/
structure Binding where
  addr : Addr
  diskAuth : Bool
  voteAuth : Bool
  deriving DecidableEq, Repr

/-- What `ubeacon_InitServerList` leaves behind. -/
structure ServerList where
  ubik_servers : List Server
  ubik_amIMagic : Bool
  ubik_nServers : ℕ
  deriving DecidableEq, Repr

/-- The inner loop of `ubeacon_InitServerList`: the lowest address of the host, up
to the first binding that cannot be authenticated. -/
def initBindings : List Binding → Server → Server
  | [], ts => ts
  | binding :: rest, ts =>
    let ts := { ts with
      addr := if binding.addr < ts.addr ∨ ts.addr = 0 then binding.addr else ts.addr
      bindingCount := ts.bindingCount + 1 }
    if binding.diskAuth && binding.voteAuth then initBindings rest { ts with up := true, badhost := false }
    else { ts with badhost := true, up := false }

/-- The outer loop's choice of the magic host: the lowest address so far, and the
server it belongs to when that is not this host. -/
def chooseMagic : List Server → Addr → Option Addr → Option Addr
  | [], _, magicServer => magicServer
  | ts :: rest, magicHost, magicServer =>
    if ts.addr < magicHost ∧ ts.badhost = false then chooseMagic rest ts.addr (some ts.addr)
    else chooseMagic rest magicHost magicServer

/-- `ubeacon_InitServerList` on the host `ame`, when no call it makes fails for
good. Servers have distinct addresses, so an address stands for the structure. -/
def ubeacon_InitServerList (ame : Addr) (bindingVector : List (List Binding)) : ServerList :=
  let servers := bindingVector.map fun bindings => initBindings bindings {}
  let magicServer := chooseMagic servers ame none
  let servers := servers.map fun ts => { ts with magic := decide (magicServer = some ts.addr) }
  { ubik_servers := (servers.filter fun ts => !ts.badhost).reverse
    ubik_amIMagic := magicServer.isNone
    ubik_nServers := bindingVector.length + 1 }

/-- The bindings of one host, as the name service hands them out. -/
structure HostBindings where
  bindings : List Binding
  nonempty : bindings ≠ []
  nonzero : ∀ binding ∈ bindings, binding.addr ≠ 0

def HostBindings.lowest (host : HostBindings) : Addr := (host.bindings.map Binding.addr).min?.getD 0

/-- All bindings of the host can be authenticated. -/
def HostBindings.Authentic (host : HostBindings) : Prop :=
  ∀ binding ∈ host.bindings, binding.diskAuth = true ∧ binding.voteAuth = true

instance (host : HostBindings) : Decidable host.Authentic := List.decidableBAll ..

/-- A server group before it starts: what every server gets as the bindings of
the others, and what comes of authenticating them there. -/
structure Configuration where
  members : List Addr
  nodup : members.Nodup
  vector : Addr → List HostBindings
  complete : ∀ a ∈ members, ((vector a).map HostBindings.lowest).Perm (members.erase a)

namespace Configuration

/-- The server list that `a` sets up. -/
def serverList (c : Configuration) (a : Addr) : ServerList :=
  ubeacon_InitServerList a ((c.vector a).map HostBindings.bindings)

/-- The servers that `a` knows of: itself and those whose bindings it could all
authenticate. -/
def authenticated (c : Configuration) (a : Addr) : Finset Addr :=
  insert a (((c.vector a).filter fun host => host.Authentic).map HostBindings.lowest).toFinset

/-- The lowest address among the servers that `a` knows of. -/
def lowestAuthenticated (c : Configuration) (a : Addr) : Addr := (c.authenticated a).min' (insert_nonempty _ _)

/-- The servers that `a` did not authenticate. -/
def unknown (c : Configuration) (a : Addr) : Finset Addr := c.members.toFinset \ c.authenticated a

end Configuration

theorem initBindings_badhost (bindings : List Binding) (ts : Server) :
    (initBindings bindings ts).badhost =
      if bindings = [] then ts.badhost else !bindings.all fun b => b.diskAuth && b.voteAuth := by
  induction bindings generalizing ts with
  | nil => simp [initBindings]
  | cons binding rest ih =>
    rw [initBindings]
    by_cases hauth : (binding.diskAuth && binding.voteAuth) = true
    · rw [if_pos hauth, ih]
      cases rest <;> simp [hauth]
    · rw [if_neg hauth]
      simp [hauth]

theorem initBindings_addr_of_set (bindings : List Binding) (ts : Server) (hset : ts.addr ≠ 0)
    (hnonzero : ∀ b ∈ bindings, b.addr ≠ 0) (hauth : ∀ b ∈ bindings, b.diskAuth = true ∧ b.voteAuth = true) :
    (initBindings bindings ts).addr ∈ ts.addr :: bindings.map Binding.addr ∧
      ∀ a ∈ ts.addr :: bindings.map Binding.addr, (initBindings bindings ts).addr ≤ a := by
  induction bindings generalizing ts with
  | nil => simp [initBindings]
  | cons binding rest ih =>
    obtain ⟨hdisk, hvote⟩ := hauth binding (List.mem_cons_self ..)
    have hb := hnonzero binding (List.mem_cons_self ..)
    have hrest := fun ts hset => ih ts hset (fun b hmem => hnonzero b (List.mem_cons_of_mem _ hmem))
      (fun b hmem => hauth b (List.mem_cons_of_mem _ hmem))
    rw [initBindings]
    simp only [hdisk, hvote, Bool.and_self, if_true]
    by_cases hlower : binding.addr < ts.addr ∨ ts.addr = 0
    · simp only [hlower, if_true]
      obtain ⟨hmem, hle⟩ := hrest { ts with
        addr := binding.addr, bindingCount := ts.bindingCount + 1, up := true, badhost := false } hb
      refine ⟨List.mem_cons_of_mem _ hmem, fun a ha => ?_⟩
      have hle' := hle binding.addr (List.mem_cons_self ..)
      rcases List.mem_cons.mp ha with rfl | ha
      · exact hle'.trans (hlower.resolve_right hset).le
      · exact hle a ha
    · simp only [hlower, if_false]
      obtain ⟨hmem, hle⟩ := hrest { ts with bindingCount := ts.bindingCount + 1, up := true, badhost := false } hset
      refine ⟨?_, fun a ha => ?_⟩
      · rcases List.mem_cons.mp hmem with heq | hmem
        · exact List.mem_cons.mpr (Or.inl heq)
        · exact List.mem_cons_of_mem _ (List.mem_cons_of_mem _ hmem)
      · have hle' := hle ts.addr (List.mem_cons_self ..)
        rcases List.mem_cons.mp ha with rfl | ha
        · exact hle'
        · rcases List.mem_cons.mp ha with rfl | ha
          · exact hle'.trans (not_lt.mp fun hlt => hlower (Or.inl hlt))
          · exact hle a (List.mem_cons_of_mem _ ha)

theorem HostBindings.initBindings_addr (host : HostBindings) (hauth : host.Authentic) :
    (initBindings host.bindings {}).addr = host.lowest := by
  obtain ⟨bindings, hnonempty, hnonzero⟩ := host
  cases bindings with
  | nil => exact absurd rfl hnonempty
  | cons binding rest =>
    obtain ⟨hdisk, hvote⟩ := hauth binding (List.mem_cons_self ..)
    have hset := initBindings_addr_of_set rest { addr := binding.addr, bindingCount := 1, up := true }
      (hnonzero binding (List.mem_cons_self ..)) (fun b hmem => hnonzero b (List.mem_cons_of_mem _ hmem))
      (fun b hmem => hauth b (List.mem_cons_of_mem _ hmem))
    have hmin := List.min?_eq_some_iff.mpr hset
    simp only [HostBindings.lowest, List.map_cons, initBindings, hdisk, hvote, Bool.and_self, if_true, or_true,
      Nat.zero_add]
    rw [hmin]
    rfl

theorem HostBindings.initBindings_badhost (host : HostBindings) :
    (initBindings host.bindings {}).badhost = false ↔ host.Authentic := by
  rw [dce.ubik.initBindings_badhost, if_neg host.nonempty]
  simp [HostBindings.Authentic]

theorem chooseMagic_spec (servers : List Server) (magicHost : Addr) (magicServer : Option Addr) (ame : Addr)
    (hstart : magicServer.getD ame = magicHost) :
    let good := magicHost :: (servers.filter fun ts => !ts.badhost).map Server.addr
    (chooseMagic servers magicHost magicServer).getD ame ∈ good ∧
      ∀ a ∈ good, (chooseMagic servers magicHost magicServer).getD ame ≤ a := by
  induction servers generalizing magicHost magicServer with
  | nil => simp [chooseMagic, hstart]
  | cons ts rest ih =>
    rw [chooseMagic]
    by_cases hlower : ts.addr < magicHost ∧ ts.badhost = false
    · rw [if_pos hlower]
      obtain ⟨hmem, hle⟩ := ih ts.addr (some ts.addr) rfl
      simp only [List.filter_cons, hlower.2, Bool.not_false, if_true, List.map_cons]
      refine ⟨List.mem_cons_of_mem _ hmem, fun a ha => ?_⟩
      rcases List.mem_cons.mp ha with rfl | ha
      · exact (hle _ (List.mem_cons_self ..)).trans hlower.1.le
      · exact hle a ha
    · rw [if_neg hlower]
      obtain ⟨hmem, hle⟩ := ih magicHost magicServer hstart
      cases hbad : ts.badhost with
      | true => simpa [List.filter_cons, hbad] using And.intro hmem hle
      | false =>
        simp only [List.filter_cons, hbad, Bool.not_false, if_true, List.map_cons]
        have hge : magicHost ≤ ts.addr := by
          by_contra hlt
          exact hlower ⟨not_le.mp hlt, hbad⟩
        refine ⟨?_, fun a ha => ?_⟩
        · rcases List.mem_cons.mp hmem with heq | hmem
          · exact List.mem_cons.mpr (Or.inl heq)
          · exact List.mem_cons_of_mem _ (List.mem_cons_of_mem _ hmem)
        · rcases List.mem_cons.mp ha with rfl | ha
          · exact hle _ (List.mem_cons_self ..)
          · rcases List.mem_cons.mp ha with rfl | ha
            · exact (hle _ (List.mem_cons_self ..)).trans hge
            · exact hle a (List.mem_cons_of_mem _ ha)

theorem chooseMagic_eq_some (servers : List Server) (magicHost : Addr) (magicServer : Option Addr) {m : Addr}
    (hm : chooseMagic servers magicHost magicServer = some m) :
    magicServer = some m ∨ m ∈ (servers.filter fun ts => !ts.badhost).map Server.addr := by
  induction servers generalizing magicHost magicServer with
  | nil => exact Or.inl hm
  | cons ts rest ih =>
    rw [chooseMagic] at hm
    by_cases hlower : ts.addr < magicHost ∧ ts.badhost = false
    · rw [if_pos hlower] at hm
      simp only [List.filter_cons, hlower.2, Bool.not_false, if_true, List.map_cons]
      rcases ih _ _ hm with heq | hmem
      · obtain rfl := Option.some.inj heq
        exact Or.inr (List.mem_cons_self ..)
      · exact Or.inr (List.mem_cons_of_mem _ hmem)
    · rw [if_neg hlower] at hm
      rcases ih _ _ hm with heq | hmem
      · exact Or.inl heq
      · refine Or.inr ?_
        rw [List.filter_cons]
        split
        · exact List.mem_cons_of_mem _ hmem
        · exact hmem

end dce.ubik
