import Dce.Ubik.ServerList

open Finset

namespace dce.ubik

/-- The structure `ubik_host` of the server `ame`, as far as votes go. -/
def ServerList.ubik_host (list : ServerList) (ame : Addr) : Server :=
  { addr := ame, up := true, magic := list.ubik_amIMagic }

namespace Configuration

variable {c : Configuration}

/-- Some vote collection of `a`, in which exactly the servers of `V` voted yes,
passes the test of `ubeacon_Interact`. Any of the servers in the list of `a` may
have been asked, and may have answered anything. -/
def Passes (c : Configuration) (a : Addr) (V : Finset Addr) : Prop :=
  ∃ (remote : List (Server × BeaconArgs)) (own : BeaconArgs),
    (remote.map Prod.fst).Sublist (c.serverList a).ubik_servers ∧
    V = (addrs (yesResults (remote ++ [((c.serverList a).ubik_host a, own)]))).toFinset ∧
    (ubeacon_wait_for_votes ((c.serverList a).ubik_host a) remote own).yesVotes > (c.serverList a).ubik_nServers

theorem good_addrs (hosts : List HostBindings) :
    (((hosts.map fun host => initBindings host.bindings {}).filter fun ts => !ts.badhost).map Server.addr) =
      (hosts.filter fun host => host.Authentic).map HostBindings.lowest := by
  induction hosts with
  | nil => rfl
  | cons host hosts ih =>
    simp only [List.map_cons, List.filter_cons]
    by_cases hauth : host.Authentic
    · have hbad := host.initBindings_badhost.mpr hauth
      simp [hbad, hauth, ih, host.initBindings_addr hauth]
    · have hbad : (initBindings host.bindings {}).badhost = true := by
        rw [← Bool.not_eq_false, host.initBindings_badhost]
        exact hauth
      simp [hbad, hauth, ih]

theorem serverList_addrs (a : Addr) :
    (c.serverList a).ubik_servers.map Server.addr =
      (((c.vector a).filter fun host => host.Authentic).map HostBindings.lowest).reverse := by
  rw [← good_addrs, serverList, ubeacon_InitServerList]
  simp only [List.map_reverse, List.map_map, List.filter_map]
  rfl

theorem mem_authenticated {a v : Addr} :
    v ∈ c.authenticated a ↔ v = a ∨ v ∈ (c.serverList a).ubik_servers.map Server.addr := by
  rw [serverList_addrs, authenticated, mem_insert, List.mem_toFinset, List.mem_reverse]

theorem serverList_addrs_sublist (a : Addr) :
    List.Sublist (((c.vector a).filter fun host => host.Authentic).map HostBindings.lowest)
      ((c.vector a).map HostBindings.lowest) :=
  List.Sublist.map _ List.filter_sublist

theorem serverList_nodup {a : Addr} (ha : a ∈ c.members) :
    (a :: (c.serverList a).ubik_servers.map Server.addr).Nodup := by
  have hall : ((c.vector a).map HostBindings.lowest).Nodup := (c.complete a ha).nodup_iff.mpr (c.nodup.erase a)
  have hself : a ∉ (c.vector a).map HostBindings.lowest := fun hmem =>
    c.nodup.not_mem_erase ((c.complete a ha).mem_iff.mp hmem)
  rw [serverList_addrs]
  refine List.nodup_cons.mpr ⟨fun hmem => hself ?_, List.nodup_reverse.mpr (hall.sublist (serverList_addrs_sublist a))⟩
  exact (serverList_addrs_sublist a).subset (List.mem_reverse.mp hmem)

theorem authenticated_subset {a : Addr} (ha : a ∈ c.members) : c.authenticated a ⊆ c.members.toFinset := by
  intro v hv
  rw [List.mem_toFinset]
  rcases mem_authenticated.mp hv with rfl | hlist
  · exact ha
  · rw [serverList_addrs, List.mem_reverse] at hlist
    have hmem := (c.complete a ha).mem_iff.mp ((serverList_addrs_sublist a).subset hlist)
    exact List.mem_of_mem_erase hmem

theorem serverList_nServers {a : Addr} (ha : a ∈ c.members) :
    (c.serverList a).ubik_nServers = c.members.toFinset.card := by
  have hlen := (c.complete a ha).length_eq
  rw [List.length_map, List.length_erase_of_mem ha] at hlen
  have hpos := List.length_pos_of_mem ha
  rw [List.toFinset_card_of_nodup c.nodup]
  simp only [serverList, ubeacon_InitServerList, List.length_map, hlen]
  omega

/-- The server that `a` chooses as magic host, or nothing when it is `a` itself. -/
def magicServer (c : Configuration) (a : Addr) : Option Addr :=
  chooseMagic ((c.vector a).map fun host => initBindings host.bindings {}) a none

theorem magicServer_getD (a : Addr) : (c.magicServer a).getD a = c.lowestAuthenticated a := by
  obtain ⟨hmem, hle⟩ := chooseMagic_spec ((c.vector a).map fun host => initBindings host.bindings {}) a none a rfl
  rw [good_addrs] at hmem hle
  have hset : ∀ v, v ∈ c.authenticated a ↔
      v ∈ a :: ((c.vector a).filter fun host => host.Authentic).map HostBindings.lowest := by
    intro v
    rw [authenticated, mem_insert, List.mem_toFinset, List.mem_cons]
  refine le_antisymm ?_ (min'_le _ _ ((hset _).mpr hmem))
  exact hle _ ((hset _).mp (min'_mem _ _))

theorem serverList_magic {a : Addr} (ha : a ∈ c.members) {ts : Server} (hts : ts ∈ (c.serverList a).ubik_servers) :
    ts.magic = decide (ts.addr = c.lowestAuthenticated a) := by
  have hother : ts.addr ≠ a := by
    intro heq
    have hmem : ts.addr ∈ (c.serverList a).ubik_servers.map Server.addr := List.mem_map_of_mem hts
    rw [heq] at hmem
    exact (List.nodup_cons.mp (serverList_nodup ha)).1 hmem
  have hflag : ts.magic = decide (c.magicServer a = some ts.addr) := by
    simp only [serverList, ubeacon_InitServerList, List.mem_reverse, List.mem_filter, List.map_map, List.mem_map] at hts
    obtain ⟨⟨host, _, rfl⟩, _⟩ := hts
    simp only [magicServer, Function.comp_apply]
    rfl
  rw [hflag, ← magicServer_getD]
  cases c.magicServer a with
  | none => simp [hother]
  | some m => simp [eq_comm]

theorem ubik_host_magic {a : Addr} (ha : a ∈ c.members) :
    ((c.serverList a).ubik_host a).magic = decide (a = c.lowestAuthenticated a) := by
  have hflag : ((c.serverList a).ubik_host a).magic = (c.magicServer a).isNone := by
    simp only [ServerList.ubik_host, serverList, ubeacon_InitServerList, magicServer, List.map_map]
    rfl
  rw [hflag, ← magicServer_getD]
  cases hm : c.magicServer a with
  | none => simp
  | some m =>
    have hgood := (chooseMagic_eq_some _ _ _ hm).resolve_left (by simp)
    rw [good_addrs, ← List.mem_reverse, ← serverList_addrs] at hgood
    have hne : a ≠ m := fun heq => (List.nodup_cons.mp (serverList_nodup ha)).1 (heq ▸ hgood)
    simp [hne]

theorem passes_iff {a : Addr} (ha : a ∈ c.members) (V : Finset Addr) :
    c.Passes a V ↔
      V ⊆ c.authenticated a ∧ lib.ChairMajority c.members.toFinset (c.lowestAuthenticated a) V := by
  have hnodup := serverList_nodup ha
  constructor
  · rintro ⟨remote, own, hasked, rfl, hpass⟩
    rcases ubeacon_wait_for_votes_cases ((c.serverList a).ubik_host a) remote own with hreset | hcount
    · rw [hreset] at hpass
      simp [VoteCount.start] at hpass
    · have hsub : yesResults (remote ++ [((c.serverList a).ubik_host a, own)]) ⊆
          remote ++ [((c.serverList a).ubik_host a, own)] := List.filter_subset_self _
      have hserver : ∀ server ∈ remote ++ [((c.serverList a).ubik_host a, own)],
          server.1.addr ∈ c.authenticated a ∧ server.1.magic = decide (server.1.addr = c.lowestAuthenticated a) := by
        intro server hmem
        rcases List.mem_append.mp hmem with hremote | hself
        · have hlist := hasked.subset (List.mem_map_of_mem hremote)
          exact ⟨mem_authenticated.mpr (Or.inr (List.mem_map_of_mem hlist)), serverList_magic ha hlist⟩
        · obtain rfl := List.mem_singleton.mp hself
          exact ⟨mem_authenticated.mpr (Or.inl rfl), ubik_host_magic ha⟩
      have hall : (addrs (remote ++ [((c.serverList a).ubik_host a, own)])).Nodup := by
        have hremote : (addrs remote).Sublist ((c.serverList a).ubik_servers.map Server.addr) := by
          simpa [addrs, Function.comp_def] using hasked.map Server.addr
        obtain ⟨hself, hlist⟩ := List.nodup_cons.mp hnodup
        rw [addrs, List.map_append]
        refine List.nodup_append.mpr ⟨hlist.sublist hremote, by simp, ?_⟩
        rintro v hv u hu rfl
        obtain rfl : v = a := by simpa [ServerList.ubik_host] using hu
        exact hself (hremote.subset hv)
      have hvotes := hcount.weight_eq (fun server hmem => (hserver server (hsub hmem)).2)
        (hall.sublist (List.Sublist.map _ List.filter_sublist))
      refine ⟨fun v hv => ?_, ?_⟩
      · obtain ⟨server, hmem, rfl⟩ := List.mem_map.mp (List.mem_toFinset.mp hv)
        exact (hserver server (hsub hmem)).1
      · rwa [lib.ChairMajority, ← hvotes, ← serverList_nServers ha]
  · rintro ⟨hV, hmajority⟩
    -- ask the servers of `V` and let each of them, and `a` if it is in `V`, vote yes
    let vote : BeaconArgs := ⟨.ok, 1⟩
    let own : BeaconArgs := ⟨.ok, if a ∈ V then 1 else 0⟩
    let asked := (c.serverList a).ubik_servers.filter fun ts => decide (ts.addr ∈ V)
    let remote := asked.map fun ts => (ts, vote)
    have hasked : remote.map Prod.fst = asked := by simp [remote, Function.comp_def]
    have hyes : yesResults (remote ++ [((c.serverList a).ubik_host a, own)]) =
        remote ++ if a ∈ V then [((c.serverList a).ubik_host a, own)] else [] := by
      rw [yesResults, List.filter_append]
      congr 1
      · refine List.filter_eq_self.mpr fun server hmem => ?_
        obtain ⟨ts, _, rfl⟩ := List.mem_map.mp hmem
        rfl
      · by_cases haV : a ∈ V <;> simp [own, haV, BeaconArgs.IsYes]
    have hset : V = (addrs (yesResults (remote ++ [((c.serverList a).ubik_host a, own)]))).toFinset := by
      ext v
      have hremote : v ∈ addrs remote ↔ v ∈ V ∧ v ∈ (c.serverList a).ubik_servers.map Server.addr := by
        simp only [addrs, remote, asked, List.map_map, List.mem_map, List.mem_filter, decide_eq_true_eq,
          Function.comp_apply]
        constructor
        · rintro ⟨ts, ⟨hts, hv⟩, rfl⟩
          exact ⟨hv, ts, hts, rfl⟩
        · rintro ⟨hv, ts, hts, rfl⟩
          exact ⟨ts, ⟨hts, hv⟩, rfl⟩
      rw [hyes, List.mem_toFinset, addrs, List.map_append, ← addrs, List.mem_append, hremote]
      constructor
      · intro hv
        rcases mem_authenticated.mp (hV hv) with rfl | hlist
        · exact Or.inr (by simp [hv, ServerList.ubik_host])
        · exact Or.inl ⟨hv, hlist⟩
      · rintro (⟨hv, _⟩ | hself)
        · exact hv
        · by_cases haV : a ∈ V
          · obtain rfl : v = a := by simpa [haV, ServerList.ubik_host] using hself
            exact haV
          · simp [haV] at hself
    have hskew : ∀ server ∈ remote, server.2.rpc_status ≠ .uskewed := by
      intro server hmem
      obtain ⟨ts, _, rfl⟩ := List.mem_map.mp hmem
      simp [vote]
    have hcount := ubeacon_wait_for_votes_counts ((c.serverList a).ubik_host a) own hskew
    have hmagic : ∀ server ∈ yesResults (remote ++ [((c.serverList a).ubik_host a, own)]),
        server.1.magic = decide (server.1.addr = c.lowestAuthenticated a) := by
      intro server hmem
      rcases List.mem_append.mp (List.mem_of_mem_filter hmem) with hremote | hself
      · obtain ⟨ts, hts, rfl⟩ := List.mem_map.mp hremote
        exact serverList_magic ha (List.mem_of_mem_filter hts)
      · obtain rfl := List.mem_singleton.mp hself
        exact ubik_host_magic ha
    have hdistinct : (addrs (yesResults (remote ++ [((c.serverList a).ubik_host a, own)]))).Nodup := by
      obtain ⟨hself, hlist⟩ := List.nodup_cons.mp hnodup
      have hremote : (addrs remote).Sublist ((c.serverList a).ubik_servers.map Server.addr) := by
        simpa [addrs, remote, Function.comp_def] using List.Sublist.map Server.addr List.filter_sublist
      rw [hyes, addrs, List.map_append]
      refine List.nodup_append.mpr ⟨hlist.sublist hremote, by split <;> simp, ?_⟩
      rintro v hv u hu rfl
      obtain rfl : v = a := by
        split at hu
        · simpa [ServerList.ubik_host] using hu
        · simp at hu
      exact hself (hremote.subset hv)
    refine ⟨remote, own, hasked ▸ List.filter_sublist, hset, ?_⟩
    rw [hcount.weight_eq hmagic hdistinct, ← hset, serverList_nServers ha]
    exact hmajority

/-- Any two sets of voters that pass the tests of `a` and `b` meet, if and only if
the number of servers is odd, or `a` and `b` know the same lowest server, or some
server is known to neither, or one of them with what the other cannot count, and
its own lowest server, makes more than half of all servers. -/
theorem quorums_meet_iff (c : Configuration) {a b : Addr} (ha : a ∈ c.members) (hb : b ∈ c.members) :
    (∀ V W, c.Passes a V → c.Passes b W → (V ∩ W).Nonempty) ↔
      Odd c.members.length ∨ c.lowestAuthenticated a = c.lowestAuthenticated b ∨ (c.unknown a ∩ c.unknown b).Nonempty ∨
        c.members.length < 2 * (insert (c.lowestAuthenticated a) (c.unknown b)).card ∨
        c.members.length < 2 * (insert (c.lowestAuthenticated b) (c.unknown a)).card := by
  have hmeet := lib.majorities_meet_iff (authenticated_subset ha) (authenticated_subset hb)
    (min'_mem (c.authenticated a) (insert_nonempty _ _)) (min'_mem (c.authenticated b) (insert_nonempty _ _))
  have hcover : c.authenticated a ∪ c.authenticated b ≠ c.members.toFinset ↔
      (c.unknown a ∩ c.unknown b).Nonempty := by
    have hunknown : c.unknown a ∩ c.unknown b = c.members.toFinset \ (c.authenticated a ∪ c.authenticated b) := by
      rw [sdiff_union_distrib]
      rfl
    rw [hunknown, sdiff_nonempty, not_iff_not]
    exact ⟨fun heq => heq ▸ subset_rfl,
      subset_antisymm (union_subset (authenticated_subset ha) (authenticated_subset hb))⟩
  rw [hcover, List.toFinset_card_of_nodup c.nodup] at hmeet
  refine Iff.trans ?_ hmeet
  simp only [passes_iff ha, passes_iff hb]
  constructor
  · intro hall V hV W hW hVa hWb
    exact hall V W ⟨hV, hVa⟩ ⟨hW, hWb⟩
  · intro hall V W hV hW
    exact hall V hV.1 W hW.1 hV.2 hW.2

def oneBadBinding : Configuration where
  members := [1, 2]
  nodup := by decide
  vector a := if a = 1 then [⟨[⟨2, true, true⟩], by decide, by decide⟩] else [⟨[⟨1, true, false⟩], by decide, by decide⟩]
  complete := by decide

/-- Server 2 makes itself the magic host, and each of the two passes its test with
its own vote. -/
theorem quorums_apart :
    ∃ V W, oneBadBinding.Passes 1 V ∧ oneBadBinding.Passes 2 W ∧ ¬(V ∩ W).Nonempty := by
  refine ⟨{1}, {2}, ⟨[], ⟨.ok, 1⟩, List.nil_sublist _, ?_, ?_⟩, ⟨[], ⟨.ok, 1⟩, List.nil_sublist _, ?_, ?_⟩, ?_⟩ <;>
    decide

/-- `quorums_meet_iff` at two servers one of which cannot authenticate the other. -/
theorem quorums_meet_iff_oneBadBinding :
    ¬(∀ V W, oneBadBinding.Passes 1 V → oneBadBinding.Passes 2 W → (V ∩ W).Nonempty) := by
  rw [quorums_meet_iff oneBadBinding (by decide) (by decide)]
  decide

end Configuration

end dce.ubik
