import Dce.Ubik.Election.Promise

open Finset

namespace dce.ubik

theorem Promised.gap_of_mayVoteFor {w : Voter} {p q : Addr} {t now astart : ℕ} (hprom : Promised w q t)
    (hmay : mayVoteFor p now astart w) (hvalid : p ≠ noHost) (hother : q ≠ p) : t + BIGTIME < now := by
  obtain ⟨hle, hhost⟩ := hprom
  obtain ⟨hnow, _, hexpired | hsame⟩ := hmay
  · omega
  · rcases hhost with hq | hnone | hgap
    · exact absurd (hq.symm.trans hsame.symm) hother
    · exact absurd (hsame.trans hnone) hvalid
    · omega

namespace Election

variable {g : Group} {clocks : Clocks} {s : Election}

theorem Inv.addNo (hinv : Inv g clocks s) (r : BeaconReply) (hno : ¬r.args.IsYes) :
    Inv g clocks { s with replies := r :: s.replies } :=
  { hinv with
    results := fun p rd hrd v args hargs hyes => (hinv.results p rd hrd v args hargs hyes).later
    cast := fun v p t hvote => hinv.cast v p t ((yesVote_cons_of_not_yes hno).mp hvote)
    promised := fun v p t hvote => hinv.promised v p t ((yesVote_cons_of_not_yes hno).mp hvote)
    separated := fun v p q t t' hp hq =>
      hinv.separated v p q t t' ((yesVote_cons_of_not_yes hno).mp hp) ((yesVote_cons_of_not_yes hno).mp hq)
    backed := fun p hne => (hinv.backed p hne).later }

theorem Inv.dropCall (hinv : Inv g clocks s) (c : BeaconCall) : Inv g clocks { s with calls := s.calls.erase c } :=
  hinv.setCalls fun d hd => hinv.calls d (List.mem_of_mem_erase hd)

theorem Inv.answerNo (hinv : Inv g clocks s) (c : BeaconCall) {args : BeaconArgs} (hno : ¬args.IsYes) :
    Inv g clocks (s.answer c args) :=
  (hinv.dropCall c).addNo ⟨c.req, args⟩ hno

variable {remote : List (Server × BeaconArgs)} {r : Round} {p : Addr} {c : BeaconCall}

section

variable (hinv : Inv g clocks s)

include hinv

theorem Inv.skewTest (hc : c ∈ s.calls) : Inv g clocks (s.skewTest clocks c) := by
  have hno : ¬BeaconArgs.IsYes ⟨.uskewed, 0⟩ := by simp [BeaconArgs.IsYes]
  unfold Election.skewTest
  cases htest : beaconSkewTest (s.voter c.req.voter) c.now c.req.astart with
  | passed =>
    refine hinv.setCalls fun d hd => ?_
    rcases List.mem_cons.mp hd with rfl | hold
    · exact { hinv.calls c hc with skew := fun _ => le_astart_of_beaconSkewTest htest }
    · exact hinv.calls d (List.mem_of_mem_erase hold)
  | skewed => exact hinv.answerNo c hno
  | skewedReset => exact (hinv.ubik_ResetState c.req.voter).answerNo c hno

theorem Inv.samePromise (p : Addr) {w : Voter} (hsame : SamePromise (s.voter p) w) :
    Inv g clocks { s with voter := Function.update s.voter p w } :=
  { hinv with
    clock := by
      intro v
      by_cases hv : v = p
      · subst hv
        simpa only [Function.update_self, hsame.time] using hinv.clock v
      · simpa only [Function.update_of_ne hv] using hinv.clock v
    promised := by
      intro v q t hvote
      have hprom := hinv.promised v q t hvote
      by_cases hv : v = p
      · subst hv
        simpa only [Promised, Function.update_self, hsame.time, hsame.host] using hprom
      · simpa only [Function.update_of_ne hv] using hprom }

theorem Inv.addYes (hcall : CallOk g clocks s.time c) (htested : c.tested = true)
    (hmay : mayVoteFor c.req.sender c.now c.req.astart (s.voter c.req.voter)) {w : Voter}
    (htime : w.ubik_lastYesTime = c.now) (hhost : w.lastYesHost = c.req.sender) :
    Inv g clocks { s with
      voter := Function.update s.voter c.req.voter w
      replies := ⟨c.req, ⟨.ok, c.now⟩⟩ :: s.replies } := by
  obtain ⟨m, hm, hread, hclaim⟩ := hcall.started
  have hskew := hcall.skew htested
  have hvalid : c.req.sender ≠ noHost := Nat.ne_of_lt (g.valid _ hcall.sender)
  have hgap : ∀ q t, YesVote s.replies c.req.voter q t → q ≠ c.req.sender → t + BIGTIME < c.now :=
    fun q t hvote hother => (hinv.promised _ q t hvote).gap_of_mayVoteFor hmay hvalid hother
  refine { hinv with
    results := fun p rd hrd v args hargs hyes => (hinv.results p rd hrd v args hargs hyes).later
    clock := ?_
    cast := ?_
    promised := ?_
    separated := ?_
    backed := fun p hne => (hinv.backed p hne).later }
  · intro v
    by_cases hv : v = c.req.voter
    · subst hv
      simp only [Function.update_self, htime, ← hread]
      exact clocks.mono _ hm
    · simpa only [Function.update_of_ne hv] using hinv.clock v
  · intro v p t hvote
    rcases yesVote_cons.mp hvote with ⟨rfl, rfl, _, rfl⟩ | hold
    · exact ⟨m, hm, hread, by simp only; omega⟩
    · exact hinv.cast v p t hold
  · intro v p t hvote
    by_cases hv : v = c.req.voter
    · subst hv
      simp only [Promised, Function.update_self, htime, hhost]
      rcases yesVote_cons.mp hvote with ⟨_, rfl, _, rfl⟩ | hold
      · exact ⟨le_rfl, Or.inl rfl⟩
      · by_cases hp : c.req.sender = p
        · have hle := (hinv.promised _ p t hold).1
          exact ⟨hle.trans hmay.1, Or.inl hp⟩
        · have hlt := hgap p t hold (Ne.symm hp)
          exact ⟨by omega, Or.inr (Or.inr hlt)⟩
    · simp only [Function.update_of_ne hv]
      rcases yesVote_cons.mp hvote with ⟨rfl, _⟩ | hold
      · exact absurd rfl hv
      · exact hinv.promised v p t hold
  · intro v p q t t' hp hq hne
    rcases yesVote_cons.mp hp with ⟨rfl, rfl, _, rfl⟩ | hpold
    · rcases yesVote_cons.mp hq with ⟨_, rfl, _, rfl⟩ | hqold
      · exact absurd rfl hne
      · exact Or.inr (hgap q t' hqold (Ne.symm hne))
    · rcases yesVote_cons.mp hq with ⟨rfl, rfl, _, rfl⟩ | hqold
      · exact Or.inl (hgap p t hpold hne)
      · exact hinv.separated v p q t t' hpold hqold hne

theorem Inv.vote (hc : c ∈ s.calls) (htested : c.tested = true) : Inv g clocks (s.vote c) := by
  have hcall := hinv.calls c hc
  unfold Election.vote
  rcases beaconVote_cases c.req.voter c.req.sender c.req.astate c.now c.req.astart c.req.avers c.req.atid
    (s.voter c.req.voter) with ⟨hmay, htime, hlast, hhost⟩ | ⟨hzero, hsame⟩
  · have hyes := hinv.addYes hcall htested hmay hlast hhost
    simp only [Election.answer, htime]
    exact hyes.dropCall c
  · have hno : ¬BeaconArgs.IsYes ⟨.ok, 0⟩ := by simp [BeaconArgs.IsYes]
    simp only [hzero]
    exact (hinv.samePromise c.req.voter hsame).answerNo c hno

theorem Inv.startRound {servers : List Addr} (hp : p ∈ g.members)
    (hnodup : servers.Nodup) (hasked : ∀ v ∈ servers, v ∈ g.members ∧ v ≠ p) (avers : Version) (atid : Tid) :
    Inv g clocks (s.startRound g clocks p servers avers atid) := by
  have hround : RoundOk g clocks s.time p
      ⟨s.rounds, clocks.read p s.time, atid, servers, false, fun _ => none⟩ :=
    ⟨hp, le_rfl, hnodup, hasked⟩
  have hsent := (hinv.callAmSyncSite p).round p hround (by simp)
  refine Inv.addRequests (s := { s.callAmSyncSite g clocks p with
      collecting := _, rounds := s.rounds + 1 }) { hsent with } _ fun q hq => ?_
  obtain ⟨v, hv, rfl⟩ := List.mem_map.mp hq
  exact ⟨hp, (hasked v hv).1, le_rfl⟩

theorem Inv.localBeacon (hr : s.collecting p = some r) (avers : Version) : Inv g clocks (s.localBeacon g clocks p r avers) := by
  have hround := hinv.rounds p r hr
  have hqueued : RoundOk g clocks s.time p { r with localQueued := true } := { hround with }
  have hsent := (hinv.callAmSyncSite p).round p hqueued (hinv.results p r hr)
  refine hsent.addRequests [_] fun q hq => ?_
  obtain rfl := List.mem_singleton.mp hq
  exact ⟨hround.sender, hround.sender, hround.started⟩

theorem Inv.storeResult (hr : s.collecting p = some r) {v : Addr}
    {args : BeaconArgs} (hargs : args.IsYes → YesVote s.replies v p args.voteTime) :
    Inv g clocks (s.storeResult p r v args) := by
  refine hinv.round p { hinv.rounds p r hr with } fun u args' hu hyes => ?_
  by_cases huv : u = v
  · subst huv
    obtain rfl : args = args' := by simpa using hu
    exact hargs hyes
  · exact hinv.results p r hr u args' (by simpa [huv] using hu) hyes

end

theorem mem_remoteResults (hremote : remoteResults g r = some remote) :
    addrs remote = r.servers ∧
      ∀ server ∈ remote, server.1 = g.server server.1.addr ∧ r.results server.1.addr = some server.2 := by
  unfold remoteResults at hremote
  generalize r.servers = servers at hremote ⊢
  induction servers generalizing remote with
  | nil =>
    obtain rfl : [] = remote := by simpa using hremote
    simp [addrs]
  | cons v servers ih =>
    rw [List.mapM_cons] at hremote
    obtain ⟨server, hserver, htail⟩ := Option.bind_eq_some_iff.mp hremote
    obtain ⟨rest, hrest, hcons⟩ := Option.bind_eq_some_iff.mp htail
    obtain ⟨args, hargs, rfl⟩ := Option.map_eq_some_iff.mp hserver
    obtain rfl : (g.server v, args) :: rest = remote := by simpa using hcons
    obtain ⟨hkeys, hmem⟩ := ih hrest
    refine ⟨by simpa [addrs, Group.server] using hkeys, fun server hserver => ?_⟩
    rcases List.mem_cons.mp hserver with rfl | hold
    · exact ⟨rfl, hargs⟩
    · exact hmem server hold

variable (hinv : Inv g clocks s)

include hinv

theorem Inv.backed_of_count (hr : s.collecting p = some r) (hremote : remoteResults g r = some remote) {own : BeaconArgs}
    (hown : r.results p = some own)
    (hquorum : (ubeacon_wait_for_votes (g.server p) remote own).yesVotes > g.nServers) :
    Backed g s.replies p ((ubeacon_wait_for_votes (g.server p) remote own).voteTime + SMALLTIME) := by
  have hround := hinv.rounds p r hr
  obtain ⟨hkeys, hmem⟩ := mem_remoteResults hremote
  rcases ubeacon_wait_for_votes_cases (g.server p) remote own with hreset | hcount
  · rw [hreset] at hquorum
    simp [VoteCount.start] at hquorum
  · have hsub : yesResults (remote ++ [(g.server p, own)]) ⊆ remote ++ [(g.server p, own)] :=
      List.filter_subset_self _
    have hall : (addrs (remote ++ [(g.server p, own)])).Nodup := by
      rw [addrs, List.map_append, ← addrs, hkeys]
      exact List.nodup_append.mpr ⟨hround.nodup, by simp, by
        intro v hv u hu
        obtain rfl := List.mem_singleton.mp hu
        exact (hround.asked v hv).2⟩
    have hnodup : (addrs (yesResults (remote ++ [(g.server p, own)]))).Nodup :=
      hall.sublist (List.Sublist.map _ List.filter_sublist)
    have hresult : ∀ server ∈ remote ++ [(g.server p, own)], server.1.addr ∈ g.members ∧
        server.1 = g.server server.1.addr ∧ r.results server.1.addr = some server.2 := by
      intro server hserver
      rcases List.mem_append.mp hserver with hasked | hself
      · have hin : server.1.addr ∈ r.servers := hkeys ▸ List.mem_map_of_mem hasked
        exact ⟨(hround.asked _ hin).1, hmem server hasked⟩
      · obtain rfl := List.mem_singleton.mp hself
        exact ⟨hround.sender, rfl, hown⟩
    have hmagic : ∀ server ∈ yesResults (remote ++ [(g.server p, own)]),
        server.1.magic = decide (server.1.addr = g.magic) := by
      intro server hserver
      obtain ⟨_, hrec, _⟩ := hresult server (hsub hserver)
      rw [hrec]
      rfl
    refine ⟨(addrs (yesResults (remote ++ [(g.server p, own)]))).toFinset, ?_, ?_, ?_⟩
    · intro v hv
      obtain ⟨server, hserver, rfl⟩ := List.mem_map.mp (List.mem_toFinset.mp hv)
      exact List.mem_toFinset.mpr (hresult server (hsub hserver)).1
    · rw [hcount.weight_eq hmagic hnodup] at hquorum
      rwa [lib.ChairMajority, List.toFinset_card_of_nodup g.nodup]
    · intro v hv
      obtain ⟨server, hserver, rfl⟩ := List.mem_map.mp (List.mem_toFinset.mp hv)
      have hyes : server.2.IsYes := by simpa using (List.mem_filter.mp hserver).2
      have hvote := hinv.results p r hr server.1.addr server.2 (hresult server (hsub hserver)).2.2 hyes
      have hold := hcount.oldest server hserver
      exact ⟨_, hvote, by omega⟩

theorem Inv.finishRound (hr : s.collecting p = some r) (hremote : remoteResults g r = some remote) {own : BeaconArgs}
    (hown : r.results p = some own) : Inv g clocks (s.finishRound g clocks p remote own) := by
  have hclaim : ∀ c : Candidate, c.syncSiteUntil = (s.candidate p).syncSiteUntil →
      (decideElection g.nServers (ubeacon_wait_for_votes (g.server p) remote own) c).syncSiteUntil ≠ 0 →
      Backed g s.replies p
        (decideElection g.nServers (ubeacon_wait_for_votes (g.server p) remote own) c).syncSiteUntil := by
    intro c hc hne
    unfold decideElection at hne ⊢
    split at hne
    · next hquorum =>
      rw [if_pos hquorum]
      simp only [hc] at hne ⊢
      rcases max_choice (s.candidate p).syncSiteUntil
        ((ubeacon_wait_for_votes (g.server p) remote own).voteTime + SMALLTIME) with hold | hnew
      · rw [hold] at hne ⊢
        exact hinv.backed p hne
      · rw [hnew]
        exact hinv.backed_of_count hr hremote hown hquorum
    · next hquorum =>
      rw [if_neg hquorum]
      simp only [hc] at hne ⊢
      exact hinv.backed p hne
  unfold Election.finishRound
  by_cases hreset : (ubeacon_wait_for_votes (g.server p) remote own).reset
  · simp only [hreset, if_true]
    exact ((hinv.ubik_ResetState p).candidate p (hclaim _ (by simp [Election.ubik_ResetState]))).noRound p
  · simp only [hreset, Bool.false_eq_true, if_false]
    exact (hinv.candidate p (hclaim _ rfl)).noRound p

theorem Inv.restart (p : Addr) : Inv g clocks (s.restart clocks p) := by
  have hvoter := hinv.freshVoter p (w := uvote_Init (clocks.read p s.time)) rfl rfl
  have hcandidate := (hvoter.candidate p (c := {}) fun hne => absurd rfl hne).noRound p
  exact hcandidate.setCalls fun c hc => hinv.calls c (List.mem_of_mem_filter hc)

theorem Inv.step {i : ElectionStep} {s' : Election} (hstep : s.step g clocks i = some s') : Inv g clocks s' := by
  cases i with
  | tick t =>
    simp only [Election.step, Option.ite_none_right_eq_some, Option.some.injEq] at hstep
    obtain ⟨hle, rfl⟩ := hstep
    exact hinv.tick hle
  | startRound p servers avers atid =>
    simp only [Election.step, Option.ite_none_right_eq_some, Option.some.injEq] at hstep
    obtain ⟨⟨hp, _, _, _, hnodup, hasked⟩, rfl⟩ := hstep
    exact hinv.startRound hp hnodup hasked avers atid
  | localBeacon p avers =>
    cases hr : s.collecting p with
    | none => simp [Election.step, hr] at hstep
    | some r =>
      simp only [Election.step, hr, Option.ite_none_left_eq_some, Option.some.injEq] at hstep
      obtain ⟨_, rfl⟩ := hstep
      exact hinv.localBeacon hr avers
  | arrive q =>
    simp only [Election.step, Option.ite_none_right_eq_some, Option.some.injEq] at hstep
    obtain ⟨hq, rfl⟩ := hstep
    have hok := hinv.requests q hq
    refine hinv.setCalls fun c hc => ?_
    rcases List.mem_cons.mp hc with rfl | hold
    · exact ⟨hok.sender, hok.voter, ⟨s.time, le_rfl, rfl, hok.claimed⟩, by simp⟩
    · exact hinv.calls c hold
  | skewTest c =>
    simp only [Election.step, Option.ite_none_right_eq_some, Option.some.injEq] at hstep
    obtain ⟨⟨hc, _⟩, rfl⟩ := hstep
    exact hinv.skewTest hc
  | vote c =>
    simp only [Election.step, Option.ite_none_right_eq_some, Option.some.injEq] at hstep
    obtain ⟨⟨hc, htested⟩, rfl⟩ := hstep
    exact hinv.vote hc htested
  | callFails c =>
    simp only [Election.step, Option.ite_none_right_eq_some, Option.some.injEq] at hstep
    obtain ⟨_, rfl⟩ := hstep
    exact hinv.answerNo c (by simp [BeaconArgs.IsYes])
  | getReply r =>
    cases hrd : s.collecting r.req.sender with
    | none => simp [Election.step, hrd] at hstep
    | some rd =>
      simp only [Election.step, hrd, Option.ite_none_right_eq_some, Option.some.injEq] at hstep
      obtain ⟨⟨hmem, _⟩, rfl⟩ := hstep
      exact hinv.storeResult hrd fun hyes => ⟨r, hmem, rfl, rfl, hyes, rfl⟩
  | noReply p v queued =>
    cases hr : s.collecting p with
    | none => simp [Election.step, hr] at hstep
    | some r =>
      simp only [Election.step, hr, Option.some.injEq] at hstep
      subst hstep
      exact hinv.storeResult hr fun hyes => absurd rfl hyes.2
  | finishRound p =>
    cases hr : s.collecting p with
    | none => simp [Election.step, hr] at hstep
    | some r =>
      simp only [Election.step, hr] at hstep
      split at hstep
      · next remote own hremote hown =>
        simp only [Option.ite_none_right_eq_some, Option.some.injEq] at hstep
        obtain ⟨_, rfl⟩ := hstep
        exact hinv.finishRound hr hremote hown
      · cases hstep
  | amSyncSite p =>
    simp only [Election.step, Option.some.injEq] at hstep
    subst hstep
    exact hinv.callAmSyncSite p
  | resetState p =>
    simp only [Election.step, Option.some.injEq] at hstep
    subst hstep
    exact hinv.ubik_ResetState p
  | restart p =>
    simp only [Election.step, Option.some.injEq] at hstep
    subst hstep
    exact hinv.restart p

end Election

theorem election_inv {g : Group} {clocks : Clocks} {s : Election} (hs : (election g clocks).Reachable s) :
    s.Inv g clocks := by
  refine hs.invariant ?_ fun _ _ _ hinv hstep => hinv.step hstep
  rintro s ⟨t, rfl⟩
  exact Election.Inv.start t

theorem Election.Inv.backed_of_answers {g : Group} {clocks : Clocks} {s : Election} (hinv : s.Inv g clocks)
    (hmany : 1 < g.nServers) {p : Addr} (hsync : s.answersSyncSite g clocks p = true) :
    ∃ Q ⊆ g.members.toFinset, lib.ChairMajority g.members.toFinset g.magic Q ∧
      ∀ v ∈ Q, ∃ t, YesVote s.replies v p t ∧ clocks.read p s.time < t + SMALLTIME := by
  have hlt := now_lt_until_of_AmSyncSite (by omega) hsync
  obtain ⟨Q, hQ, hweight, hvotes⟩ := hinv.backed p (by omega)
  refine ⟨Q, hQ, hweight, fun v hv => ?_⟩
  obtain ⟨t, hvote, hle⟩ := hvotes v hv
  exact ⟨t, hvote, by omega⟩

theorem skew_margin : SMALLTIME + MAXSKEW + 1 < BIGTIME := by decide

theorem CastAt.voter_clock_lt {clocks : Clocks} {time : ℕ} {v p : Addr} {t : ℕ} (hcast : CastAt clocks time v p t)
    (hcovered : clocks.read p time < t + SMALLTIME) : clocks.read v time < t + BIGTIME := by
  obtain ⟨m, hm, hread, hskew⟩ := hcast
  have hrate := clocks.sameRate v p hm
  have hmargin := skew_margin
  omega

/-- At any moment of any run at most one server of the group answers that it is
sync site. -/
theorem at_most_one_sync_site {g : Group} {clocks : Clocks} {s : Election} (hs : (election g clocks).Reachable s)
    (hmany : 1 < g.nServers) {p q : Addr} (hp : s.answersSyncSite g clocks p = true)
    (hq : s.answersSyncSite g clocks q = true) : p = q := by
  have hinv := election_inv hs
  obtain ⟨P, hP, hPweight, hPvotes⟩ := hinv.backed_of_answers hmany hp
  obtain ⟨Q, hQ, hQweight, hQvotes⟩ := hinv.backed_of_answers hmany hq
  obtain ⟨v, hv⟩ := hPweight.inter_nonempty hP hQ hQweight
  obtain ⟨t, hpvote, hpcovered⟩ := hPvotes v (mem_of_mem_inter_left hv)
  obtain ⟨t', hqvote, hqcovered⟩ := hQvotes v (mem_of_mem_inter_right hv)
  by_contra hne
  have hpclock := (hinv.cast v p t hpvote).voter_clock_lt hpcovered
  have hqclock := (hinv.cast v q t' hqvote).voter_clock_lt hqcovered
  have hple := (hinv.promised v p t hpvote).1.trans (hinv.clock v)
  have hqle := (hinv.promised v q t' hqvote).1.trans (hinv.clock v)
  rcases hinv.separated v p q t t' hpvote hqvote hne with hlt | hlt <;> omega

/-- A run of three servers in which the magic host is elected: the hypotheses of
`at_most_one_sync_site` hold together. -/
theorem at_most_one_sync_site_elected :
    ∃ (g : Group) (clocks : Clocks) (s : Election) (p q : Addr), (election g clocks).Reachable s ∧ 1 < g.nServers ∧
      s.answersSyncSite g clocks p = true ∧ s.answersSyncSite g clocks q = true ∧ p = q := by
  let g : Group := ⟨[1, 2, 3], 1, by decide, by decide, by decide⟩
  let clocks := Clocks.ofOffsets 1 (by decide) fun _ => 0
  let req (v : Addr) : BeaconRequest := ⟨1, v, 0, false, 141, ⟨1, 1⟩, ⟨0, 1⟩⟩
  let voting (v : Addr) : List ElectionStep :=
    [.arrive (req v), .skewTest ⟨req v, 141, false⟩, .vote ⟨req v, 141, true⟩, .getReply ⟨req v, ⟨.ok, 141⟩⟩]
  have hrun : ((election g clocks).exec (Election.start clocks 0)
      ([.tick 141, .startRound 1 [2, 3] ⟨1, 1⟩ ⟨0, 1⟩, .localBeacon 1 ⟨1, 1⟩] ++ voting 2 ++ voting 3 ++ voting 1 ++
        [.finishRound 1])).any (fun s => s.answersSyncSite g clocks 1) = true := by decide +kernel
  obtain ⟨s, hs, hsync⟩ := (election g clocks).exists_reachable_of_exec _ ⟨0, rfl⟩ hrun
  exact ⟨g, clocks, s, 1, 1, hs, by decide, hsync, hsync, at_most_one_sync_site hs (by decide) hsync hsync⟩

/-- A server that has said yes says yes to no other one until `BIGTIME` later by its own clock, though messages are lost, late
or doubled and servers start again. -/
theorem votes_apart (g : Group) (clocks : Clocks) (s : Election) (hs : (election g clocks).Reachable s) (v p q : Addr) (t t' : ℕ)
    (hp : YesVote s.replies v p t) (hq : YesVote s.replies v q t') (hne : p ≠ q) : t + BIGTIME < t' ∨ t' + BIGTIME < t :=
  (election_inv hs).separated v p q t t' hp hq hne

/-- As long as a server answers that it is sync site, the servers of a majority refuse every other one, whatever it claims. -/
theorem majority_refuses_others (g : Group) (clocks : Clocks) (s : Election) (hs : (election g clocks).Reachable s)
    (hmany : 1 < g.nServers) (p : Addr) (hsync : s.answersSyncSite g clocks p = true) :
    ∃ Q ⊆ g.members.toFinset, lib.ChairMajority g.members.toFinset g.magic Q ∧
      ∀ v ∈ Q, ∀ q ∈ g.members, q ≠ p → ∀ astate astart avers atid,
        (beaconVote v q astate (clocks.read v s.time) astart avers atid (s.voter v)).2 = 0 := by
  have hinv := election_inv hs
  obtain ⟨Q, hQ, hweight, hvotes⟩ := hinv.backed_of_answers hmany hsync
  refine ⟨Q, hQ, hweight, fun v hv q hq hne astate astart avers atid => ?_⟩
  obtain ⟨t, hvote, hcovered⟩ := hvotes v hv
  obtain ⟨hmay, -⟩ | ⟨hzero, -⟩ := beaconVote_cases v q astate (clocks.read v s.time) astart avers atid (s.voter v)
  · -- the promise to the sync site has not expired by the clock of the voter
    have hclock := (hinv.cast v p t hvote).voter_clock_lt hcovered
    have hgap := (hinv.promised v p t hvote).gap_of_mayVoteFor hmay (Nat.ne_of_lt (g.valid q hq)) (Ne.symm hne)
    omega
  · exact hzero

def threeHosts : Group := ⟨[1, 2, 3], 1, by decide, by decide, by decide⟩

def oneClock : Clocks := .ofOffsets 1 (by decide) fun _ => 0

def voteRequest (p v : Addr) (round astart : ℕ) : BeaconRequest := ⟨p, v, round, false, astart, ⟨1, 1⟩, ⟨0, 1⟩⟩

/-- A beacon reaches its voter at once, and the reply its sender. -/
def voting (req : BeaconRequest) : List ElectionStep :=
  [.arrive req, .skewTest ⟨req, req.astart, false⟩, .vote ⟨req, req.astart, true⟩, .getReply ⟨req, ⟨.ok, req.astart⟩⟩]

theorem votes_apart_twice : ∃ s, (election threeHosts oneClock).Reachable s ∧
    YesVote s.replies 3 1 141 ∧ YesVote s.replies 3 2 300 ∧ (141 + BIGTIME < 300 ∨ 300 + BIGTIME < 141) := by
  have hrun : ((election threeHosts oneClock).exec (Election.start oneClock 0)
      ([.tick 141, .startRound 1 [3] ⟨1, 1⟩ ⟨0, 1⟩] ++ voting (voteRequest 1 3 0 141) ++
        [.tick 300, .startRound 2 [3] ⟨1, 1⟩ ⟨0, 1⟩] ++ voting (voteRequest 2 3 1 300))).any (fun s =>
        decide (⟨voteRequest 1 3 0 141, ⟨.ok, 141⟩⟩ ∈ s.replies ∧ ⟨voteRequest 2 3 1 300, ⟨.ok, 300⟩⟩ ∈ s.replies)) = true := by
    decide +kernel
  obtain ⟨s, hs, hvotes⟩ := (election threeHosts oneClock).exists_reachable_of_exec _ ⟨0, rfl⟩ hrun
  obtain ⟨hfirst, hsecond⟩ := of_decide_eq_true hvotes
  have hp : YesVote s.replies 3 1 141 := ⟨_, hfirst, rfl, rfl, by simp [BeaconArgs.IsYes], rfl⟩
  have hq : YesVote s.replies 3 2 300 := ⟨_, hsecond, rfl, rfl, by simp [BeaconArgs.IsYes], rfl⟩
  exact ⟨s, hs, hp, hq, votes_apart threeHosts oneClock s hs 3 1 2 141 300 hp hq (by decide)⟩

theorem majority_refuses_others_elected : ∃ s, (election threeHosts oneClock).Reachable s ∧
    s.answersSyncSite threeHosts oneClock 1 = true ∧
    ∃ Q ⊆ threeHosts.members.toFinset, lib.ChairMajority threeHosts.members.toFinset threeHosts.magic Q ∧
      ∀ v ∈ Q, ∀ q ∈ threeHosts.members, q ≠ 1 → ∀ astate astart avers atid,
        (beaconVote v q astate (oneClock.read v s.time) astart avers atid (s.voter v)).2 = 0 := by
  have hrun : ((election threeHosts oneClock).exec (Election.start oneClock 0)
      ([.tick 141, .startRound 1 [2, 3] ⟨1, 1⟩ ⟨0, 1⟩, .localBeacon 1 ⟨1, 1⟩] ++ voting (voteRequest 1 2 0 141) ++
        voting (voteRequest 1 3 0 141) ++ voting (voteRequest 1 1 0 141) ++ [.finishRound 1])).any
      (fun s => s.answersSyncSite threeHosts oneClock 1) = true := by decide +kernel
  obtain ⟨s, hs, hsync⟩ := (election threeHosts oneClock).exists_reachable_of_exec _ ⟨0, rfl⟩ hrun
  exact ⟨s, hs, hsync, majority_refuses_others threeHosts oneClock s hs (by decide) 1 hsync⟩

end dce.ubik
