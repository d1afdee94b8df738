import Dce.Ubik.Election.System

open Finset

namespace dce.ubik

/-- `v` has voted yes for `p` when its own clock read `t`. -/
def YesVote (replies : List BeaconReply) (v p : Addr) (t : ℕ) : Prop :=
  ∃ r ∈ replies, r.req.voter = v ∧ r.req.sender = p ∧ r.args.IsYes ∧ r.args.voteTime = t

/-- There was a moment when the clock of `v` read `t` and the clock of `p` was at
most `MAXSKEW` behind. -/
def CastAt (clocks : Clocks) (time : ℕ) (v p : Addr) (t : ℕ) : Prop :=
  ∃ m ≤ time, clocks.read v m = t ∧ t ≤ clocks.read p m + MAXSKEW

/-- The state of a voter still protects a yes vote for `p` cast at `t`: another
host is only supported after `BIGTIME`. -/
def Promised (w : Voter) (p : Addr) (t : ℕ) : Prop :=
  t ≤ w.ubik_lastYesTime ∧
    (w.lastYesHost = p ∨ w.lastYesHost = noHost ∨ t + BIGTIME < w.ubik_lastYesTime)

/-- A claim to be sync site until `until` rests on unexpired votes of a majority. -/
def Backed (g : Group) (replies : List BeaconReply) (p : Addr) (untilTime : ℕ) : Prop :=
  ∃ Q ⊆ g.members.toFinset, lib.ChairMajority g.members.toFinset g.magic Q ∧
    ∀ v ∈ Q, ∃ t, YesVote replies v p t ∧ untilTime ≤ t + SMALLTIME

/-- A request was made by a server of the group on its own clock. -/
structure RequestOk (g : Group) (clocks : Clocks) (time : ℕ) (q : BeaconRequest) : Prop where
  sender : q.sender ∈ g.members
  voter : q.voter ∈ g.members
  claimed : q.astart ≤ clocks.read q.sender time

/-- A running call read its clock after the request was made. -/
structure CallOk (g : Group) (clocks : Clocks) (time : ℕ) (c : BeaconCall) : Prop where
  sender : c.req.sender ∈ g.members
  voter : c.req.voter ∈ g.members
  started : ∃ m ≤ time, clocks.read c.req.voter m = c.now ∧ c.req.astart ≤ clocks.read c.req.sender m
  skew : c.tested = true → c.now ≤ c.req.astart + MAXSKEW

/-- A vote collection asks other servers of the group, each of them once. -/
structure RoundOk (g : Group) (clocks : Clocks) (time : ℕ) (p : Addr) (r : Round) : Prop where
  sender : p ∈ g.members
  started : r.startTime ≤ clocks.read p time
  nodup : r.servers.Nodup
  asked : ∀ v ∈ r.servers, v ∈ g.members ∧ v ≠ p

/-- What holds of the group at every moment. -/
structure Election.Inv (g : Group) (clocks : Clocks) (s : Election) : Prop where
  requests : ∀ q ∈ s.requests, RequestOk g clocks s.time q
  calls : ∀ c ∈ s.calls, CallOk g clocks s.time c
  rounds : ∀ p r, s.collecting p = some r → RoundOk g clocks s.time p r
  results : ∀ p r, s.collecting p = some r → ∀ v args, r.results v = some args → args.IsYes →
    YesVote s.replies v p args.voteTime
  clock : ∀ v, (s.voter v).ubik_lastYesTime ≤ clocks.read v s.time
  cast : ∀ v p t, YesVote s.replies v p t → CastAt clocks s.time v p t
  promised : ∀ v p t, YesVote s.replies v p t → Promised (s.voter v) p t
  separated : ∀ v p q t t', YesVote s.replies v p t → YesVote s.replies v q t' → p ≠ q →
    t + BIGTIME < t' ∨ t' + BIGTIME < t
  backed : ∀ p, (s.candidate p).syncSiteUntil ≠ 0 → Backed g s.replies p (s.candidate p).syncSiteUntil

variable {replies : List BeaconReply} {r : BeaconReply} {time time' : ℕ} {v p : Addr} {t : ℕ}

theorem yesVote_cons :
    YesVote (r :: replies) v p t ↔
      (r.req.voter = v ∧ r.req.sender = p ∧ r.args.IsYes ∧ r.args.voteTime = t) ∨ YesVote replies v p t := by
  simp [YesVote]

theorem yesVote_cons_of_not_yes
    (hno : ¬r.args.IsYes) : YesVote (r :: replies) v p t ↔ YesVote replies v p t := by
  simp [yesVote_cons, hno]

theorem YesVote.later
    (hvote : YesVote replies v p t) : YesVote (r :: replies) v p t := yesVote_cons.mpr (Or.inr hvote)

theorem Backed.later {g : Group} {p : Addr} {untilTime : ℕ}
    (hbacked : Backed g replies p untilTime) : Backed g (r :: replies) p untilTime := by
  obtain ⟨Q, hQ, hweight, hvotes⟩ := hbacked
  refine ⟨Q, hQ, hweight, fun v hv => ?_⟩
  obtain ⟨t, hvote, hle⟩ := hvotes v hv
  exact ⟨t, hvote.later, hle⟩

theorem CastAt.later {clocks : Clocks} (hle : time ≤ time')
    (hcast : CastAt clocks time v p t) : CastAt clocks time' v p t := by
  obtain ⟨m, hm, hread, hskew⟩ := hcast
  exact ⟨m, hm.trans hle, hread, hskew⟩

theorem RequestOk.later {g : Group} {clocks : Clocks} (hle : time ≤ time') {q : BeaconRequest}
    (hok : RequestOk g clocks time q) : RequestOk g clocks time' q :=
  { hok with claimed := hok.claimed.trans (clocks.mono _ hle) }

theorem CallOk.later {g : Group} {clocks : Clocks} (hle : time ≤ time') {c : BeaconCall}
    (hok : CallOk g clocks time c) : CallOk g clocks time' c := by
  obtain ⟨m, hm, hread, hclaim⟩ := hok.started
  exact { hok with started := ⟨m, hm.trans hle, hread, hclaim⟩ }

theorem RoundOk.later {g : Group} {clocks : Clocks} (hle : time ≤ time') {p : Addr} {r : Round}
    (hok : RoundOk g clocks time p r) : RoundOk g clocks time' p r :=
  { hok with started := hok.started.trans (clocks.mono _ hle) }

theorem Promised.of_fresh {w v : Voter} {p : Addr} (hprom : Promised w p t)
    (htime : w.ubik_lastYesTime ≤ v.ubik_lastYesTime) (hhost : v.lastYesHost = noHost) : Promised v p t :=
  ⟨hprom.1.trans htime, Or.inr (Or.inl hhost)⟩

namespace Election

variable {g : Group} {clocks : Clocks} {s : Election}

theorem Inv.start (t : ℕ) : Inv g clocks (start clocks t) where
  requests := by simp [Election.start]
  calls := by simp [Election.start]
  rounds := by simp [Election.start]
  results := by simp [Election.start]
  clock := fun _ => le_rfl
  cast := by simp [Election.start, YesVote]
  promised := by simp [Election.start, YesVote]
  separated := by simp [Election.start, YesVote]
  backed := fun _ hne => absurd rfl hne

variable (hinv : Inv g clocks s)

include hinv

theorem Inv.tick {t : ℕ} (hle : s.time ≤ t) : Inv g clocks { s with time := t } where
  requests q hq := (hinv.requests q hq).later hle
  calls c hc := (hinv.calls c hc).later hle
  rounds p r hr := (hinv.rounds p r hr).later hle
  results := hinv.results
  clock v := (hinv.clock v).trans (clocks.mono v hle)
  cast v p t hvote := (hinv.cast v p t hvote).later hle
  promised := hinv.promised
  separated := hinv.separated
  backed := hinv.backed

theorem Inv.callAmSyncSite (p : Addr) : Inv g clocks (s.callAmSyncSite g clocks p) :=
  { hinv with
    backed := by
      intro q hne
      by_cases hq : q = p
      · subst hq
        simp only [Election.callAmSyncSite, Function.update_self, ubeacon_AmSyncSite_until] at hne ⊢
        exact hinv.backed q hne
      · simp only [Election.callAmSyncSite, Function.update_of_ne hq] at hne ⊢
        exact hinv.backed q hne }

theorem Inv.freshVoter (p : Addr) {w : Voter}
    (htime : w.ubik_lastYesTime = clocks.read p s.time) (hhost : w.lastYesHost = noHost) :
    Inv g clocks { s with voter := Function.update s.voter p w } :=
  { hinv with
    clock := by
      intro v
      by_cases hv : v = p
      · subst hv
        simp only [Function.update_self, htime, le_refl]
      · simpa only [Function.update_of_ne hv] using hinv.clock v
    promised := by
      intro v q t hvote
      have hprom := hinv.promised v q t hvote
      by_cases hv : v = p
      · subst hv
        simp only [Function.update_self]
        exact hprom.of_fresh (htime ▸ hinv.clock v) hhost
      · simpa only [Function.update_of_ne hv] using hprom }

theorem Inv.candidate (p : Addr) {c : Candidate} (huntil : c.syncSiteUntil ≠ 0 → Backed g s.replies p c.syncSiteUntil) :
    Inv g clocks { s with candidate := Function.update s.candidate p c } :=
  { hinv with
    backed := by
      intro q hne
      by_cases hq : q = p
      · subst hq
        simp only [Function.update_self] at hne ⊢
        exact huntil hne
      · simp only [Function.update_of_ne hq] at hne ⊢
        exact hinv.backed q hne }

theorem Inv.ubik_ResetState (p : Addr) : Inv g clocks (s.ubik_ResetState clocks p) :=
  (hinv.freshVoter p (w := uvote_ResetState (s.voter p) (clocks.read p s.time)) rfl rfl).candidate p (hinv.backed p)

theorem Inv.round (p : Addr) {r : Round} (hround : RoundOk g clocks s.time p r)
    (hresults : ∀ v args, r.results v = some args → args.IsYes → YesVote s.replies v p args.voteTime) :
    Inv g clocks { s with collecting := Function.update s.collecting p (some r) } :=
  { hinv with
    rounds := by
      intro q r' hr'
      by_cases hq : q = p
      · subst hq
        obtain rfl : r = r' := by simpa using hr'
        exact hround
      · exact hinv.rounds q r' (by simpa [hq] using hr')
    results := by
      intro q r' hr'
      by_cases hq : q = p
      · subst hq
        obtain rfl : r = r' := by simpa using hr'
        exact hresults
      · exact hinv.results q r' (by simpa [hq] using hr') }

theorem Inv.noRound (p : Addr) : Inv g clocks { s with collecting := Function.update s.collecting p none } := by
  have hold : ∀ q r, Function.update s.collecting p none q = some r → s.collecting q = some r := by
    intro q r hr
    by_cases hq : q = p
    · subst hq
      simp at hr
    · simpa [hq] using hr
  exact { hinv with
    rounds := fun q r hr => hinv.rounds q r (hold q r hr)
    results := fun q r hr => hinv.results q r (hold q r hr) }

theorem Inv.addRequests (new : List BeaconRequest)
    (hnew : ∀ q ∈ new, RequestOk g clocks s.time q) : Inv g clocks { s with requests := new ++ s.requests } :=
  { hinv with
    requests := fun q hq => (List.mem_append.mp hq).elim (hnew q) (hinv.requests q) }

theorem Inv.setCalls {calls : List BeaconCall}
    (hcalls : ∀ c ∈ calls, CallOk g clocks s.time c) : Inv g clocks { s with calls := calls } :=
  { hinv with calls := hcalls }

end Election

end dce.ubik
