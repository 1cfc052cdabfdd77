import Rafter.Conduct.Office
import Rafter.Refinement.Election

/-!
# Campaigning

Votes, elections and ticks.

Results:

* `Node.handleRequestVote_performs` and the other messages of an election;
* `Node.assumeLeadership_settled`: a new leader commits what it may;
* `Node.tick_performs`.
-/

namespace Rafter

open Protocol

namespace Node

variable {c : Occasion} {n : Node} {b : Bool}
variable {request : VoteRequest} {v : NodeId}

/-! ## Votes -/

theorem castVote_acts (n : Node) (hinput : c.input = some (.message v (.requestVote request))) :
    n.Acts c b [] (n.castVote v request) := by
  unfold castVote
  dsimp only
  split_ifs with hgranted
  · have hterm : request.term = n.currentTerm := by
      simp only [Bool.and_eq_true, decide_eq_true_eq] at hgranted
      exact hgranted.1.1.1
    have hfree : n.persistent.votedFor.all (· = v) := by
      simp only [Bool.and_eq_true] at hgranted
      exact hgranted.2
    have hdeed : Deed c n [] { n with persistent.votedFor := some v, election.elapsed := 0 } :=
      { act := .vote n v request hinput hterm
        forward :=
          { config := rfl
            term := le_rfl
            vote := fun _ hsome => by
              obtain ⟨w, hw⟩ := Option.isSome_iff_exists.1 hsome
              rw [hw] at hfree ⊢
              exact congrArg some (of_decide_eq_true hfree).symm
            candidacy := fun hrole => .inl ⟨hrole, rfl⟩
            campaign := fun hlt => absurd hlt (lt_irrefl _)
            office := fun hrole _ => .inr ⟨hrole, fun h => h⟩ }
        unmoved := .inr ⟨rfl, .inl rfl⟩
        heeds := fun _ _ => .inr (.of_eq rfl rfl)
        gains := .of_eq rfl rfl
        licit := by simp }
    exact .of_left (hdeed.acts (fun _ => .inl ⟨rfl, le_rfl⟩) (by simp))
      (emit_acts _ rfl fun _ => ⟨request, hinput⟩)
  · refine n.emit_acts rfl fun h => ?_
    exact absurd h hgranted

theorem castVote_performs (n : Node) (hinput : c.input = some (.message v (.requestVote request))) :
    n.Performs c b [] (n.castVote v request) := by
  refine ⟨n.castVote_acts hinput, fun _ _ _ hI hc hn => hn.castVote hI (hc _ hinput),
    fun _ hs => Still.settled ?_ hs⟩
  unfold castVote
  dsimp only
  split_ifs
  · exact .of_progress rfl rfl
  · exact .refl n

theorem handleRequestVote_performs (n : Node)
    (hinput : c.input = some (.message v (.requestVote request))) :
    n.Performs c b [] (n.handleRequestVote v request) := by
  unfold handleRequestVote
  dsimp only
  split_ifs with hlt
  · exact (catchUp_performs hinput rfl hlt).then (castVote_performs _ hinput)
  · exact (Performs.refl n).then (castVote_performs _ hinput)

/-! ## Elections -/

theorem lead_acts (hrole : n.role = .candidate) : n.Acts c b [] ⟨n.leaderState, []⟩ := by
  have hdeed : Deed c n [] n.leaderState :=
    { act := .lead n hrole
      forward := ⟨rfl, le_rfl, fun _ _ => rfl, fun h => (by cases h), fun h => absurd h
        (lt_irrefl _),
        fun _ _ => .inl hrole⟩
      unmoved := .inr ⟨rfl, .inr rfl⟩
      heeds := fun h => by simp [hrole] at h
      gains := .append rfl rfl fun _ h => (by cases h)
      licit := by simp }
  exact hdeed.acts (fun _ => .inl ⟨rfl, le_rfl⟩) (by simp)

theorem assumeLeadership_settled (hn : n.Bounded) (hrole : n.role = .candidate) :
    n.assumeLeadership.node.Settled := by
  have hlead : Act ⟨n, none⟩ n [] n.leaderState := .lead n hrole
  have hfresh : n.leaderState.Fresh := fresh_appendLogEntry (n := { n with
    volatile.role := .leader
    volatile.leaderHint := some n.id
    volatile.incomingSnapshot := none
    election.elapsed := 0
    election.preVotes := []
    leader := {} }) ⟨hn.sound.snapshot_le, hn.sound.dispatched_le, hn.sound.commit_le,
      hn.sound.index⟩ (e := { term := n.currentTerm, kind := .noop }) rfl
  have hsettled : n.becomeLeader.node.Settled :=
    advanceCommitIndex_settled (hlead.bounded hn) rfl fun _ => .inr hfresh
  have hbounded := (advanceCommitIndex_acts (c := ⟨n, none⟩) (b := false) _).bounded
    (hlead.bounded hn)
  unfold assumeLeadership
  rw [Outcome.andThen_node]
  exact (broadcastReplication_performs (c := ⟨n, none⟩) _ _).rests hbounded hsettled

theorem assumeLeadership_performs (hrole : n.role = .candidate)
    (hquorum : n.hasEffectiveQuorum n.election.votes) :
    n.Performs c true [] n.assumeLeadership := by
  have hbroadcast := broadcastReplication_performs (c := c) n.becomeLeader.node .ensureContact
  have hlead : n.Refines c n.becomeLeader := fun _ _ _ hI _ hn => hn.becomeLeader hI hrole hquorum
  exact ⟨.of_left (lead_acts hrole) ((advanceCommitIndex_acts _).then hbroadcast.toActs),
    hlead.andThen hbroadcast.refines, fun hn _ => assumeLeadership_settled hn hrole⟩

theorem voteRequests_acts (n : Node) {message : Message}
    (h : message = .requestVote request ∨ message = .preVote request)
    (hlater : c.node.currentTerm < request.term) (hmax : request.term ≤ u64Max) :
    n.Acts c b [] ⟨n, n.voteRequests message⟩ := by
  refine n.emitAll_acts fun x hx => ?_
  obtain ⟨v, -, rfl⟩ := List.mem_map.1 hx
  rcases h with rfl | rfl
  · exact ⟨rfl, hlater, hmax⟩
  · exact ⟨rfl, hlater, hmax⟩

theorem campaign_performs {term : ℕ} (hinput : ∃ i, c.input = some i ∧ i.mayCampaign)
    (hrole : n.role ≠ .leader) (hnext : checkedNext n.currentTerm = some term)
    (hwhy : n.role = .preCandidate ∨ n.config.preVote = false ∨
      ∃ v m, c.input = some (.message v (.timeoutNow m))) :
    n.Performs c b [] ⟨n.candidateState term, []⟩ := by
  obtain ⟨hterm, hmax⟩ := checkedNext_spec hnext
  have hlt : n.currentTerm < (n.candidateState term).currentTerm := by
    show n.currentTerm < term
    omega
  have hdeed : Deed c n [] (n.candidateState term) :=
    { act := .campaign n term hinput hrole hnext hwhy
      forward := ⟨rfl, hlt.le, fun h => absurd h hlt.ne', fun _ => .inr hlt, fun _ _ => hmax,
        fun h => (by cases h)⟩
      unmoved := .inr ⟨rfl, .inl rfl⟩
      heeds := fun h => absurd h hrole
      gains := .of_eq rfl rfl
      licit := by simp }
  refine ⟨hdeed.acts (fun _ => .inl ⟨rfl, le_rfl⟩) (by simp), fun _ _ _ hI _ hn => ?_,
    fun _ _ => settled_of_role fun h => (by cases h)⟩
  obtain ⟨s', hs, hn'⟩ := hn.candidateState hI hrole hlt
  exact ⟨s', hs, hn', by simp⟩

theorem rest_performs (n : Node) (hinput : ∃ i, c.input = some i ∧ i.mayCampaign) :
    n.Performs c b [] ⟨{ n with election.elapsed := 0 }, []⟩ :=
  .of_act (.rest n hinput) rfl rfl (.refl _)

theorem startElection_performs (hinput : ∃ i, c.input = some i ∧ i.mayCampaign)
    (hnode : c.node.currentTerm ≤ n.currentTerm) (hrole : n.role ≠ .leader)
    (hwhy : n.role = .preCandidate ∨ n.config.preVote = false ∨
      ∃ v m, c.input = some (.message v (.timeoutNow m))) : n.Performs c true
        [] n.startElection := by
  unfold startElection
  split_ifs
  · exact n.rest_performs hinput
  · cases hnext : checkedNext n.currentTerm with
    | none => exact n.rest_performs hinput
    | some term =>
      obtain ⟨hterm, hmax⟩ := checkedNext_spec hnext
      have hlater : c.node.currentTerm < term := by omega
      refine .of_left (campaign_performs hinput hrole hnext hwhy) ?_
      refine Performs.then ⟨voteRequests_acts _ (.inl rfl) hlater hmax,
        fun _ _ _ _ _ hn => .of_node hn
        (outputOk_voteRequests fun _ => ⟨_, (hn.candidate rfl).cand, hn.rep.lastLogIndex_eq.symm,
          hn.rep.lastLogTerm_eq.symm⟩), fun _ hs => hs⟩ ?_
      split_ifs with hquorum
      · exact assumeLeadership_performs rfl hquorum
      · exact .refl _

theorem poll_performs (hinput : c.input = some .tick) (hrole : n.role ≠ .leader)
    (htimeout : n.effectiveElectionTimeout ≤ n.election.elapsed) :
    n.Performs c b [] ⟨{ n with
      volatile.role := .preCandidate
      volatile.leaderHint := none
      election.elapsed := 0
      election.preVotes := [n.id] }, []⟩ := by
  have hdeed : Deed c n [] _ :=
    { act := .poll n hinput hrole htimeout
      forward := ⟨rfl, le_rfl, fun _ _ => rfl, fun h => (by cases h), fun h => absurd h
        (lt_irrefl _),
        fun h => (by cases h)⟩
      unmoved := .inr ⟨rfl, .inl rfl⟩
      heeds := fun h => absurd h hrole
      gains := .of_eq rfl rfl
      licit := by simp }
  exact ⟨hdeed.acts (fun _ => .inl ⟨rfl, le_rfl⟩) (by simp),
    fun _ _ _ _ _ hn => .of_core (hn.setPreCandidate hrole) rfl (by simp),
    fun _ _ => settled_of_role fun h => (by cases h)⟩

theorem startPreVoteRound_performs (hinput : c.input = some .tick)
    (hnode : c.node.currentTerm ≤ n.currentTerm) (hrole : n.role ≠ .leader)
    (htimeout : n.effectiveElectionTimeout ≤ n.election.elapsed) :
    n.Performs c true [] n.startPreVoteRound := by
  have hmay : ∃ i, c.input = some i ∧ i.mayCampaign := ⟨.tick, hinput, rfl⟩
  unfold startPreVoteRound
  split_ifs
  · exact n.rest_performs hmay
  · cases hnext : checkedNext n.currentTerm with
    | none => exact n.rest_performs hmay
    | some term =>
      obtain ⟨hterm, hmax⟩ := checkedNext_spec hnext
      have hlater : c.node.currentTerm < term := by omega
      refine .of_left (poll_performs hinput hrole htimeout) ?_
      refine Performs.then ⟨voteRequests_acts _ (.inr rfl) hlater hmax,
        fun _ _ _ _ _ hn => .of_node hn
        (outputOk_voteRequests fun _ => trivial), fun _ hs => hs⟩ ?_
      split_ifs
      · exact startElection_performs hmay hnode (by simp [role]) (.inl rfl)
      · exact .refl _

theorem handleRequestVoteResponse_performs (n : Node) {response : VoteResponse}
    (hinput : c.input = some (.message v (.requestVoteResponse response))) :
    n.Performs c true [] (n.handleRequestVoteResponse v response) := by
  unfold handleRequestVoteResponse
  by_cases hlt : n.currentTerm < response.term
  · rw [if_pos hlt]
    exact catchUp_performs hinput rfl hlt
  rw [if_neg hlt]
  by_cases hother : n.role ≠ .candidate ∨ response.term ≠ n.currentTerm
  · rw [if_pos hother]
    exact .refl n
  rw [if_neg hother]
  push Not at hother
  by_cases hvoter : !n.isEffectiveVoter n.id
  · rw [if_pos hvoter]
    exact stepDown_performs (by simp [hother.1])
  rw [if_neg hvoter]
  dsimp only
  generalize hn₁ : (if response.voteGranted then
    { n with election.votes := insertId v n.election.votes } else n) = n₁
  have hquiet : (∀ {b}, n.Performs c b [] ⟨n₁, []⟩) ∧ n₁.role = n.role := by
    subst hn₁
    split_ifs with hgranted
    · refine ⟨⟨still_acts rfl (fun h => h) rfl, fun _ _ _ _ hc hn => ?_, fun _ _ =>
        settled_of_role (n := n) (by simp [hother.1])⟩, rfl⟩
      exact .of_node (hn.addVote hother.1 (hother.2 ▸ hc _ hinput hgranted)) (by simp)
    · exact ⟨.refl n, rfl⟩
  by_cases hquorum : n₁.hasEffectiveQuorum n₁.election.votes
  · rw [if_pos hquorum]
    exact .of_left hquiet.1 (assumeLeadership_performs (hquiet.2.trans hother.1) hquorum)
  · rw [if_neg hquorum]
    exact hquiet.1

theorem handlePreVoteResponse_performs (n : Node) {response : VoteResponse}
    (hinput : c.input = some (.message v (.preVoteResponse response))) (hnode : c.node = n) :
    n.Performs c true [] (n.handlePreVoteResponse v response) := by
  unfold handlePreVoteResponse
  cases hnext : checkedNext n.currentTerm with
  | none => exact .refl n
  | some proposedTerm =>
    have hproposed := checkedNext_eq_some hnext
    dsimp only
    by_cases hahead : proposedTerm < response.term
    · rw [if_pos hahead]
      exact catchUp_performs hinput rfl (by omega)
    rw [if_neg hahead]
    by_cases hdenied : !response.voteGranted ∧ n.currentTerm < response.term
    · rw [if_pos hdenied]
      exact catchUp_performs hinput rfl hdenied.2
    rw [if_neg hdenied]
    by_cases hother : n.role ≠ .preCandidate ∨ response.term ≠ proposedTerm
    · rw [if_pos hother]
      exact .refl n
    rw [if_neg hother]
    push Not at hother
    generalize hn₁ : (if response.voteGranted then
      { n with election.preVotes := insertId v n.election.preVotes } else n) = n₁
    have hquiet : (∀ {b}, n.Performs c b [] ⟨n₁, []⟩) ∧ n₁.role = n.role ∧
        n₁.currentTerm = n.currentTerm := by
      subst hn₁
      split_ifs
      · exact ⟨still_performs rfl rfl (fun h => h) rfl, rfl, rfl⟩
      · exact ⟨.refl n, rfl, rfl⟩
    have hrole := hquiet.2.1.trans hother.1
    by_cases hquorum : n₁.hasEffectiveQuorum n₁.election.preVotes
    · rw [if_pos hquorum]
      exact .of_left hquiet.1
        (startElection_performs ⟨_, hinput, rfl⟩ (by rw [hnode, hquiet.2.2]) (by simp [hrole])
          (.inl hrole))
    · rw [if_neg hquorum]
      exact hquiet.1

theorem handleTimeoutNow_performs (n : Node) {request : TimeoutNow}
    (hinput : c.input = some (.message v (.timeoutNow request))) (hnode : c.node = n) :
    n.Performs c true [] (n.handleTimeoutNow request.term) := by
  have htimeout : ∃ v m, c.input = some (.message v (.timeoutNow m)) := ⟨v, request, hinput⟩
  unfold handleTimeoutNow
  split_ifs
  · exact .refl n
  · have hfollow : n.Performs c false [] (n.becomeFollower request.term) :=
      follow_performs _ (.inr ⟨v, _, hinput, rfl⟩) (.inr (.inr htimeout))
    refine hfollow.then (startElection_performs ⟨_, hinput, rfl⟩ ?_ ?_ (.inr (.inr htimeout)))
    · rw [hnode]
      exact le_max_left _ _
    · simp [becomeFollower, followerState, role]

/-! ## Ticks -/

theorem tickLeadershipTransfer_performs (n : Node) : n.Performs c b []
    ⟨n.tickLeadershipTransfer, []⟩ := by
  unfold tickLeadershipTransfer
  cases h : n.leader.pendingTransfer with
  | none => exact .refl n
  | some transfer => exact still_performs rfl rfl (fun _ => by simp [h]) rfl

variable (hinput : c.input = some .tick)

include hinput

/-- A leader that lost its quorum forgets itself as the leader. -/
theorem abdicate_performs (hrole : n.role = .leader) :
    n.Performs c b [] ⟨{ (n.becomeFollower n.currentTerm).node with volatile.leaderHint := none },
      (n.becomeFollower n.currentTerm).outputs⟩ := by
  have hdown := (stepDown_performs (c := c) (n := n) (by simp [hrole])).then (b := b)
    (f := fun n' => ⟨{ n' with volatile.leaderHint := none }, []⟩)
    (.of_act (.forget _ hinput) rfl rfl (.refl _))
  simpa [Outcome.andThen] using hdown

theorem tickCheckQuorum_performs (hrole : n.role = .leader) :
    n.Performs c b [] ⟨n.tickCheckQuorum.1, n.tickCheckQuorum.2.getD []⟩ := by
  unfold tickCheckQuorum
  dsimp only
  split_ifs
  · exact .refl n
  · exact quiet_performs rfl rfl (fun h => h) (fun h => h) (.inr rfl) (.inl hinput)
  · exact quiet_performs rfl rfl (fun h => h) (fun h => h) (.inr rfl) (.inl hinput)
  · refine .of_left (m := { n with
      leader.quorumCheckElapsed := n.leader.quorumCheckElapsed + 1
      leader.quorumAcks :=
        (n.leader.quorumAcks.hasQuorumWithSelf n.effectiveMembership n.id).2 })
      (quiet_performs rfl rfl (fun h => h) (fun h => h) (.inr rfl) (.inl hinput)) ?_
    exact abdicate_performs hinput hrole

/-- The clocks of a leader, up to its quorum check. -/
theorem tickClocks_performs (hrole : n.role = .leader) {n₁ : Node} (hn₁ : n₁ = { n with
      leader.ticks := n.leader.ticks + 1
      leader.heartbeatElapsed := saturatingAdd n.leader.heartbeatElapsed 1 }) :
    n.Performs c b [] ⟨n₁.tickReadLease.tickLeadershipTransfer.tickCheckQuorum.1,
      n₁.tickReadLease.tickLeadershipTransfer.tickCheckQuorum.2.getD []⟩ := by
  have hrole₁ : n₁.role = .leader := by
    rw [hn₁]
    exact hrole
  have hclock : Act c n [] n₁ := by
    rw [hn₁]
    exact .clock n hinput hrole
  obtain ⟨lease, hlease⟩ := n₁.tickReadLease_node
  refine .of_act hclock (by rw [hn₁]; rfl) (by rw [hn₁]; rfl) ?_
  refine .of_act (.rearm n₁ hinput) (by rw [hlease]; rfl) (by rw [hlease]; rfl) ?_
  refine .of_left (tickLeadershipTransfer_performs _) (tickCheckQuorum_performs hinput ?_)
  rw [hlease]
  unfold tickLeadershipTransfer
  split
  · exact hrole₁
  · exact hrole₁

theorem tickLeader_performs (hrole : n.role = .leader) :
    n.Performs c true [] n.tickLeader := by
  have hclocks : ∀ {b}, n.Performs c b [] _ := tickClocks_performs hinput hrole rfl
  unfold tickLeader
  dsimp only
  generalize Node.tickCheckQuorum _ = checked at hclocks
  rcases checked with ⟨n₂, _ | outputs⟩
  · dsimp only
    split_ifs
    · exact hclocks
    · exact .of_left hclocks (broadcastReplication_performs _ _)
  · exact hclocks

theorem tick_performs (hnode : c.node = n) :
    n.Performs c true [] n.tick := by
  unfold tick
  by_cases hrole : n.role = .leader
  · rw [if_pos hrole]
    exact tickLeader_performs hinput hrole
  rw [if_neg hrole]
  refine .of_act (.elapse n hinput hrole) rfl rfl ?_
  dsimp only
  split_ifs with htimeout hpre
  · exact .refl _
  · exact startPreVoteRound_performs hinput (hnode ▸ le_rfl) hrole (not_lt.1 htimeout)
  · exact startElection_performs ⟨_, hinput, rfl⟩ (hnode ▸ le_rfl) hrole
      (.inr (.inl (by simpa using hpre)))

omit hinput

end Node

end Rafter
