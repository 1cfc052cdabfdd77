import Rafter.Refinement.Step

/-!
# Safety of cluster runs

What the refinement gives for every reachable cluster, in terms of the nodes and their outputs.

Main results:

* `Cluster.leader_unique`: election safety over a whole run;
* `Cluster.logs_match`: log matching on the retained entries of any two nodes;
* `Cluster.leader_holds_committed`: leader completeness;
* `Cluster.committed_outputs_agree`: state machine safety;
* `Cluster.membership_transitions`: the configurations of a log follow one another;
* `Cluster.splice_accepts_leader`: a leader's matching frame is never refused.
-/

namespace Rafter

open Protocol

variable {cfg : ClusterConfig} {c c' : Cluster} {s s' : Ghost}
variable {n : Node} {i : NodeId} {initial : MembershipConfig}

/-! ## Runs to evaluate

Three voters; node 1 is elected in term 1, replicates a proposal to node 2, and both apply it. And
a single voter that takes in a learner. -/

/-- Every node votes at its first tick, without a pre-vote round. -/
def eagerCluster : ClusterConfig :=
  .uniform threeVoters rfl
    { id := 0, staticMembership := .stable threeVoters, electionTimeoutTicks := 1
      electionTimeoutTicks_pos := by decide, requestedPreVote := false }

/-- Node 1 wins term 1 with the vote of node 2, and node 2 takes its first entry. -/
def electOne : List Event := [.input 1 .tick, .deliver 0, .deliver 2, .deliver 3, .deliver 5]

/-- A proposal is replicated, committed and applied on nodes 1 and 2. -/
def replicateOne : List Event :=
  [.input 1 (.clientProposal [7]), .deliver 6, .deliver 7, .input 1 .tick, .deliver 9]

/-- Node 2 wins term 2 with the vote of node 3. -/
def electTwo : List Event := [.input 2 .tick, .deliver 14, .deliver 15]

/-- Voter 1, and nodes that join later. -/
def growingCluster : ClusterConfig :=
  .uniform oneVoter rfl
    { id := 0, staticMembership := .stable oneVoter, electionTimeoutTicks := 1
      electionTimeoutTicks_pos := by decide, requestedPreVote := false }

/-- Node 1 elects itself and adds learner 2. -/
def addTwo : List Event := [.input 1 .tick, .input 1 (.addLearner 2)]

/-! ## Election safety -/

variable {j leaderId : NodeId} {e : LogEntry} {request : AppendEntries} {spliced : Outcome}

theorem Sim.leader_eq (h : Sim cfg c s) (h' : Sim cfg c' s') (he : Extends s s')
    (hi : (c.nodes i).role = .leader) (hj : (c'.nodes j).role = .leader)
    (ht : (c.nodes i).currentTerm = (c'.nodes j).currentTerm) : i = j := by
  obtain ⟨d, hd, hdi⟩ := ((h.nodes i).leader hi).lead
  obtain ⟨d', hd', hdj⟩ := ((h'.nodes j).leader hj).lead
  -- the leadership of the earlier cluster is still recorded in the later one
  obtain ⟨d'', hd'', hn, -⟩ := he.lead hd
  rw [ht, hd'] at hd''
  obtain rfl := Option.some_inj.1 hd''
  rw [← hdi, ← hdj, hn]

/-- Election safety: over a whole run, one term has at most one leader. -/
theorem Cluster.leader_unique {events later : List Event}
    (hrun : (Cluster.initial cfg).run events = some c) (hlater : c.run later = some c')
    {i j : NodeId} (hi : (c.nodes i).role = .leader) (hj : (c'.nodes j).role = .leader)
    (ht : (c.nodes i).currentTerm = (c'.nodes j).currentTerm) : i = j := by
  obtain ⟨s, hs, -⟩ := (sim_initial cfg).run hrun
  obtain ⟨s', hs', he⟩ := hs.run hlater
  exact hs.leader_eq hs' he hi hj ht

/-- Node 1 leads term 1 when it is elected and still after it has replicated a proposal. -/
theorem Cluster.leader_unique_replicateOne :
    ((Cluster.after eagerCluster electOne).nodes 1).role = .leader ∧
      ((Cluster.after eagerCluster (electOne ++ replicateOne)).nodes 1).role = .leader ∧
      (1 : NodeId) = 1 := by
  have hrun := Cluster.run_after_append eagerCluster electOne replicateOne (by decide +kernel)
  have h₁ : ((Cluster.after eagerCluster electOne).nodes 1).role = .leader := by decide +kernel
  have h₂ : ((Cluster.after eagerCluster (electOne ++ replicateOne)).nodes 1).role = .leader := by
    decide +kernel
  exact ⟨h₁, h₂, Cluster.leader_unique hrun.1 hrun.2 h₁ h₂ (by decide +kernel)⟩

/-! ## Log matching -/

/-- What a node retains at an index is what its full log holds there. -/
theorem NodeOk.getElem?_of_entryAt (h : NodeOk initial i s n) {k : ℕ} (he : n.entryAt k = some e) :
    n.snapshotIndex < k ∧ (s.log i)[k - 1]? = some e := by
  have hk : n.snapshotIndex < k := by
    by_contra hk
    rw [Node.entryAt, if_pos (by omega)] at he
    simp at he
  exact ⟨hk, by rw [← h.rep.entryAt_eq hk, he]⟩

/-- Log matching: where two nodes retain entries of one term at one index, they agree on every
entry up to there that both retain. -/
theorem Cluster.logs_match (hc : Cluster.Reachable cfg c) {i j : NodeId} {k m : ℕ}
    {e e' f f' : LogEntry} (hi : (c.nodes i).entryAt k = some e)
    (hj : (c.nodes j).entryAt k = some e') (ht : e.term = e'.term) (hm : m ≤ k)
    (hi' : (c.nodes i).entryAt m = some f) (hj' : (c.nodes j).entryAt m = some f') : f = f' := by
  obtain ⟨s, hs⟩ := hc.sim
  obtain ⟨hk, he⟩ := (hs.nodes i).getElem?_of_entryAt hi
  obtain ⟨-, he'⟩ := (hs.nodes j).getElem?_of_entryAt hj
  obtain ⟨hm₀, hf⟩ := (hs.nodes i).getElem?_of_entryAt hi'
  obtain ⟨-, hf'⟩ := (hs.nodes j).getElem?_of_entryAt hj'
  have htake := Scheme.Inv.take_eq_of_term_eq (hs.inv.log_valid i) (hs.inv.log_valid j) he he' ht
  have hat : ∀ l : List LogEntry, l[m - 1]? = (l.take (k - 1 + 1))[m - 1]? := fun l => by
    rw [List.getElem?_take_of_lt (by omega)]
  rw [hat, htake, ← hat, hf'] at hf
  exact (Option.some_inj.1 hf).symm

/-- Nodes 1 and 2 retain the same entries of term 1 after the proposal. -/
theorem Cluster.logs_match_replicateOne :
    ((Cluster.after eagerCluster (electOne ++ replicateOne)).nodes 1).entryAt 2 =
        some ⟨1, .application [7]⟩ ∧
      ((Cluster.after eagerCluster (electOne ++ replicateOne)).nodes 2).entryAt 2 =
        some ⟨1, .application [7]⟩ ∧
      (⟨1, .noop⟩ : LogEntry) = ⟨1, .noop⟩ := by
  have h₁ : ((Cluster.after eagerCluster (electOne ++ replicateOne)).nodes 1).entryAt 2 =
      some ⟨1, .application [7]⟩ := by decide +kernel
  have h₂ : ((Cluster.after eagerCluster (electOne ++ replicateOne)).nodes 2).entryAt 2 =
      some ⟨1, .application [7]⟩ := by decide +kernel
  exact ⟨h₁, h₂, Cluster.logs_match (Cluster.reachable_after (by decide +kernel)) h₁ h₂ rfl
    (m := 1) (by decide) (by decide +kernel) (by decide +kernel)⟩

/-! ## Leader completeness -/

/-- What a node knows to be committed is in the log of every later leader. -/
theorem Sim.committed_prefix_leader (h : Sim cfg c s) (h' : Sim cfg c' s') (he : Extends s s')
    (hj : (c'.nodes j).role = .leader) (ht : (c.nodes i).currentTerm ≤ (c'.nodes j).currentTerm) :
    (s.log i).take (c.nodes i).commitIndex <+: s'.log j := by
  obtain ⟨d, hd, -, hlog⟩ := (h'.nodes j).exists_lead h'.inv hj
  rw [← hlog]
  exact ((h.nodes i).commit.mono h.inv he ht).prefix_lead h'.inv hd

/-- Leader completeness. Let a node of term `T` have commit index `i` after some run; a leader
that raises its commit index is such a node. At every later point a leader of a term above `T` has
compacted an index up to `i` or holds the entry that the first node held there. -/
theorem Cluster.leader_holds_committed {events later : List Event}
    (hrun : (Cluster.initial cfg).run events = some c) (hlater : c.run later = some c')
    {i j : NodeId} (hj : (c'.nodes j).role = .leader)
    (ht : (c.nodes i).currentTerm < (c'.nodes j).currentTerm) {k : ℕ} (hk : 0 < k)
    (hkc : k ≤ (c.nodes i).commitIndex) :
    k ≤ (c'.nodes j).snapshotIndex ∨ ∃ e, (c'.nodes j).entryAt k = some e ∧
      ((c.nodes i).snapshotIndex < k → (c.nodes i).entryAt k = some e) := by
  obtain ⟨s, hs, -⟩ := (sim_initial cfg).run hrun
  obtain ⟨s', hs', he⟩ := hs.run hlater
  rcases Nat.lt_or_ge (c'.nodes j).snapshotIndex k with hsnap | hsnap
  · right
    have hp := hs.committed_prefix_leader hs' he hj ht.le
    have hlen := (hs.nodes i).rep.commit_le
    obtain ⟨e, hat⟩ : ∃ e, (s.log i)[k - 1]? = some e :=
      ⟨_, List.getElem?_eq_getElem (by omega)⟩
    have htake : ((s.log i).take (c.nodes i).commitIndex)[k - 1]? = some e := by
      rw [List.getElem?_take_of_lt (by omega), hat]
    refine ⟨e, ?_, fun hi => by rw [(hs.nodes i).rep.entryAt_eq hi, hat]⟩
    rw [(hs'.nodes j).rep.entryAt_eq hsnap]
    exact getElem?_of_isPrefix hp htake
  · exact .inl hsnap

/-- What node 1 committed in term 1 is in the log of node 2, the leader of term 2. -/
theorem Cluster.leader_holds_committed_electTwo :
    ((Cluster.after eagerCluster (electOne ++ replicateOne)).nodes 1).commitIndex = 2 ∧
      (2 ≤ ((Cluster.after eagerCluster ((electOne ++ replicateOne) ++ electTwo)).nodes
          2).snapshotIndex ∨
        ∃ e, ((Cluster.after eagerCluster ((electOne ++ replicateOne) ++ electTwo)).nodes
          2).entryAt 2 = some e ∧
          (((Cluster.after eagerCluster (electOne ++ replicateOne)).nodes 1).snapshotIndex < 2 →
            ((Cluster.after eagerCluster (electOne ++ replicateOne)).nodes 1).entryAt 2 =
              some e)) := by
  have hrun := Cluster.run_after_append eagerCluster (electOne ++ replicateOne) electTwo
    (by decide +kernel)
  exact ⟨by decide +kernel, Cluster.leader_holds_committed hrun.1 hrun.2 (by decide +kernel)
    (by decide +kernel) (by decide) (by decide +kernel)⟩

/-! ## State machine safety -/

/-- The log index and entry that a committed-entry output reports. -/
def Output.committedEntry : Output → Option (ℕ × LogEntry)
  | .apply index term payload _ => some (index, ⟨term, .application payload⟩)
  | .configurationCommitted index term _ configuration =>
    some (index, ⟨term, .configuration configuration⟩)
  | _ => none

theorem OutputOk.committedEntry {o : Output} (h : OutputOk initial i s o) {k : ℕ}
    (he : o.committedEntry = some (k, e)) : CommittedEntry s k e := by
  cases o with
  | apply | configurationCommitted =>
    obtain ⟨rfl, rfl⟩ := Prod.mk.inj (Option.some_inj.1 he)
    exact h
  | _ => exact absurd he (by simp [Output.committedEntry])

/-- State machine safety: all committed-entry outputs of a run for one index report one entry. -/
theorem Cluster.committed_outputs_agree (hc : Cluster.Reachable cfg c) {x y : Emission}
    (hx : x ∈ c.emitted) (hy : y ∈ c.emitted) {k : ℕ} {e e' : LogEntry}
    (hxe : x.output.committedEntry = some (k, e)) (hye : y.output.committedEntry = some (k, e')) :
    e = e' := by
  obtain ⟨s, hs⟩ := hc.sim
  exact ((hs.emitted x hx).committedEntry hxe).unique hs.inv
    ((hs.emitted y hy).committedEntry hye)

/-- Nodes 1 and 2 both apply the proposal at index 2. -/
theorem Cluster.committed_outputs_agree_replicateOne :
    (⟨1, some (.message 2 (.appendEntriesResponse
        { term := 1, followerId := 2, success := true, matchIndex := 2, sequence := 1 })),
        .apply 2 1 [7] none⟩ : Emission) ∈
          (Cluster.after eagerCluster (electOne ++ replicateOne)).emitted ∧
      (⟨2, some (.message 1 (.appendEntries
        { term := 1, leaderId := 1, prevLogIndex := 2, prevLogTerm := 1, entries := []
          leaderCommit := 2, sequence := 2 })), .apply 2 1 [7] none⟩ : Emission) ∈
          (Cluster.after eagerCluster (electOne ++ replicateOne)).emitted ∧
      (⟨1, .application [7]⟩ : LogEntry) = ⟨1, .application [7]⟩ := by
  refine ⟨?hx, ?hy, Cluster.committed_outputs_agree
    (Cluster.reachable_after (by decide +kernel)) ?hx ?hy rfl rfl⟩ <;> decide +kernel

/-! ## Membership transitions -/

/-- The configuration id and the membership at a node's snapshot boundary; a node without a
snapshot starts from its static membership. -/
def Node.boundaryConfiguration (n : Node) : ℕ × MembershipConfig :=
  ((n.snapshotCommittedConfigurationState.map (·.configId)).getD 0, n.effectiveBaseMembership)

/-- The configurations of a node's log, with their ids. -/
def Node.logConfigurations (n : Node) : List (ℕ × MembershipConfig) :=
  (n.persistent.log.filterMap (·.configurationEntry)).map fun c => (c.configId, c.membershipConfig)

theorem Represents.boundaryConfiguration_eq {g : List LogEntry} (h : Represents initial n g) :
    n.boundaryConfiguration = (raftScheme initial).configOf (g.take n.snapshotIndex) := by
  refine Prod.ext ?_ h.snapshotCommittedMembership_getD
  rw [Node.boundaryConfiguration, configOf_eq, Node.snapshotCommittedConfigurationState]
  cases hs : n.persistent.snapshot with
  | none => simp [Node.snapshotIndex, hs, lastConfiguration]
  | some snapshot =>
    rw [Node.snapshotIndex_eq hs, Option.bind_some,
      RaftSnapshotMetadata.committedConfigurationState, (h.snapshot snapshot hs).1.configuration]
    cases hl : lastConfiguration (g.take snapshot.metadata.lastIncludedIndex) <;>
      simp [configurationStateOf, hl]

/-- Membership transition discipline: from the snapshot boundary on, configuration ids grow and
every configuration is a successor of the one before it. -/
theorem Cluster.membership_transitions (hc : Cluster.Reachable cfg c) (i : NodeId) :
    List.IsChain (fun a b => a.1 < b.1 ∧ MembershipConfig.Step a.2 b.2)
      ((c.nodes i).boundaryConfiguration :: (c.nodes i).logConfigurations) := by
  obtain ⟨s, hs⟩ := hc.sim
  have hrep := (hs.nodes i).rep
  have hchain := (hs.inv.chained_of_valid (hs.inv.log_valid i)).drop (c.nodes i).snapshotIndex
  rw [← hrep.boundaryConfiguration_eq, ← hrep.log] at hchain
  rw [Node.logConfigurations, List.map_filterMap]
  exact hchain

/-- The learner's configuration follows the static one in the log of node 1. -/
theorem Cluster.membership_transitions_addTwo :
    ((Cluster.after growingCluster addTwo).nodes 1).logConfigurations.length = 1 ∧
      List.IsChain (fun a b => a.1 < b.1 ∧ MembershipConfig.Step a.2 b.2)
        (((Cluster.after growingCluster addTwo).nodes 1).boundaryConfiguration ::
          ((Cluster.after growingCluster addTwo).nodes 1).logConfigurations) :=
  ⟨by decide +kernel,
    Cluster.membership_transitions (Cluster.reachable_after (by decide +kernel)) 1⟩

/-! ## Splicing -/

/-- The node on which `handle_append_entries` calls `splice_entries_after`: it has taken over the
frame's term and leader. -/
def Node.receiver (n : Node) (leaderId : NodeId) (request : AppendEntries) : Node :=
  let adopted := if n.currentTerm < request.term ∨ n.role ≠ .follower then
      n.becomeFollower request.term
    else { node := n, outputs := [] }
  { adopted.node with election.elapsed := 0, volatile.leaderHint := some leaderId }

/-- The call of `splice_entries_after` that `handle_append_entries` makes. -/
def Node.spliceFrame (n : Node) (request : AppendEntries) : Except AppendRejection Outcome :=
  n.spliceEntriesAfter request.prevLogIndex request.entries
    (n.confirmedCommitIndex request
      (Node.requestMatchIndex request.prevLogIndex request.entries.length))

theorem Node.appendAsFollower_of_splice
    (hprev : Node.termAt { n with election.elapsed := 0, volatile.leaderHint := some leaderId }
      request.prevLogIndex = some request.prevLogTerm)
    (hok : Node.spliceFrame { n with election.elapsed := 0, volatile.leaderHint := some leaderId }
      request = .ok spliced) :
    ∃ n' outputs, n.appendAsFollower leaderId request =
      { node := n'
        outputs := outputs ++ [n'.acceptAppendEntries leaderId
          (Node.requestMatchIndex request.prevLogIndex request.entries.length)
          request.sequence] } := by
  unfold Node.spliceFrame at hok
  rw [Node.appendAsFollower, Node.appendAsFollowerBy]
  dsimp only
  rw [if_neg (not_not.2 hprev), hok]
  exact ⟨_, _, rfl⟩

/-- A frame that splices is acknowledged up to its last entry. -/
theorem Node.handleAppendEntries_of_splice (ht : n.currentTerm ≤ request.term)
    (hprev : (n.receiver leaderId request).termAt request.prevLogIndex = some request.prevLogTerm)
    (hok : (n.receiver leaderId request).spliceFrame request = .ok spliced) :
    ∃ n' outputs, n.handleAppendEntries leaderId request =
      { node := n'
        outputs := outputs ++ [n'.acceptAppendEntries leaderId
          (Node.requestMatchIndex request.prevLogIndex request.entries.length)
          request.sequence] } := by
  rw [Node.handleAppendEntries, Node.handleAppendEntriesBy, if_neg (Nat.not_lt.2 ht)]
  obtain ⟨n', outputs, happend⟩ := Node.appendAsFollower_of_splice hprev hok
  dsimp only
  rw [Outcome.andThen, happend, ← List.append_assoc]
  exact ⟨n', _, rfl⟩

/-- Splice validation never rejects a genuine leader: where the previous entry of an emitted frame
matches, `splice_entries_after` succeeds, and the frame is acknowledged. -/
theorem Cluster.splice_accepts_leader (hc : Cluster.Reachable cfg c) {x : Emission}
    (hx : x ∈ c.emitted) {r i : NodeId} {m : AppendEntries}
    (hm : x.output = .send r (.appendEntries m)) (ht : (c.nodes i).currentTerm ≤ m.term)
    (hprev : ((c.nodes i).receiver x.node m).termAt m.prevLogIndex = some m.prevLogTerm) :
    (∃ spliced, ((c.nodes i).receiver x.node m).spliceFrame m = .ok spliced) ∧
      ∃ n' outputs, (c.nodes i).handleAppendEntries x.node m =
        { node := n'
          outputs := outputs ++ [n'.acceptAppendEntries x.node
            (Node.requestMatchIndex m.prevLogIndex m.entries.length) m.sequence] } := by
  obtain ⟨s, hs⟩ := hc.sim
  have hok := hs.emitted x hx
  rw [hm] at hok
  obtain ⟨s', hsteps, hn, -⟩ := (hs.nodes i).adopt_term hs.inv m.term
  obtain ⟨hI', he, -⟩ := hs.inv.steps hsteps
  obtain ⟨hr, hterm⟩ := (c.nodes i).adopt_term (Nat.not_lt.2 ht)
  have hn' : NodeOk cfg.membership i s' ((c.nodes i).receiver x.node m) := hn.congr rfl
  obtain ⟨d, hd, hf⟩ := hn'.frameOk_of_termAt hI' (AppendOk.mono hs.inv he hok) hprev
  have hterm' : m.term = ((c.nodes i).receiver x.node m).currentTerm := hterm.symm
  obtain ⟨spliced, s'', hsp, -⟩ := hn'.spliceEntriesAfter hI' (hterm' ▸ hd) hr hterm' hf hprev
    (le_max_right _ _)
  exact ⟨⟨spliced, hsp⟩, Node.handleAppendEntries_of_splice ht hprev hsp⟩

/-- Node 1 keeps a proposal to itself; node 2 wins term 2, commits and adds learner 4. -/
def outvoteOne : List Event :=
  electOne ++ [.input 1 (.clientProposal [7]), .input 2 .tick, .deliver 8, .deliver 9, .deliver 11,
    .deliver 12, .deliver 13, .deliver 14, .input 2 (.addLearner 4), .deliver 15, .deliver 18]

/-- What node 2 then sends node 1. -/
def overwritingFrame : AppendEntries where
  term := 2
  leaderId := 2
  prevLogIndex := 1
  prevLogTerm := 1
  sequence := 2
  entries := [⟨2, .noop⟩, ⟨2, .configuration (.stable 1
    { threeVoters with learners := [4], learners_sorted := by decide, disjoint := by decide })⟩]
  leaderCommit := 2

/-- Node 1 takes the configuration over the proposal at index 2. -/
theorem Cluster.splice_accepts_leader_outvoteOne :
    ((Cluster.after eagerCluster outvoteOne).nodes 1).termAt 2 = some 1 ∧
      ∃ spliced, (((Cluster.after eagerCluster outvoteOne).nodes 1).receiver 2
        overwritingFrame).spliceFrame overwritingFrame = .ok spliced :=
  ⟨by decide +kernel, (Cluster.splice_accepts_leader (Cluster.reachable_after (by decide +kernel))
    (x := ⟨2, some (.message 1 (.appendEntriesResponse ⟨2, 1, true, 1, 2⟩)),
      .send 1 (.appendEntries overwritingFrame)⟩)
    (by decide +kernel) rfl (by decide +kernel) (by decide +kernel)).1⟩

end Rafter
