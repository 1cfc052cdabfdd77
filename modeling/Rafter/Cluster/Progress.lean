import Rafter.Cluster.Hydration
import Rafter.Conduct.Order

/-!
# What the rows of a leader say

A row of a leader bounds what its follower holds: up to the match index the two logs agree for as
long as the follower is in the leader's term. The rows themselves stay in order, unless a snapshot
response reaches a leader whose follower has matched the boundary meanwhile.

Main results:

* `Cluster.progress_sound`: the match index of a row is backed by the follower's log;
* `Cluster.promoted_learner_caught_up`: a new voter holds what its leader has committed;
* `Node.rows_ordered`: in a run of timely inputs, every row has its match index below its next
  index and its next index within the log.
-/

namespace Rafter

open Protocol

variable {cfg : ClusterConfig} {c : Cluster} {s : Ghost}

/-! ## Match indexes -/

/-- Two nodes agree up to an index: on the entries both retain, and on the terms both know, those of
a snapshot boundary included. -/
structure Node.AgreesUpTo (m : ℕ) (n n' : Node) : Prop where
  entry : ∀ {k e e'}, k ≤ m → n.entryAt k = some e → n'.entryAt k = some e' → e = e'
  term : ∀ {k t t'}, k ≤ m → n.termAt k = some t → n'.termAt k = some t' → t = t'

theorem NodeOk.agreesUpTo {initial : MembershipConfig} {i j : NodeId} {n n' : Node} {m : ℕ}
    (h : NodeOk initial i s n) (h' : NodeOk initial j s n')
    (htake : (s.log i).take m = (s.log j).take m) : n.AgreesUpTo m n' where
  entry {k e e'} hk he he' := by
    obtain ⟨hpos, hat⟩ := h.getElem?_of_entryAt he
    obtain ⟨-, hat'⟩ := h'.getElem?_of_entryAt he'
    have hlt : k - 1 < m := by omega
    rw [← List.getElem?_take_of_lt hlt, htake, List.getElem?_take_of_lt hlt, hat'] at hat
    exact (Option.some_inj.1 hat).symm
  term {k t t'} hk ht ht' := by
    have hat := h.rep.termOf_of_termAt ht
    have hat' := h'.rep.termOf_of_termAt ht'
    rw [termOf_eq_of_take_eq htake hk, hat'] at hat
    exact (Option.some_inj.1 hat).symm

/-- Replication progress is sound: a follower in the leader's term holds the leader's log up to the
match index of its row, and a follower in an earlier term has matched nothing. -/
theorem Cluster.progress_sound (hc : Cluster.Reachable cfg c) {i f : NodeId} {row : Progress}
    (hi : (c.nodes i).role = .leader) (hrow : (c.nodes i).leader.progress.get f = some row) :
    ((c.nodes f).currentTerm = (c.nodes i).currentTerm →
      row.matchIndex ≤ (c.nodes f).lastLogIndex ∧
        (c.nodes i).AgreesUpTo row.matchIndex (c.nodes f)) ∧
    ((c.nodes f).currentTerm < (c.nodes i).currentTerm → row.matchIndex = 0) := by
  obtain ⟨s, hs⟩ := hc.sim
  have hleader := hs.nodes i
  have hfollower := hs.nodes f
  obtain ⟨hlen, hmatch⟩ := (hleader.leader hi).rows f row hrow
  obtain ⟨d, hd, -, hlog⟩ := hleader.exists_lead hs.inv hi
  constructor
  · intro hterm
    have hprefix : (s.log i).take row.matchIndex <+: s.log f := by
      rcases hmatch with hzero | ⟨j, hj, hack⟩
      · rw [hzero]
        exact List.nil_prefix
      · have := hs.inv.pre_prefix_of_ack hack hj (hfollower.term.trans hterm)
        rwa [State.pre_eq hd, hlog] at this
    have hle := hprefix.length_le
    rw [List.length_take_of_le hlen] at hle
    have htake := take_eq_of_isPrefix hprefix (List.length_take_of_le hlen).ge
    rw [List.take_take, min_self] at htake
    rw [hfollower.rep.lastLogIndex_eq]
    exact ⟨hle, hleader.agreesUpTo hfollower htake.symm⟩
  · intro hterm
    rcases hmatch with hzero | ⟨j, -, hack⟩
    · exact hzero
    · have := hs.inv.ack_term hack
      rw [hfollower.term] at this
      exact absurd hterm this.not_gt

/-- Nodes 1 and 2 agree up to the proposal that node 2 has acknowledged to node 1. -/
theorem Cluster.progress_sound_replicateOne :
    ((Cluster.after eagerCluster (electOne ++ replicateOne)).nodes 1).role = .leader ∧
      2 ≤ ((Cluster.after eagerCluster (electOne ++ replicateOne)).nodes 2).lastLogIndex ∧
      ((Cluster.after eagerCluster (electOne ++ replicateOne)).nodes 1).AgreesUpTo 2
        ((Cluster.after eagerCluster (electOne ++ replicateOne)).nodes 2) := by
  have hleader : ((Cluster.after eagerCluster (electOne ++ replicateOne)).nodes 1).role =
      .leader := by decide +kernel
  have hrow : (((Cluster.after eagerCluster (electOne ++ replicateOne)).nodes
      1).leader.progress.get 2).map (·.matchIndex) = some 2 := by decide +kernel
  have hterm : ((Cluster.after eagerCluster (electOne ++ replicateOne)).nodes 2).currentTerm =
      ((Cluster.after eagerCluster (electOne ++ replicateOne)).nodes 1).currentTerm := by
    decide +kernel
  obtain ⟨row, hget, hmatch⟩ := Option.map_eq_some_iff.1 hrow
  have hagree := (Cluster.progress_sound (Cluster.reachable_after (by decide +kernel)) hleader
    hget).1 hterm
  rw [hmatch] at hagree
  exact ⟨hleader, hagree⟩

/-! ## Promotions -/

theorem Node.AgreesUpTo.of_le {n n' : Node} {k m : ℕ} (h : n.AgreesUpTo m n') (hk : k ≤ m) :
    n.AgreesUpTo k n' :=
  ⟨fun hle => h.entry (hle.trans hk), fun hle => h.term (hle.trans hk)⟩

/-- Learners become voters only when caught up: a voter that a leader's configuration adds was a
learner, and if it is in the leader's term it holds the leader's log up to the leader's commit
index. Entries that a step takes from another leader end the office and are not the node's own. -/
theorem Cluster.promoted_learner_caught_up (hc : Cluster.Reachable cfg c) {i v : NodeId} {x : Input}
    (hleader : (c.nodes i).role = .leader)
    (hraw : ∀ configuration barriers, x ≠ .dangerousRawConfigurationProposal configuration barriers)
    (hown : ((c.nodes i).step x).node.role = .leader ∧
        ((c.nodes i).step x).node.currentTerm = (c.nodes i).currentTerm ∨
      ∀ v m, x = .message v m → m.isReplication = false)
    {k : ℕ} {e : LogEntry} {configuration : ConfigurationEntry} (hk : (c.nodes i).lastLogIndex < k)
    (he : ((c.nodes i).step x).node.entryAt k = some e)
    (hconfiguration : e.configurationEntry = some configuration)
    (hv : configuration.membershipConfig.containsVoter v)
    (hnew : ¬ (c.nodes i).effectiveMembership.containsVoter v) :
    (c.nodes i).effectiveMembership.containsLearner v ∧
      ((c.nodes v).currentTerm = (c.nodes i).currentTerm →
        (c.nodes i).commitIndex ≤ (c.nodes v).lastLogIndex ∧
          (c.nodes i).AgreesUpTo (c.nodes i).commitIndex (c.nodes v)) := by
  have hcleared : (c.nodes i).Cleared configuration := by
    rcases Node.cleared_of_step hleader hraw hown k e configuration he hconfiguration with hold | h
    · have := (Node.isSome_entryAt.1 (by rw [hold]; rfl)).2
      omega
    · exact h
  obtain ⟨hlearner, hmatch⟩ := hcleared v hv hnew
  refine ⟨hlearner, fun hterm => ?_⟩
  rcases Nat.eq_zero_or_pos (c.nodes i).commitIndex with hzero | hpos
  · obtain ⟨s, hs⟩ := hc.sim
    rw [hzero]
    exact ⟨Nat.zero_le _, (hs.nodes i).agreesUpTo (hs.nodes v) (by simp)⟩
  · obtain ⟨row, hrow, heq⟩ := matchIndexOf_eq (hpos.trans_le hmatch)
    obtain ⟨hle, hagrees⟩ := (progress_sound hc hleader hrow).1 hterm
    rw [heq] at hle hagrees
    exact ⟨hmatch.trans hle, hagrees.of_le hmatch⟩

/-- Learner 2 takes the log of node 1 and acknowledges it. -/
def Cluster.catchUpTwo : List Event := addTwo ++ [.deliver 1, .deliver 3]

theorem Cluster.promoted_learner_caught_up_two :
    2 ≤ ((after growingCluster catchUpTwo).nodes 2).lastLogIndex ∧
      ((after growingCluster catchUpTwo).nodes 1).AgreesUpTo 2
        ((after growingCluster catchUpTwo).nodes 2) := by
  have hcommit : ((after growingCluster catchUpTwo).nodes 1).commitIndex = 2 := by decide +kernel
  have hentry : (((after growingCluster catchUpTwo).nodes 1).step
      (.promoteLearner 2 ⟨2, 2⟩)).node.entryAt 3 = some ⟨1, .configuration (.joint 2
        ⟨Node.voterAndLearner, ⟨[1, 2], [], by decide, by decide, by decide, by decide⟩⟩)⟩ := by
    decide +kernel
  have hc : Reachable growingCluster (after growingCluster catchUpTwo) :=
    reachable_after (by decide +kernel)
  have hcaught := (promoted_learner_caught_up hc (v := 2) (by decide +kernel) (by simp)
    (.inr (by simp)) (by decide +kernel) hentry rfl (by decide +kernel) (by decide +kernel)).2
    (by decide +kernel)
  rwa [hcommit] at hcaught

/-! ## The order of a row -/

/-- In every run of calls whose inputs are timely, whatever the peers send, the row of a follower
has its match index below its next index and its next index at most one past the log, and a
follower in snapshot mode has not matched the snapshot boundary. -/
theorem Node.rows_ordered {n : Node} (h : n.Constructed) {cs : List Node.Call}
    (htimely : n.timelyCalls cs) {v : NodeId} {row : Progress} (hv : v ≠ (n.calls cs).node.id)
    (hrow : (n.calls cs).node.leader.progress.get v = some row) :
    row.matchIndex < row.nextIndex ∧ row.nextIndex ≤ (n.calls cs).node.lastLogIndex + 1 ∧
      ∀ offset, row.mode = .snapshot offset → row.matchIndex < (n.calls cs).node.snapshotIndex := by
  have hordered := (h.ordered.calls htimely).rows.rows v row hv hrow
  exact ⟨hordered.lt, hordered.le, hordered.mode⟩

namespace Cluster

/-- A snapshot of the first entry of the three voters. -/
def firstOfThree : RaftSnapshot :=
  { Node.learnerSnapshot with
    metadata := { Node.learnerSnapshot.metadata with
      lastIncludedIndex := 1
      committedConfiguration := some ⟨none, .stable threeVoters⟩ } }

end Cluster

/-- Node 1 takes office, compacts its first entry, and node 3 installs it. -/
def Node.compactAndInstall : List Node.Call :=
  takeOffice.map .step ++
    [.installLocalSnapshot Cluster.firstOfThree,
      .step (.message 3 (.installSnapshotResponse
        ⟨1, 3, true, 1, some Cluster.firstOfThree.transferId, 0⟩))]

theorem Node.rows_ordered_compactAndInstall :
    ∃ row, ((Node.new oneOfThree).calls compactAndInstall).node.leader.progress.get 3 = some row ∧
      row.matchIndex = 1 ∧ row.matchIndex < row.nextIndex := by
  have htimely : (Node.new oneOfThree).timelyCalls compactAndInstall := by decide +kernel
  have hrow : (((Node.new oneOfThree).calls compactAndInstall).node.leader.progress.get 3).map
      (·.matchIndex) = some 1 := by decide +kernel
  have hid : (3 : NodeId) ≠ ((Node.new oneOfThree).calls compactAndInstall).node.id := by
    decide +kernel
  obtain ⟨row, hget, hmatch⟩ := Option.map_eq_some_iff.1 hrow
  exact ⟨row, hget, hmatch, (Node.rows_ordered (.new oneOfThree) htimely hid hget).1⟩

namespace Cluster

/-- Node 1 leads term 1, compacts its first entry and sends node 3 the snapshot. It loses term 2 and
leads term 3, installs its snapshot on node 3 and replicates to it the entry of its new term. Only
then the chunk of term 1 reaches node 3, which refuses it in term 3. -/
def refuseOldChunk : List Event :=
  electOne ++ [.localSnapshot 1 firstOfThree, .input 1 .tick,
    .input 2 .tick, .deliver 8, .input 1 .tick, .deliver 12, .deliver 13,
    .deliver 15, .deliver 16, .deliverChunk 17 [], .deliver 20,
    .deliverChunk 7 [], .deliver 21, .deliver 23]

/-- The match index, the next index and the mode of node 3 at node 1. -/
def rowOfThree (c : Cluster) : Option (ℕ × ℕ × ProgressMode) :=
  ((c.nodes 1).leader.progress.get 3).map fun row => (row.matchIndex, row.nextIndex, row.mode)

/-- The refusal puts node 3 back into snapshot mode, with its next index below its match index,
although it has matched all of the leader's log. -/
theorem refused_chunk_regresses :
    ∃ c c', (initial eagerCluster).run refuseOldChunk = some c ∧ c.step (.deliver 22) = some c' ∧
      (c.nodes 1).role = .leader ∧ c.rowOfThree = some (2, 3, .replicate) ∧
      (c'.nodes 1).role = .leader ∧ c'.rowOfThree = some (2, 1, .snapshot 0) ∧
      (c'.nodes 1).snapshotIndex = 1 ∧ (c'.nodes 1).lastLogIndex = 2 := by
  have hsome : ((initial eagerCluster).run (refuseOldChunk ++ [.deliver 22])).isSome := by
    decide +kernel
  obtain ⟨hrun, hlast⟩ := run_after_append eagerCluster refuseOldChunk [.deliver 22] hsome
  rw [run, show (run · []) = some from rfl, Option.bind_fun_some] at hlast
  refine ⟨_, _, hrun, hlast, ?_, ?_, ?_, ?_, ?_, ?_⟩ <;> decide +kernel

end Cluster

end Rafter
