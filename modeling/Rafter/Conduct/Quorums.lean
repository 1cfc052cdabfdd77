import Mathlib.Order.Bounds.Basic
import Rafter.Conduct.Step

/-!
# Quorum bookkeeping against sets

What the leader counts by slots is what memberships say of sets, for the commit candidate and for
acknowledgements marked under one membership and tested under another.

Results:

* `Node.advanceCommitIndex_exact`: the commit index moves to the candidate, or not at all;
* `QuorumBook.slots_as_sets`: quorum tests and reconciled rows after any calls.
-/

namespace Rafter

/-! ## The commit index -/

namespace Node

/-- The commit candidate of a leader is the greatest index a strict majority of the old voters, and
of the new ones while the membership is joint, has reached. The commit index moves to it when it is
above and its entry is of the leader's term, and stays otherwise. -/
theorem advanceCommitIndex_exact (n : Node) (hrole : n.role = .leader) :
    ∃ i, quorumReplicatedIndex n.reconcileReplicationProgress.leader.progress = some i ∧
      IsGreatest {j | n.effectiveMembership.Reached
        n.reconcileReplicationProgress.leader.progress.matchIndexOf j} i ∧
      n.advanceCommitIndex.node.commitIndex =
        if n.commitIndex < i ∧ n.termAt i = some n.currentTerm then i else n.commitIndex := by
  obtain ⟨i, hquorum, hgreatest⟩ :=
    isGreatest_quorumReplicatedIndex (reconcileReplicationProgress_isFor hrole)
  refine ⟨i, hquorum, hgreatest, ?_⟩
  rw [advanceCommitIndex_eq hquorum]
  split_ifs
  · exact (emitLoop_keeps _ _).commit
  · obtain ⟨progress, hnode⟩ := n.reconcileReplicationProgress_node
    rw [hnode]
    rfl

/-- Node 1 of three voters in office. -/
def leaderOfThree : Node := ((Node.new oneOfThree).calls (takeOffice.map .step)).node

theorem advanceCommitIndex_exact_leaderOfThree :
    leaderOfThree.role = .leader ∧
    ∃ i, quorumReplicatedIndex leaderOfThree.reconcileReplicationProgress.leader.progress = some i ∧
      IsGreatest {j | leaderOfThree.effectiveMembership.Reached
        leaderOfThree.reconcileReplicationProgress.leader.progress.matchIndexOf j} i ∧
      leaderOfThree.advanceCommitIndex.node.commitIndex =
        if leaderOfThree.commitIndex < i ∧
          leaderOfThree.termAt i = some leaderOfThree.currentTerm then i
        else leaderOfThree.commitIndex := by
  have hrole : leaderOfThree.role = .leader := by decide +kernel
  exact ⟨hrole, advanceCommitIndex_exact leaderOfThree hrole⟩

end Node

/-! ## Acknowledgements and rows over any memberships -/

/-- What is done with a leader's acknowledgements and progress. -/
inductive BookCall where
  | insert (nodeId : NodeId) (m : MembershipConfig)
  | hasQuorumWithSelf (m : MembershipConfig)
  | clear
  | reset (m : MembershipConfig) (followerNextIndex localMatchIndex : ℕ)
  | reconcile (m : MembershipConfig) (firstSendableIndex localMatchIndex : ℕ)
  | update (nodeId : NodeId) (f : Progress → Progress)

/-- The membership acknowledgements are read under. -/
def BookCall.ackMembership : BookCall → Option MembershipConfig
  | .insert _ m | .hasQuorumWithSelf m => some m
  | _ => none

/-- The membership rows are laid out for. -/
def BookCall.rowMembership : BookCall → Option MembershipConfig
  | .reset m _ _ | .reconcile m _ _ => some m
  | _ => none

/-- The call forgets the acknowledgements. -/
def BookCall.isClear : BookCall → Bool
  | .clear => true
  | _ => false

/-- The acknowledgements and rows of a leader. -/
structure QuorumBook where
  acks : AcknowledgementSet := {}
  progress : ProgressSet := default

namespace QuorumBook

variable {selfId : NodeId}

/-- One call on the book. -/
def call (selfId : NodeId) (b : QuorumBook) : BookCall → QuorumBook
  | .insert n m => { b with acks := b.acks.insert n m selfId }
  | .hasQuorumWithSelf m => { b with acks := (b.acks.hasQuorumWithSelf m selfId).2 }
  | .clear => { b with acks := b.acks.clear }
  | .reset m followerNextIndex localMatchIndex =>
    { b with progress := .reset m selfId followerNextIndex localMatchIndex }
  | .reconcile m firstSendableIndex localMatchIndex =>
    { b with
      progress := b.progress.reconcileMembership m selfId firstSendableIndex localMatchIndex }
  | .update n f => { b with progress := b.progress.modify n f }

/-- The book after the calls, from acknowledgements made for a membership or for none. -/
def run (selfId : NodeId) (start : Option MembershipConfig) (calls : List BookCall) : QuorumBook :=
  calls.foldl (call selfId) { acks := start.elim {} (.new · selfId) }

theorem run_append_singleton (start : Option MembershipConfig) (calls : List BookCall)
    (c : BookCall) : run selfId start (calls ++ [c]) = call selfId (run selfId start calls) c := by
  unfold run
  rw [List.foldl_append]
  rfl

/-- The node was inserted since the last clear, a replica of the membership in force then and of
every membership the acknowledgements were read under since. -/
def Counted (calls : List BookCall) (n : NodeId) : Prop :=
  ∃ before m after, calls = before ++ .insert n m :: after ∧ n ∈ m.replicaIds ∧
    ∀ c ∈ after, c.isClear = false ∧ ∀ m', c.ackMembership = some m' → n ∈ m'.replicaIds

theorem not_counted_nil (n : NodeId) : ¬ Counted [] n := by
  rintro ⟨before, m, after, h, -⟩
  simp at h

/-- One more call counts the node it inserts and keeps those its membership knows. -/
theorem counted_append_singleton {calls : List BookCall} {c : BookCall} {n : NodeId} :
    Counted (calls ++ [c]) n ↔ (∃ m, c = .insert n m ∧ n ∈ m.replicaIds) ∨
      (Counted calls n ∧ c.isClear = false ∧ ∀ m, c.ackMembership = some m → n ∈ m.replicaIds) := by
  constructor
  · rintro ⟨before, m, after, hcalls, hn, hafter⟩
    rcases List.eq_nil_or_concat after with rfl | ⟨after, last, rfl⟩
    · obtain ⟨-, hc⟩ := List.append_inj' hcalls rfl
      exact .inl ⟨m, List.singleton_inj.1 hc, hn⟩
    · rw [List.concat_eq_append] at hcalls hafter
      rw [← List.cons_append, ← List.append_assoc] at hcalls
      obtain ⟨hinit, hlast⟩ := List.append_inj' hcalls rfl
      obtain rfl := List.singleton_inj.1 hlast
      refine .inr ⟨⟨before, m, after, hinit, hn, fun c hc => hafter c ?_⟩, hafter c ?_⟩
      · exact List.mem_append_left _ hc
      · exact List.mem_append_right _ (List.mem_singleton.2 rfl)
  · rintro (⟨m, rfl, hn⟩ | ⟨⟨before, m, after, rfl, hn, hafter⟩, hlast⟩)
    · exact ⟨calls, m, [], rfl, hn, by simp⟩
    · refine ⟨before, m, after ++ [c], by simp, hn, fun c' hc' => ?_⟩
      rcases List.mem_append.1 hc' with hc' | hc'
      · exact hafter c' hc'
      · obtain rfl := List.mem_singleton.1 hc'
        exact hlast

theorem mem_nodes_run (start : Option MembershipConfig) (calls : List BookCall) (n : NodeId) :
    n ∈ (run selfId start calls).acks.nodes ↔ Counted calls n := by
  induction calls using List.reverseRecOn with
  | nil =>
    refine iff_of_false ?_ (not_counted_nil n)
    unfold run
    cases start with
    | none => simp
    | some m => simp
  | append_singleton calls c ih =>
    rw [run_append_singleton, counted_append_singleton, ← ih]
    cases c with
    | insert k m =>
      have hnodes := @AcknowledgementSet.mem_nodes_insert n selfId m (run selfId start calls).acks k
      simp only [call, hnodes, BookCall.ackMembership, BookCall.isClear, BookCall.insert.injEq]
      constructor
      · rintro ⟨hm, rfl | hn⟩
        · exact .inl ⟨m, ⟨rfl, rfl⟩, hm⟩
        · exact .inr ⟨hn, trivial, fun m' h => Option.some_inj.1 h ▸ hm⟩
      · rintro (⟨m', ⟨rfl, rfl⟩, hm⟩ | ⟨hn, -, hm⟩)
        · exact ⟨hm, .inl rfl⟩
        · exact ⟨hm m rfl, .inr hn⟩
    | hasQuorumWithSelf m =>
      have hnodes := @AcknowledgementSet.mem_nodes_refresh n selfId m (run selfId start calls).acks
      simp only [call, AcknowledgementSet.hasQuorumWithSelf, hnodes, BookCall.ackMembership,
        BookCall.isClear]
      simp
    | clear => simp [call, BookCall.isClear]
    | reset m a b => simp [call, BookCall.isClear, BookCall.ackMembership]
    | reconcile m a b => simp [call, BookCall.isClear, BookCall.ackMembership]
    | update k f => simp [call, BookCall.isClear, BookCall.ackMembership]

/-- The membership the rows are laid out for. -/
def laidOut (calls : List BookCall) : Option MembershipConfig :=
  calls.reverse.findSome? BookCall.rowMembership

theorem laidOut_append_singleton (calls : List BookCall) (c : BookCall) :
    laidOut (calls ++ [c]) = c.rowMembership.or (laidOut calls) := by
  unfold laidOut
  rw [List.reverse_append, List.reverse_singleton, List.singleton_append, List.findSome?_cons]
  cases c.rowMembership <;> rfl

/-- A node has a row when the membership the rows are laid out for knows it. -/
theorem mem_replicas_run (start : Option MembershipConfig) (calls : List BookCall) (n : NodeId) :
    n ∈ (run selfId start calls).progress.index.replicas ↔
      ∃ m, laidOut calls = some m ∧ n ∈ m.replicaIds := by
  induction calls using List.reverseRecOn with
  | nil =>
    refine iff_of_false ?_ (by simp [laidOut])
    exact List.not_mem_nil
  | append_singleton calls c ih =>
    rw [run_append_singleton, laidOut_append_singleton]
    cases c with
    | insert k m => exact ih
    | hasQuorumWithSelf m => exact ih
    | clear => exact ih
    | update k f =>
      show n ∈ ((run selfId start calls).progress.modify k f).index.replicas ↔ _
      rw [ProgressSet.modify_index]
      exact ih
    | reset m a b =>
      show n ∈ (MembershipIndex.new m selfId).replicas ↔ _
      rw [(MembershipIndex.new_isFor m selfId).replicas]
      simp [BookCall.rowMembership]
    | reconcile m a b =>
      show n ∈ ((run selfId start calls).progress.reconcileMembership m selfId a
        b).index.replicas ↔ _
      rw [(ProgressSet.reconcileMembership_isFor _ m selfId a b).replicas]
      simp [BookCall.rowMembership]

/-- After any calls, a quorum test under `m` answers what `m` says of the local node with the nodes
counted until then that `m` knows. A reconciliation with `m` keeps the row of every follower that
the rows were laid out for and `m` knows, gives every other follower of `m` a fresh probing row, and
leaves the local row at or above the local last index. -/
theorem slots_as_sets (selfId : NodeId) (start : Option MembershipConfig) (calls : List BookCall)
    (m : MembershipConfig) :
    (∃ acks : List NodeId,
      (∀ n, n ∈ acks ↔ n = selfId ∨ Counted calls n ∧ n ∈ m.replicaIds) ∧
      ((run selfId start calls).acks.hasQuorumWithSelf m selfId).1 = m.hasQuorum acks) ∧
    ∀ firstSendableIndex localMatchIndex,
      let before := (run selfId start calls).progress
      let after := before.reconcileMembership m selfId firstSendableIndex localMatchIndex
      (∀ n, n ∉ m.replicaIds → after.get n = none) ∧
      (∀ n, n ≠ selfId → n ∈ m.replicaIds →
        (∃ m₀, laidOut calls = some m₀ ∧ n ∈ m₀.replicaIds) →
        ∃ row, before.get n = some row ∧ after.get n = some row) ∧
      (∀ n, n ≠ selfId → n ∈ m.replicaIds →
        ¬ (∃ m₀, laidOut calls = some m₀ ∧ n ∈ m₀.replicaIds) →
        after.get n = some (.probing firstSendableIndex)) ∧
      (selfId ∈ m.replicaIds → ∃ row, after.get selfId = some row ∧
        localMatchIndex ≤ row.matchIndex ∧ localMatchIndex < row.nextIndex) := by
  constructor
  · refine ⟨selfId :: (run selfId start calls).acks.nodes.filter (· ∈ m.replicaIds), ?_, ?_⟩
    · intro n
      rw [List.mem_cons, List.mem_filter, mem_nodes_run, decide_eq_true_eq]
    · rw [AcknowledgementSet.hasQuorumWithSelf_eq]
      refine AcknowledgementSet.hasQuorum_congr fun n hn => ?_
      simp [hn]
  · intro firstSendableIndex localMatchIndex
    dsimp only
    have hget := ProgressSet.get_reconcileMembership (run selfId start calls).progress m selfId
      firstSendableIndex localMatchIndex
    refine ⟨fun n hn => ?_, fun n hself hn hknown => ?_, fun n hself hn hknown => ?_,
      fun hself => ?_⟩
    · rw [hget, if_neg hn]
    · obtain ⟨row, hrow⟩ := ProgressSet.exists_get ((mem_replicas_run start calls n).2 hknown)
      refine ⟨row, hrow, ?_⟩
      rw [hget, if_pos hn, ProgressSet.reconciledRow, hrow, if_neg hself]
      rfl
    · have hnone : (run selfId start calls).progress.get n = none :=
        ProgressSet.get_eq_none fun h => hknown ((mem_replicas_run start calls n).1 h)
      rw [hget, if_pos hn, ProgressSet.reconciledRow, hnone, if_neg hself, if_neg hself]
      rfl
    · rw [hget, if_pos hself, ProgressSet.reconciledRow, if_pos rfl]
      exact ⟨_, rfl, le_max_right _ _, Nat.lt_of_succ_le (le_max_right _ _)⟩

end QuorumBook

end Rafter
