import Rafter.Cluster.Hydration
import Rafter.Cluster.Snapshots

/-!
# Losing office to a committed configuration

A leader that dispatches a committed configuration without itself among the voters becomes a
follower. Dispatch compares the leader with the configuration at the cursor, not with its effective
membership: after a restart with an old commit index the cursor passes configurations from before
the leader was admitted, and they depose it.

Results:

* `Cluster.deposed_only_if_removed_iff`: when, at any moment of any step of a run, only a removed
  leader is deposed;
* `Cluster.replayed_configuration_deposes`: a voter deposed by the configuration that made it a
  learner.
-/

namespace Rafter

open Protocol

namespace Node

variable {n : Node}

/-- One dispatched entry. -/
theorem emitEntry_leads_iff (hrole : n.role = .leader) (index : ℕ) (entry : LogEntry) :
    (n.emitEntry index entry).node.role = .leader ↔
      ∀ configuration, entry.kind = .configuration configuration →
        configuration.membershipConfig.containsVoter n.id := by
  unfold emitEntry
  dsimp only
  cases entry.kind with
  | application | noop => exact ⟨fun _ _ h => (by cases h), fun _ => hrole⟩
  | configuration configuration =>
    simp only [Outcome.andThen_node, stepDownIfRemoved]
    split_ifs with hout
    · refine ⟨fun h => (by cases h), fun h => ?_⟩
      have hin := h configuration rfl
      have hcontains : configuration.membershipConfig.containsVoter n.id = false := by
        simpa [Node.id] using hout.2
      rw [hin] at hcontains
      cases hcontains
    · refine ⟨fun _ other hother => ?_, fun _ => hrole⟩
      obtain rfl := LogEntryKind.configuration.inj hother
      by_contra hcontains
      exact hout ⟨hrole, by simpa [Node.id] using hcontains⟩

/-- The configurations that the next emission dispatches all have the node as a voter. -/
def DispatchesAsVoter (n : Node) : Prop :=
  ∀ k entry configuration, n.dispatchedIndex < k → k ≤ n.commitIndex →
    n.entryAt k = some entry → entry.kind = .configuration configuration →
    configuration.membershipConfig.containsVoter n.id

theorem emitLoop_leads_iff (hn : n.Sound) (hrole : n.role = .leader) {fuel : ℕ}
    (hfuel : n.commitIndex - n.dispatchedIndex ≤ fuel) :
    (emitLoop fuel n).node.role = .leader ↔ n.DispatchesAsVoter := by
  induction fuel generalizing n with
  | zero =>
    refine ⟨fun _ k _ _ hlow hhigh => ?_, fun _ => hrole⟩
    omega
  | succ fuel ih =>
    rw [emitLoop]
    by_cases hlt : n.dispatchedIndex < n.commitIndex
    · rw [if_pos hlt]
      have hsome : (n.entryAt (n.dispatchedIndex + 1)).isSome :=
        isSome_entryAt.2 ⟨Nat.lt_succ_of_le hn.snapshot_le, hlt.trans_le hn.commit_le⟩
      obtain ⟨entry, hentry⟩ := Option.isSome_iff_exists.1 hsome
      rw [hentry]
      dsimp only
      obtain ⟨hcommit, hcursor⟩ := n.emitEntry_cursor (n.dispatchedIndex + 1) entry
      have hkeeps := n.emitEntry_keeps (n.dispatchedIndex + 1) entry
      have hid : (n.emitEntry (n.dispatchedIndex + 1) entry).node.id = n.id :=
        congrArg NodeConfig.id hkeeps.config
      have hfirst := emitEntry_leads_iff hrole (n.dispatchedIndex + 1) entry
      rw [Outcome.andThen_node]
      by_cases hleads : (n.emitEntry (n.dispatchedIndex + 1) entry).node.role = .leader
      · rw [ih ((n.emitEntry_acts (c := ⟨n, none⟩) (b := false) entry hlt hentry).sound hn) hleads
          (by omega)]
        -- the entry at the cursor is fine, so what is left are the entries above it
        constructor
        · intro h k e configuration hlow hhigh he hkind
          by_cases hk : k = n.dispatchedIndex + 1
          · subst hk
            obtain rfl := Option.some_inj.1 (hentry.symm.trans he)
            exact hfirst.1 hleads configuration hkind
          · rw [← hid]
            exact h k e configuration (by omega) (by omega) ((hkeeps.entryAt k).trans he) hkind
        · intro h k e configuration hlow hhigh he hkind
          rw [hid]
          exact h k e configuration (by omega) (by omega) ((hkeeps.entryAt k).symm.trans he) hkind
      · refine ⟨fun h => absurd h (emitLoop_role_ne fuel hleads), fun h => ?_⟩
        refine absurd (hfirst.2 fun configuration hkind => ?_) hleads
        exact h _ entry configuration (Nat.lt_succ_self _) hlt hentry hkind
    · rw [if_neg hlt]
      refine ⟨fun _ k _ _ hlow hhigh => ?_, fun _ => hrole⟩
      omega

theorem emitCommittedOutputs_leads_iff (hn : n.Sound) (hrole : n.role = .leader) :
    n.emitCommittedOutputs.node.role = .leader ↔ n.DispatchesAsVoter :=
  emitLoop_leads_iff hn hrole le_rfl

end Node

variable {cfg : ClusterConfig} {c : Cluster}

/-- At any moment `n` of any step of a run, emission deposes a leader only if it is no voter of its
effective membership, exactly when such a voter dispatches no configuration that lacks it. -/
theorem Cluster.deposed_only_if_removed_iff (hc : Cluster.Reachable cfg c) {i : NodeId}
    {cause : Option Input} {trace : List Observation} {n : Node}
    (hpath : Path (Node.Act ⟨c.nodes i, cause⟩) (c.nodes i) trace n) (hrole : n.role = .leader) :
    (n.emitCommittedOutputs.node.role ≠ .leader → ¬ n.isEffectiveVoter n.id) ↔
      (n.isEffectiveVoter n.id → n.DispatchesAsVoter) := by
  obtain ⟨s, hs⟩ := hc.sim
  have hsound : n.Sound := hpath.invariant (fun hact => hact.move.sound) (hs.nodes i).rep.sound
  rw [← Node.emitCommittedOutputs_leads_iff hsound hrole]
  constructor
  · intro h hvoter
    by_contra hdeposed
    exact h hdeposed hvoter
  · intro h hdeposed hvoter
    exact hdeposed (h hvoter)

/-! ## A voter that is deposed -/

/-- The joint configuration reaches node 2, which restarts with commit index `commitIndex` and is
elected in term 2. -/
def electRestarted (commitIndex : ℕ) : List Event :=
  [.input 1 (.changeMembership grownMembership [⟨2, 3⟩]), .deliver 11, .restart 2 commitIndex none,
    .input 2 .tick, .deliver 14, .deliver 15]

/-- The leader that has not yet dispatched the configuration that made it a learner. -/
theorem Cluster.deposed_only_if_removed_iff_electRestarted :
    ((Cluster.after growingCluster (takeInTwo ++ electRestarted 3)).nodes 2).role = .leader ∧
    ((((Cluster.after growingCluster (takeInTwo ++ electRestarted 3)).nodes 2
        ).emitCommittedOutputs.node.role ≠ .leader →
      ¬ ((Cluster.after growingCluster (takeInTwo ++ electRestarted 3)).nodes 2).isEffectiveVoter
        ((Cluster.after growingCluster (takeInTwo ++ electRestarted 3)).nodes 2).id) ↔
      (((Cluster.after growingCluster (takeInTwo ++ electRestarted 3)).nodes 2).isEffectiveVoter
        ((Cluster.after growingCluster (takeInTwo ++ electRestarted 3)).nodes 2).id →
        ((Cluster.after growingCluster (takeInTwo ++ electRestarted 3)).nodes 2
          ).DispatchesAsVoter)) := by
  have hreach : Cluster.Reachable growingCluster
      (Cluster.after growingCluster (takeInTwo ++ electRestarted 3)) :=
    Cluster.reachable_after (by decide +kernel)
  have hrole : ((Cluster.after growingCluster (takeInTwo ++ electRestarted 3)).nodes 2).role =
      .leader := by decide +kernel
  have hpath : Path (Node.Act
      ⟨(Cluster.after growingCluster (takeInTwo ++ electRestarted 3)).nodes 2, none⟩)
      ((Cluster.after growingCluster (takeInTwo ++ electRestarted 3)).nodes 2) []
      ((Cluster.after growingCluster (takeInTwo ++ electRestarted 3)).nodes 2) := .refl _
  exact ⟨hrole, Cluster.deposed_only_if_removed_iff hreach hpath hrole⟩

/-- Node 1 takes the first entry of the leader of term 2. -/
def acknowledgeRestarted : List Event := takeInTwo ++ electRestarted 2 ++ [.deliver 16]

/-- An acknowledgement commits the first entry of the leader of term 2, and the configuration at
index 3, in which it was a learner, deposes it, a voter of its effective membership. -/
theorem Cluster.replayed_configuration_deposes : ∃ (cfg : ClusterConfig) (c c' : Cluster)
    (k : ℕ) (configuration : ConfigurationEntry) (previous : MembershipConfig),
    Cluster.Reachable cfg c ∧ c.step (.deliver k) = some c' ∧
      (c.nodes 2).role = .leader ∧ (c'.nodes 2).role = .follower ∧
      (c'.nodes 2).currentTerm = (c.nodes 2).currentTerm ∧
      .configurationCommitted 3 1 previous configuration ∈
        (c'.emitted.drop c.emitted.length).map (·.output) ∧
      configuration.membershipConfig.containsVoter 2 = false ∧
      (c'.nodes 2).isEffectiveVoter 2 := by
  obtain ⟨-, hrun⟩ := Cluster.run_after_append growingCluster acknowledgeRestarted [.deliver 18]
    (by decide +kernel)
  have hstep : (Cluster.after growingCluster acknowledgeRestarted).step (.deliver 18) =
      some (Cluster.after growingCluster (acknowledgeRestarted ++ [.deliver 18])) := by
    obtain ⟨c', hstep, hdone⟩ := Option.bind_eq_some_iff.1 hrun
    rw [hstep]
    exact hdone
  have hreach : Cluster.Reachable growingCluster
      (Cluster.after growingCluster acknowledgeRestarted) :=
    Cluster.reachable_after (by decide +kernel)
  have hbefore : ((Cluster.after growingCluster acknowledgeRestarted).nodes 2).role = .leader := by
    decide +kernel
  have hafter : ((Cluster.after growingCluster (acknowledgeRestarted ++ [.deliver 18])).nodes 2
      ).role = .follower := by decide +kernel
  have hterm : ((Cluster.after growingCluster (acknowledgeRestarted ++ [.deliver 18])).nodes 2
      ).currentTerm = ((Cluster.after growingCluster acknowledgeRestarted).nodes
        2).currentTerm := by
    decide +kernel
  have hemitted : Output.configurationCommitted 3 1 (.stable oneVoter)
      (.stable 1 Node.voterAndLearner) ∈
      ((Cluster.after growingCluster (acknowledgeRestarted ++ [.deliver 18])).emitted.drop
        (Cluster.after growingCluster acknowledgeRestarted).emitted.length).map (·.output) := by
    decide +kernel
  have hvoter : ((Cluster.after growingCluster (acknowledgeRestarted ++ [.deliver 18])).nodes 2
      ).isEffectiveVoter 2 := by decide +kernel
  exact ⟨growingCluster, _, _, 18, .stable 1 Node.voterAndLearner, .stable oneVoter, hreach, hstep,
    hbefore, hafter, hterm, hemitted, by decide, hvoter⟩

end Rafter
