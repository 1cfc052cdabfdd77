import Rafter.Node.Proposal
import Rafter.Refinement.Lifecycle

/-!
# Proposals refine the protocol

The functions of `Node/Proposal.lean`. A proposal appends one entry to the leader's log, the
protocol's `append`. What the membership commands derive is a successor of the effective
membership with the next configuration id, and the preflight check makes sure that no
configuration is uncommitted.

Results:

* `Node.Derived.next`: derived configurations follow the discipline of `MembershipConfig.Step`;
* `NodeOk.appendProposal`.
-/

namespace Rafter

open Protocol

variable {initial : MembershipConfig} {s : Ghost} {i : NodeId} {n : Node}

/-! ## Client proposals -/

theorem NodeOk.appendProposal (hI : (raftScheme initial).Inv s) (h : NodeOk initial i s n)
    (hr : n.role = .leader) (proposal : ClientProposalInput) :
    Reaches initial i s (n.appendProposal proposal) := by
  obtain ⟨s', hs, h'⟩ := h.append hI hr
    (e := { term := n.currentTerm, kind := .application proposal.payload })
    (NodeOk.appendable_of_not_configuration rfl rfl)
  refine .of_steps hs ?_
  unfold Node.appendProposal
  cases proposal.proposalId with
  | none => exact .of_node h' (by simp)
  | some id =>
    refine .of_core h' rfl fun x hx => ?_
    obtain rfl := List.mem_singleton.1 hx
    trivial

/-! ## Derived configurations -/

/-- What the membership commands derive from the effective membership. -/
inductive Node.Derived (n : Node) : ConfigurationEntry → Prop where
  | learners {current target : MembershipSet} (he : n.effectiveMembership = .stable current)
      (hv : current.voters = target.voters) : n.Derived (.stable n.nextConfigurationId target)
  | enter {current target : MembershipSet} (he : n.effectiveMembership = .stable current) :
      n.Derived (.joint n.nextConfigurationId ⟨current, target⟩)
  | leave {joint : JointMembership} (he : n.effectiveMembership = .joint joint) :
      n.Derived (.stable n.nextConfigurationId joint.new)

variable {barriers : List PromotionBarrier} {current : MembershipSet}

theorem Node.checkPromotions_ok {voters used : List NodeId}
    (hok : n.checkPromotions barriers voters = .ok used) :
    ∀ v ∈ voters, n.effectiveMembership.containsVoter v ∨
      n.effectiveMembership.containsLearner v ∧
        n.commitIndex ≤ n.leader.progress.matchIndexOf v := by
  induction voters generalizing used with
  | nil => simp
  | cons v voters ih =>
    rw [Node.checkPromotions] at hok
    by_cases hvoter : n.effectiveMembership.containsVoter v
    · rw [if_pos hvoter] at hok
      exact List.forall_mem_cons.2 ⟨.inl hvoter, ih hok⟩
    rw [if_neg hvoter] at hok
    by_cases hlearner : n.effectiveMembership.containsLearner v
    · rw [if_neg (by simp [hlearner])] at hok
      split at hok
      · simp at hok
      · dsimp only at hok
        split_ifs at hok with hstale hreached
        cases hrest : n.checkPromotions barriers voters with
        | error e => simp [hrest, Except.map] at hok
        | ok rest =>
          have hmatch := not_lt.1 hreached
          rw [not_not.1 hstale] at hmatch
          exact List.forall_mem_cons.2 ⟨.inr ⟨hlearner, hmatch⟩, ih hrest⟩
    · rw [if_pos (by simpa using hlearner)] at hok
      simp at hok

/-- Every new voter of a joint configuration that passes the check was a learner that has caught
up. -/
theorem Node.promotions_ok {id : ℕ} {target : MembershipSet}
    (hok : n.validateConfigurationPromotionBarriers
      (.joint id ⟨current, target⟩) barriers = .ok ()) :
    ∀ v ∈ target.voters, n.effectiveMembership.containsVoter v ∨
      n.effectiveMembership.containsLearner v ∧
        n.commitIndex ≤ n.leader.progress.matchIndexOf v := by
  unfold Node.validateConfigurationPromotionBarriers at hok
  split at hok
  · simp at hok
  · dsimp only at hok
    split at hok
    · simp at hok
    · rename_i used hused
      exact Node.checkPromotions_ok hused

/-- A derived configuration that passes the promotion check is a successor of the present one. -/
theorem Node.Derived.next {g : List LogEntry} {configuration : ConfigurationEntry}
    (h : Represents initial n g) (hd : n.Derived configuration)
    (hok : n.validateConfigurationPromotionBarriers configuration barriers = .ok ()) :
    (raftScheme initial).next ((raftScheme initial).configOf g)
      (configuration.configId, configuration.membershipConfig) := by
  have hm : ((raftScheme initial).configOf g).2 = n.effectiveMembership :=
    h.effectiveMembership_eq.symm
  have hid := h.nextConfigurationId_eq
  cases hd with
  | learners he hv =>
    refine ⟨by simp only [ConfigurationEntry.configId]; omega, ?_⟩
    rw [hm, he]
    exact .learners hv
  | leave he =>
    refine ⟨by simp only [ConfigurationEntry.configId]; omega, ?_⟩
    rw [hm, he]
    exact .leave
  | @enter current target he =>
    refine ⟨by simp only [ConfigurationEntry.configId]; omega, ?_⟩
    rw [hm, he]
    refine .enter ?_
    -- every voter of the new side passed as a voter or as a learner
    intro v hv
    have := (Node.promotions_ok hok v hv).imp_right And.left
    simpa [he, MembershipConfig.containsVoter, MembershipConfig.containsLearner] using this

theorem Node.preflight_ok (h : n.validateConfigurationProposalPreflight = .ok ()) :
    n.role = .leader ∧ n.uncommittedConfigurationIndexes = [] := by
  unfold Node.validateConfigurationProposalPreflight at h
  split_ifs at h with hr
  refine ⟨not_not.1 hr, ?_⟩
  cases ht : n.leader.pendingTransfer with
  | some transfer => simp [ht] at h
  | none =>
    rw [ht] at h
    cases hu : n.uncommittedConfigurationIndexes with
    | nil => rfl
    | cons index rest => simp [hu] at h

/-! ## The commands -/

/-- A guard of a `do` block that was passed. -/
theorem guard_ok {ε α : Type} {c : Prop} [Decidable c] {e : ε} {f : PUnit → Except ε α} {a : α}
    (h : (if c then throw e >>= f else f ⟨⟩) = .ok a) : ¬ c ∧ f ⟨⟩ = .ok a := by
  split_ifs at h with hc
  · exact absurd h (by simp [throw, throwThe, MonadExceptOf.throw, bind, Except.bind])
  · exact ⟨hc, h⟩

theorem Node.stableEffectiveMembership_ok (h : n.stableEffectiveMembership = .ok current) :
    n.effectiveMembership = .stable current := by
  unfold Node.stableEffectiveMembership at h
  split at h
  · rename_i m hm
    rw [hm, Except.ok.inj h]
  · simp at h

theorem validatedDerivedMembership_ok {r : Except MembershipValidationError MembershipSet}
    {m : MembershipSet} (h : Node.validatedDerivedMembership r = .ok m) : r = .ok m := by
  unfold Node.validatedDerivedMembership at h
  split at h
  · rw [Except.ok.inj h]
  · simp at h

/-- Sorting the voters of a membership does nothing. -/
theorem MembershipSet.insertionSort_voters (m : MembershipSet) :
    m.voters.insertionSort (· ≤ ·) = m.voters :=
  (List.Pairwise.imp (fun h => Nat.le_of_lt h) m.voters_sorted).insertionSort_eq

end Rafter
