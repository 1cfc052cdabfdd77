import Rafter.Types.Basic

/-!
# Memberships, configuration entries and log entries

`crates/rafter/src/types/membership.rs`, `types/configuration.rs` and `message/entry.rs`.

`MembershipConfig.Step` is the discipline that successive configurations of a log obey. It is not
a source function: the source reaches it through the membership commands of
`node/membership/change.rs`. Its use here is quorum intersection.

Results:

* `MembershipConfig.hasQuorum_inter`: quorums of one configuration intersect;
* `MembershipConfig.hasQuorum_inter_step`: so do those of a configuration and its successor;
* `MembershipConfig.hasQuorum_inter_siblings`: and those of two successors of one configuration.
-/

namespace Rafter

/-- `JointMembership`. -/
structure JointMembership where
  old : MembershipSet
  new : MembershipSet
deriving DecidableEq

/-- `MembershipConfig`. -/
inductive MembershipConfig where
  | stable (set : MembershipSet)
  | joint (joint : JointMembership)
deriving DecidableEq

namespace MembershipConfig

variable {c : MembershipConfig} {a b : List NodeId}

/-- `MembershipConfig::has_quorum`. -/
def hasQuorum : MembershipConfig → List NodeId → Bool
  | stable s, acks => s.hasQuorum acks
  | joint j, acks => j.old.hasQuorum acks && j.new.hasQuorum acks

/-- `MembershipConfig::voter_ids`. -/
def voterIds : MembershipConfig → List NodeId
  | stable s => s.voters
  | joint j => unionNodeIds j.old.voters j.new.voters

/-- `MembershipConfig::replica_ids`. -/
def replicaIds : MembershipConfig → List NodeId
  | stable s => s.replicaIds
  | joint j => unionNodeIds j.old.replicaIds j.new.replicaIds

/-- `MembershipConfig::contains_voter`. -/
def containsVoter : MembershipConfig → NodeId → Bool
  | stable s, n => decide (n ∈ s.voters)
  | joint j, n => decide (n ∈ j.old.voters) || decide (n ∈ j.new.voters)

/-- `MembershipConfig::contains_learner`. -/
def containsLearner : MembershipConfig → NodeId → Bool
  | stable s, n => decide (n ∈ s.learners)
  | joint j, n => decide (n ∈ j.old.learners) || decide (n ∈ j.new.learners)

/-- `MembershipConfig::contains_replica`. -/
def containsReplica (c : MembershipConfig) (n : NodeId) : Bool :=
  c.containsVoter n || c.containsLearner n

theorem mem_replicaIds {n : NodeId} : n ∈ c.replicaIds ↔ c.containsReplica n = true := by
  cases c <;>
    simp [replicaIds, MembershipSet.replicaIds, containsReplica, containsVoter, containsLearner]
  tauto

/-! ## Successive configurations -/

/-- What one configuration of a log may be followed by: a stable membership with the same voters,
a joint membership that keeps the present one as its old side and takes its new voters from its
replicas, or, after a joint membership, its new side. -/
inductive Step : MembershipConfig → MembershipConfig → Prop where
  | learners {s s' : MembershipSet} (hv : s.voters = s'.voters) : Step (stable s) (stable s')
  | enter {s s' : MembershipSet} (hv : ∀ n ∈ s'.voters, n ∈ s.voters ∨ n ∈ s.learners) :
      Step (stable s) (joint ⟨s, s'⟩)
  | leave {j : JointMembership} : Step (joint j) (stable j.new)

/-- The half-memberships whose majorities a quorum of the configuration contains. -/
def halves : MembershipConfig → List MembershipSet
  | stable s => [s]
  | joint j => [j.old, j.new]

theorem hasQuorum_iff : c.hasQuorum a ↔ ∀ h ∈ c.halves, h.hasQuorum a := by
  cases c <;> simp [hasQuorum, halves]

theorem hasQuorum_mono (hab : ∀ n ∈ a, n ∈ b) (ha : c.hasQuorum a) : c.hasQuorum b :=
  hasQuorum_iff.2 fun half hhalf =>
    MembershipSet.hasQuorum_mono hab (hasQuorum_iff.1 ha half hhalf)

/-- Quorums of configurations that share a half up to learners meet. -/
theorem hasQuorum_inter_of_halves {c' : MembershipConfig} (h h' : MembershipSet) (hc : h ∈ c.halves)
    (hc' : h' ∈ c'.halves) (hv : h.voters = h'.voters) (ha : c.hasQuorum a) (hb : c'.hasQuorum b) :
    ∃ n ∈ a, n ∈ b := by
  obtain ⟨n, -, hna, hnb⟩ :=
    MembershipSet.hasQuorum_inter hv (hasQuorum_iff.1 ha h hc) (hasQuorum_iff.1 hb h' hc')
  exact ⟨n, hna, hnb⟩

theorem hasQuorum_inter (ha : c.hasQuorum a) (hb : c.hasQuorum b) : ∃ n ∈ a, n ∈ b := by
  cases c with
  | stable s =>
    exact hasQuorum_inter_of_halves s s (by simp [halves]) (by simp [halves]) rfl ha hb
  | joint j =>
    exact hasQuorum_inter_of_halves j.old j.old (by simp [halves]) (by simp [halves]) rfl ha hb

theorem hasQuorum_inter_step {c' : MembershipConfig} (hs : Step c c') (ha : c.hasQuorum a)
    (hb : c'.hasQuorum b) : ∃ n ∈ a, n ∈ b := by
  cases hs with
  | @learners s s' hv =>
    exact hasQuorum_inter_of_halves s s' (by simp [halves]) (by simp [halves]) hv ha hb
  | @enter s s' =>
    exact hasQuorum_inter_of_halves s s (by simp [halves]) (by simp [halves]) rfl ha hb
  | @leave j =>
    exact hasQuorum_inter_of_halves j.new j.new (by simp [halves]) (by simp [halves]) rfl ha hb

/-- Every successor of one configuration has a half with the voters of one and the same half of
it. -/
theorem Step.exists_half (c : MembershipConfig) : ∃ h : MembershipSet, ∀ c', Step c c' →
    ∃ h' ∈ c'.halves, h'.voters = h.voters := by
  cases c with
  | stable s =>
    refine ⟨s, fun c' hs => ?_⟩
    cases hs with
    | @learners s s' hv => exact ⟨s', by simp [halves], hv.symm⟩
    | enter => exact ⟨s, by simp [halves], rfl⟩
  | joint j =>
    refine ⟨j.new, fun c' hs => ?_⟩
    cases hs with
    | leave => exact ⟨j.new, by simp [halves], rfl⟩

theorem hasQuorum_inter_siblings {c₁ c₂ : MembershipConfig} (h₁ : Step c c₁) (h₂ : Step c c₂)
    (ha : c₁.hasQuorum a) (hb : c₂.hasQuorum b) : ∃ n ∈ a, n ∈ b := by
  obtain ⟨h, hh⟩ := Step.exists_half c
  obtain ⟨g₁, hg₁, e₁⟩ := hh c₁ h₁
  obtain ⟨g₂, hg₂, e₂⟩ := hh c₂ h₂
  exact hasQuorum_inter_of_halves g₁ g₂ hg₁ hg₂ (e₁.trans e₂.symm) ha hb

end MembershipConfig

/-! ## Configuration and log entries -/

/-- `ConfigurationPhase`. -/
inductive ConfigurationPhase where
  | stable
  | joint
deriving DecidableEq

/-- `ConfigurationEntry`. -/
inductive ConfigurationEntry where
  | stable (configId : ℕ) (membership : MembershipSet)
  | joint (configId : ℕ) (membership : JointMembership)
deriving DecidableEq

/-- `ConfigurationEntry::config_id`. -/
def ConfigurationEntry.configId : ConfigurationEntry → ℕ
  | stable id _ => id
  | joint id _ => id

/-- `ConfigurationEntry::membership_config`. -/
def ConfigurationEntry.membershipConfig : ConfigurationEntry → MembershipConfig
  | stable _ m => .stable m
  | joint _ m => .joint m

/-- `CommittedConfiguration`. -/
structure CommittedConfiguration where
  index : ℕ
  configId : ℕ
deriving DecidableEq

/-- `PromotionBarrier`. -/
structure PromotionBarrier where
  learnerId : NodeId
  requiredMatchIndex : ℕ
deriving DecidableEq

/-- `LogEntryKind`. -/
inductive LogEntryKind where
  | application (payload : Payload)
  | configuration (entry : ConfigurationEntry)
  | noop
deriving DecidableEq

/-- `LogEntry`. -/
structure LogEntry where
  term : ℕ
  kind : LogEntryKind
deriving DecidableEq

namespace LogEntry

/-- `LogEntry::configuration_entry`. -/
def configurationEntry (e : LogEntry) : Option ConfigurationEntry :=
  match e.kind with
  | .configuration c => some c
  | _ => none

/-- `LogEntryKind::is_configuration`. -/
def isConfiguration (e : LogEntry) : Bool := e.configurationEntry.isSome

/-- `LogEntry::application_replication_bytes`. -/
def applicationReplicationBytes (payloadLen : ℕ) : ℕ := saturatingAdd payloadLen 64

/-- `LogEntry::max_application_payload_len`. -/
def maxApplicationPayloadLen (maxReplicationBytes : ℕ) : ℕ := maxReplicationBytes - 64

/-- `LogEntry::replication_bytes`. -/
def replicationBytes (e : LogEntry) : ℕ :=
  match e.kind with
  | .application payload => applicationReplicationBytes payload.length
  | .configuration c =>
    let members := match c.membershipConfig with
      | .stable m => m.voters.length + m.learners.length
      | .joint j => j.old.voters.length + j.old.learners.length
          + j.new.voters.length + j.new.learners.length
    saturatingAdd 64 (min (12 * members) u64Max)
  | .noop => 16

end LogEntry

end Rafter
