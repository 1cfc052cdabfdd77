import Rafter.Types.Message

/-!
# The machine ranges of wire values

Terms, indexes and ids are `u64` in the source and natural numbers here. `InRange` says of a value
that its numbers are the source's: every Rust value is in range.
-/

namespace Rafter

theorem le_u64Max_iff {n : ℕ} : n ≤ u64Max ↔ n < 256 ^ 8 := by
  unfold u64Max
  omega

namespace MembershipSet

/-- The numbers have 64 bits. -/
def InRange (m : MembershipSet) : Prop :=
  (∀ n ∈ m.voters, n ≤ u64Max) ∧ ∀ n ∈ m.learners, n ≤ u64Max

instance (m : MembershipSet) : Decidable m.InRange := inferInstanceAs (Decidable (_ ∧ _))

end MembershipSet

namespace MembershipConfig

/-- The numbers have 64 bits. -/
def InRange : MembershipConfig → Prop
  | stable s => s.InRange
  | joint j => j.old.InRange ∧ j.new.InRange

instance : (c : MembershipConfig) → Decidable c.InRange
  | stable s => inferInstanceAs (Decidable s.InRange)
  | joint _ => inferInstanceAs (Decidable (_ ∧ _))

end MembershipConfig

namespace LogEntryKind

/-- The numbers have 64 bits. -/
def InRange : LogEntryKind → Prop
  | application _ => True
  | configuration c => c.configId ≤ u64Max ∧ c.membershipConfig.InRange
  | noop => True

instance : (k : LogEntryKind) → Decidable k.InRange
  | application _ => inferInstanceAs (Decidable True)
  | configuration _ => inferInstanceAs (Decidable (_ ∧ _))
  | noop => inferInstanceAs (Decidable True)

end LogEntryKind

namespace LogEntry

/-- The numbers have 64 bits. -/
def InRange (e : LogEntry) : Prop := e.term ≤ u64Max ∧ e.kind.InRange

instance (e : LogEntry) : Decidable e.InRange := inferInstanceAs (Decidable (_ ∧ _))

end LogEntry

namespace CommittedConfiguration

/-- The numbers have 64 bits. -/
def InRange (c : CommittedConfiguration) : Prop := c.index ≤ u64Max ∧ c.configId ≤ u64Max

instance (c : CommittedConfiguration) : Decidable c.InRange := inferInstanceAs (Decidable (_ ∧ _))

end CommittedConfiguration

namespace SnapshotCommittedConfiguration

/-- The numbers have 64 bits. -/
def InRange (c : SnapshotCommittedConfiguration) : Prop :=
  (∀ configuration ∈ c.configuration, configuration.InRange) ∧ c.membership.InRange

instance (c : SnapshotCommittedConfiguration) : Decidable c.InRange :=
  inferInstanceAs (Decidable (_ ∧ _))

end SnapshotCommittedConfiguration

namespace RaftSnapshotMetadata

/-- The numbers have 64 bits. -/
def InRange (m : RaftSnapshotMetadata) : Prop :=
  m.writerId ≤ u64Max ∧ m.lastIncludedIndex ≤ u64Max ∧ m.lastIncludedTerm ≤ u64Max ∧
    m.hardStateTerm ≤ u64Max ∧ ∀ committed ∈ m.committedConfiguration, committed.InRange

instance (m : RaftSnapshotMetadata) : Decidable m.InRange :=
  inferInstanceAs (Decidable (_ ∧ _ ∧ _ ∧ _ ∧ _))

end RaftSnapshotMetadata

namespace Message

/-- The numbers have 64 bits. -/
def InRange : Message → Prop
  | appendEntries m => m.term ≤ u64Max ∧ m.leaderId ≤ u64Max ∧ m.prevLogIndex ≤ u64Max ∧
      m.prevLogTerm ≤ u64Max ∧ (∀ e ∈ m.entries, e.InRange) ∧ m.leaderCommit ≤ u64Max ∧
      m.sequence ≤ u64Max
  | appendEntriesResponse m => m.term ≤ u64Max ∧ m.followerId ≤ u64Max ∧
      m.matchIndex ≤ u64Max ∧ m.sequence ≤ u64Max
  | installSnapshot m => m.term ≤ u64Max ∧ m.leaderId ≤ u64Max ∧ m.metadata.InRange
  | installSnapshotChunk m => m.term ≤ u64Max ∧ m.leaderId ≤ u64Max ∧ m.transferId ≤ u64Max ∧
      m.metadata.InRange ∧ m.totalPayloadLen ≤ u64Max ∧ m.applicationPayloadCrc32 < 2 ^ 32 ∧
      m.offset ≤ u64Max
  | installSnapshotResponse m => m.term ≤ u64Max ∧ m.followerId ≤ u64Max ∧
      m.lastIncludedIndex ≤ u64Max ∧ (∀ id ∈ m.transferId, id ≤ u64Max) ∧ m.nextOffset ≤ u64Max
  | preVote m | requestVote m => m.term ≤ u64Max ∧ m.candidateId ≤ u64Max ∧
      m.lastLogIndex ≤ u64Max ∧ m.lastLogTerm ≤ u64Max
  | preVoteResponse m | requestVoteResponse m => m.term ≤ u64Max ∧ m.voterId ≤ u64Max
  | timeoutNow m => m.term ≤ u64Max ∧ m.leaderId ≤ u64Max

instance : (m : Message) → Decidable m.InRange
  | appendEntries _ => inferInstanceAs (Decidable (_ ∧ _ ∧ _ ∧ _ ∧ _ ∧ _ ∧ _))
  | appendEntriesResponse _ => inferInstanceAs (Decidable (_ ∧ _ ∧ _ ∧ _))
  | installSnapshot _ => inferInstanceAs (Decidable (_ ∧ _ ∧ _))
  | installSnapshotChunk _ => inferInstanceAs (Decidable (_ ∧ _ ∧ _ ∧ _ ∧ _ ∧ _ ∧ _))
  | installSnapshotResponse _ => inferInstanceAs (Decidable (_ ∧ _ ∧ _ ∧ _ ∧ _))
  | preVote _ | requestVote _ => inferInstanceAs (Decidable (_ ∧ _ ∧ _ ∧ _))
  | preVoteResponse _ | requestVoteResponse _ => inferInstanceAs (Decidable (_ ∧ _))
  | timeoutNow _ => inferInstanceAs (Decidable (_ ∧ _))

end Message

end Rafter
