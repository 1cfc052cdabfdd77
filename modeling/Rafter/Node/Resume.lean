import Rafter.Node.SnapshotReceive

/-!
# Resuming a persisted transfer

`crates/rafter/src/node/replication/snapshot/transfer.rs`: after a restart a runtime hands the node
the transfer that its snapshot store still holds in part.
-/

namespace Rafter

/-- `PendingSnapshotTransferResumeError`. -/
inductive PendingSnapshotTransferResumeError where
  | receivedPayloadTooLong (receivedBytes totalPayloadLen : ℕ)
  | transferIdMismatch (expected actual : SnapshotTransferId)
  | invalidMetadata
  | leaderNotAuthorized (leaderId : NodeId)
  | staleSnapshot (snapshotIndex transferLastIncludedIndex : ℕ)
  | completeTransferNotInstalled (lastIncludedIndex : ℕ)
deriving DecidableEq

/-- `PendingSnapshotTransfer::is_complete`. -/
def PendingSnapshotTransfer.isComplete (t : PendingSnapshotTransfer) : Bool :=
  decide (t.receivedLen = t.totalPayloadLen)

namespace Node

/-- `Node::resume_pending_snapshot_transfer`. -/
def resumePendingSnapshotTransfer (n : Node) (transfer : PendingSnapshotTransfer) :
    Except PendingSnapshotTransferResumeError Node :=
  let expected := snapshotTransferIdFromParts transfer.metadata transfer.totalPayloadLen
    transfer.applicationPayloadCrc32
  if transfer.totalPayloadLen < transfer.receivedLen then
    .error (.receivedPayloadTooLong transfer.receivedLen transfer.totalPayloadLen)
  else if transfer.transferId ≠ expected then
    .error (.transferIdMismatch expected transfer.transferId)
  else
    match n.validateSnapshotTransferHeader transfer.leaderId transfer.metadata n.currentTerm with
    | .error .invalidMetadata => .error .invalidMetadata
    | .error .leaderNotAuthorized => .error (.leaderNotAuthorized transfer.leaderId)
    | .ok () =>
      if transfer.metadata.lastIncludedIndex ≤ n.snapshotIndex then
        .error (.staleSnapshot n.snapshotIndex transfer.metadata.lastIncludedIndex)
      else if transfer.isComplete then
        .error (.completeTransferNotInstalled transfer.metadata.lastIncludedIndex)
      else .ok { n with volatile.incomingSnapshot := some transfer }

/-- What the node checks of a persisted transfer. -/
structure Resumes (n : Node) (transfer : PendingSnapshotTransfer) : Prop where
  unfinished : transfer.receivedLen < transfer.totalPayloadLen
  transferId : transfer.transferId = snapshotTransferIdFromParts transfer.metadata
    transfer.totalPayloadLen transfer.applicationPayloadCrc32
  header : n.validateSnapshotTransferHeader transfer.leaderId transfer.metadata
    n.currentTerm = .ok ()
  new : n.snapshotIndex < transfer.metadata.lastIncludedIndex

theorem resumePendingSnapshotTransfer_ok_iff {n m : Node} {transfer : PendingSnapshotTransfer} :
    n.resumePendingSnapshotTransfer transfer = .ok m ↔
      n.Resumes transfer ∧ m = { n with volatile.incomingSnapshot := some transfer } := by
  constructor
  · intro h
    unfold resumePendingSnapshotTransfer at h
    dsimp only at h
    cases hheader : n.validateSnapshotTransferHeader transfer.leaderId transfer.metadata
        n.currentTerm with
    | error e =>
      rw [hheader] at h
      cases e <;> (dsimp only at h; split_ifs at h)
    | ok u =>
      rw [hheader] at h
      dsimp only at h
      split_ifs at h with hlong hid hstale hcomplete
      have hne : transfer.receivedLen ≠ transfer.totalPayloadLen := by
        simpa [PendingSnapshotTransfer.isComplete] using hcomplete
      exact ⟨⟨by omega, not_not.1 hid, hheader, by omega⟩, (Except.ok.inj h).symm⟩
  · rintro ⟨h, rfl⟩
    have hlt := h.unfinished
    have hcomplete : ¬ transfer.isComplete = true := by
      simp only [PendingSnapshotTransfer.isComplete, decide_eq_true_eq]
      omega
    unfold resumePendingSnapshotTransfer
    dsimp only
    rw [if_neg (by omega), if_neg (not_not.2 h.transferId), h.header]
    dsimp only
    rw [if_neg (not_le.2 h.new), if_neg hcomplete]

end Node

end Rafter
