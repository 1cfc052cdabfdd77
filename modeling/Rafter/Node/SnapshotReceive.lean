import Rafter.Node.Commit

/-!
# Follower-side snapshot transfers

`crates/rafter/src/node/replication/snapshot/` (`reply.rs`, `validate.rs`, `receive/`).
-/

namespace Rafter

/-- `SnapshotTransferHeaderRejection`. -/
inductive SnapshotTransferHeaderRejection where
  | invalidMetadata
  | leaderNotAuthorized
deriving DecidableEq

/-- `SnapshotChunkRejection`. -/
inductive SnapshotChunkRejection where
  | staleTerm
  | wrongTransfer
  | metadataMismatch
  | leaderNotAuthorized
  | outOfOrderOffset
  | invalidBounds
deriving DecidableEq

/-- `SnapshotProgress`, with the verdict of `SnapshotReply`. -/
structure SnapshotReply where
  accepted : Bool
  lastIncludedIndex : ℕ
  transferId : Option SnapshotTransferId
  nextOffset : ℕ

namespace SnapshotReply

/-- `SnapshotReply::accepted_transfer`. -/
def acceptedTransfer (lastIncludedIndex : ℕ) (transferId : SnapshotTransferId) (nextOffset : ℕ) :
    SnapshotReply := ⟨true, lastIncludedIndex, some transferId, nextOffset⟩

/-- `SnapshotReply::rejected_current`. -/
def rejectedCurrent (lastIncludedIndex : ℕ) : SnapshotReply := ⟨false, lastIncludedIndex, none, 0⟩

/-- `SnapshotReply::rejected_transfer`. -/
def rejectedTransfer (lastIncludedIndex : ℕ) (transferId : SnapshotTransferId) (nextOffset : ℕ) :
    SnapshotReply := ⟨false, lastIncludedIndex, some transferId, nextOffset⟩

end SnapshotReply

/-- `ChunkDisposition`. -/
inductive ChunkDisposition where
  | alreadyCovered (coveredThrough : ℕ)
  | retransmission (nextOffset : ℕ)
  | outOfOrder (expectedOffset : ℕ)
  | accept (receivedLen : ℕ)

namespace Node

/-- `Node::snapshot_reply`. -/
def snapshotReply (n : Node) (leaderId : NodeId) (reply : SnapshotReply) : Output :=
  .send leaderId (.installSnapshotResponse
    { term := n.currentTerm
      followerId := n.id
      success := reply.accepted
      lastIncludedIndex := reply.lastIncludedIndex
      transferId := reply.transferId
      nextOffset := reply.nextOffset })

/-! ## Validation -/

/-- `Node::valid_snapshot_author`. -/
def validSnapshotAuthor (n : Node) (metadata : RaftSnapshotMetadata) : Bool :=
  (metadata.committedMembership.getD n.config.staticMembership).containsReplica metadata.writerId

/-- `Node::valid_snapshot_metadata`. -/
def validSnapshotMetadata (n : Node) (metadata : RaftSnapshotMetadata) (term : ℕ) : Bool :=
  decide (metadata.hardStateTerm ≤ term) && n.validSnapshotAuthor metadata

/-- `Node::valid_snapshot_transfer_leader`. -/
def validSnapshotTransferLeader (n : Node) (leaderId : NodeId) (metadata : RaftSnapshotMetadata) :
    Bool :=
  metadata.committedMembership.any (·.containsReplica leaderId)
    || n.effectiveMembership.containsReplica leaderId

/-- `Node::validate_snapshot_transfer_header`. -/
def validateSnapshotTransferHeader (n : Node) (leaderId : NodeId)
    (metadata : RaftSnapshotMetadata) (term : ℕ) : Except SnapshotTransferHeaderRejection Unit :=
  if !n.validSnapshotMetadata metadata term then .error .invalidMetadata
  else if !n.validSnapshotTransferLeader leaderId metadata then .error .leaderNotAuthorized
  else .ok ()

/-- `validate_snapshot_chunk_shape`. -/
def validateSnapshotChunkShape (request : InstallSnapshotChunk) :
    Except SnapshotChunkRejection Unit :=
  let chunkLen := request.chunk.length
  let theEnd := request.offset + chunkLen
  if u64Max < theEnd then .error .invalidBounds
  else if request.totalPayloadLen < request.offset ∨ request.totalPayloadLen < theEnd then
    .error .invalidBounds
  else if request.done then
    if theEnd = request.totalPayloadLen then .ok () else .error .invalidBounds
  else if 0 < chunkLen ∧ theEnd < request.totalPayloadLen then .ok ()
  else .error .invalidBounds

/-- `Node::validate_install_snapshot_chunk_header`. -/
def validateInstallSnapshotChunkHeader (n : Node) (leaderId : NodeId)
    (request : InstallSnapshotChunk) : Except SnapshotChunkRejection Unit :=
  match n.validateSnapshotTransferHeader leaderId request.metadata request.term with
  | .error .invalidMetadata => .error .metadataMismatch
  | .error .leaderNotAuthorized => .error .leaderNotAuthorized
  | .ok () =>
    if request.transferId ≠ snapshotTransferIdFromParts request.metadata request.totalPayloadLen
        request.applicationPayloadCrc32 then .error .wrongTransfer
    else validateSnapshotChunkShape request

/-- The counter `record_snapshot_chunk_rejection` increments. -/
def countRejection (c : SnapshotChunkRejectionCounters) :
    SnapshotChunkRejection → SnapshotChunkRejectionCounters
  | .staleTerm => { c with staleTerm := c.staleTerm + 1 }
  | .wrongTransfer => { c with wrongTransfer := c.wrongTransfer + 1 }
  | .metadataMismatch | .leaderNotAuthorized =>
    { c with metadataMismatch := c.metadataMismatch + 1 }
  | .outOfOrderOffset => { c with outOfOrderOffset := c.outOfOrderOffset + 1 }
  | .invalidBounds => { c with invalidBounds := c.invalidBounds + 1 }

/-- `Node::record_snapshot_chunk_rejection`. -/
def recordSnapshotChunkRejection (n : Node) (rejection : SnapshotChunkRejection) : Node :=
  { n with
    volatile.snapshotChunkRejections :=
      countRejection n.volatile.snapshotChunkRejections rejection }

/-- Record the rejection and answer with the reply. -/
def refuseChunk (n : Node) (leaderId : NodeId) (rejection : SnapshotChunkRejection)
    (reply : SnapshotReply) : Outcome where
  node := n.recordSnapshotChunkRejection rejection
  outputs := [n.snapshotReply leaderId reply]

/-! ## Reception -/

/-- `Node::adopt_snapshot_term`. -/
def adoptSnapshotTerm (n : Node) (term : ℕ) : Outcome :=
  if n.currentTerm < term ∨ n.role ≠ .follower then n.becomeFollower term
  else { node := n, outputs := [] }

/-- `Node::record_accepted_snapshot_leader`. -/
def recordAcceptedSnapshotLeader (n : Node) (leaderId : NodeId) : Node :=
  { n with election.elapsed := 0, volatile.leaderHint := some leaderId }

/-- `Node::snapshot_covered_through`. -/
def snapshotCoveredThrough (n : Node) : ℕ := max n.snapshotIndex n.commitIndex

/-- Whether the incoming transfer is the one the chunk belongs to. -/
def transferMatches (leaderId : NodeId) (request : InstallSnapshotChunk)
    (transfer : IncomingSnapshotTransfer) : Bool :=
  decide (transfer.leaderId = leaderId ∧ transfer.transferId = request.transferId ∧
    transfer.metadata = request.metadata ∧ transfer.totalPayloadLen = request.totalPayloadLen ∧
    transfer.applicationPayloadCrc32 = request.applicationPayloadCrc32)

/-- `Node::replace_or_reject_snapshot_transfer`. -/
def replaceOrRejectSnapshotTransfer (n : Node) (leaderId : NodeId)
    (request : InstallSnapshotChunk) : Except SnapshotChunkRejection Node :=
  if request.offset = 0 then
    .ok { n with
      volatile.incomingSnapshot := some
        { leaderId := leaderId
          transferId := request.transferId
          metadata := request.metadata
          totalPayloadLen := request.totalPayloadLen
          applicationPayloadCrc32 := request.applicationPayloadCrc32
          receivedLen := 0 } }
  else
    match n.volatile.incomingSnapshot with
    | none => .error .outOfOrderOffset
    | some transfer =>
      if transfer.leaderId ≠ leaderId ∨ transfer.transferId ≠ request.transferId then
        .error .wrongTransfer
      else .error .metadataMismatch

/-- `Node::prepare_incoming_snapshot_transfer`: the node and the offset it expects next. -/
def prepareIncomingSnapshotTransfer (n : Node) (leaderId : NodeId)
    (request : InstallSnapshotChunk) : Except SnapshotChunkRejection (Node × ℕ) :=
  let prepared := if n.volatile.incomingSnapshot.any (transferMatches leaderId request) then .ok n
    else n.replaceOrRejectSnapshotTransfer leaderId request
  match prepared with
  | .error rejection => .error rejection
  | .ok n =>
    match n.volatile.incomingSnapshot with
    | some transfer => .ok (n, transfer.receivedLen)
    | none => .error .wrongTransfer

/-- `Node::classify_snapshot_chunk`. -/
def classifySnapshotChunk (n : Node) (leaderId : NodeId) (request : InstallSnapshotChunk) :
    Except SnapshotChunkRejection (Node × ChunkDisposition) :=
  if request.metadata.lastIncludedIndex ≤ n.snapshotCoveredThrough then
    .ok (n, .alreadyCovered n.snapshotCoveredThrough)
  else
    match n.prepareIncomingSnapshotTransfer leaderId request with
    | .error rejection => .error rejection
    | .ok (n, expectedOffset) =>
      if request.offset < expectedOffset then .ok (n, .retransmission expectedOffset)
      else if expectedOffset < request.offset then .ok (n, .outOfOrder expectedOffset)
      else .ok (n, .accept expectedOffset)

variable {leaderId : NodeId} {request : InstallSnapshotChunk}

/-- A prepared transfer has the metadata of the chunk, and nothing else changes. -/
theorem prepareIncomingSnapshotTransfer_ok {n n' : Node} {k : ℕ}
    (h : n.prepareIncomingSnapshotTransfer leaderId request = .ok (n', k)) :
    ∃ transfer, n' = { n with volatile.incomingSnapshot := some transfer } ∧
      transfer.metadata = request.metadata := by
  unfold prepareIncomingSnapshotTransfer at h
  by_cases hany : n.volatile.incomingSnapshot.any (transferMatches leaderId request)
  · rw [if_pos hany] at h
    cases htr : n.volatile.incomingSnapshot with
    | none => simp [htr] at hany
    | some transfer =>
      simp only [htr] at h
      obtain ⟨rfl, -⟩ := Prod.mk.inj (Except.ok.inj h)
      refine ⟨transfer, by rw [← htr], ?_⟩
      rw [htr, Option.any_some] at hany
      unfold transferMatches at hany
      exact (of_decide_eq_true hany).2.2.1
  · rw [if_neg hany] at h
    unfold replaceOrRejectSnapshotTransfer at h
    by_cases h0 : request.offset = 0
    · rw [if_pos h0] at h
      obtain ⟨rfl, -⟩ := Prod.mk.inj (Except.ok.inj h)
      exact ⟨_, rfl, rfl⟩
    · rw [if_neg h0] at h
      cases htr : n.volatile.incomingSnapshot with
      | none => simp [htr] at h
      | some transfer =>
        simp only [htr] at h
        split_ifs at h

/-- Classification may replace the transfer under way. A chunk to be accepted is above what the
node covers and belongs to that transfer. -/
theorem classifySnapshotChunk_ok {n n' : Node} {disposition : ChunkDisposition}
    (h : n.classifySnapshotChunk leaderId request = .ok (n', disposition)) :
    (∃ incoming, n' = { n with volatile.incomingSnapshot := incoming }) ∧
      (∀ k, disposition = .alreadyCovered k → k = n.snapshotCoveredThrough) ∧
      ∀ k, disposition = .accept k →
        n.snapshotCoveredThrough < request.metadata.lastIncludedIndex ∧
        ∃ transfer, n'.volatile.incomingSnapshot = some transfer ∧
          transfer.metadata = request.metadata := by
  unfold classifySnapshotChunk at h
  split_ifs at h with hcov
  · obtain ⟨rfl, rfl⟩ := Prod.mk.inj (Except.ok.inj h)
    refine ⟨⟨_, rfl⟩, ?_, by simp⟩
    rintro k ⟨⟩
    rfl
  · cases hp : n.prepareIncomingSnapshotTransfer leaderId request with
    | error e => simp [hp] at h
    | ok p =>
      obtain ⟨n₁, expected⟩ := p
      obtain ⟨transfer, rfl, hmetadata⟩ := prepareIncomingSnapshotTransfer_ok hp
      rw [hp] at h
      dsimp only at h
      split_ifs at h <;> obtain ⟨rfl, rfl⟩ := Prod.mk.inj (Except.ok.inj h) <;>
        exact ⟨⟨_, rfl⟩, by simp, fun k _ => ⟨by omega, transfer, rfl, hmetadata⟩⟩

/-- `stage_snapshot_chunk`. -/
def stageSnapshotChunk (leaderId : NodeId) (request : InstallSnapshotChunk) : Output :=
  .stageSnapshotChunk
    { leaderId := leaderId
      transferId := request.transferId
      metadata := request.metadata
      totalPayloadLen := request.totalPayloadLen
      applicationPayloadCrc32 := request.applicationPayloadCrc32
      offset := request.offset
      bytes := request.chunk
      done := request.done }

/-- `Node::acknowledge_covered_snapshot_chunk`. -/
def acknowledgeCoveredSnapshotChunk (n : Node) (leaderId : NodeId)
    (request : InstallSnapshotChunk) (coveredThrough : ℕ) : Outcome where
  node := { n with
    volatile.incomingSnapshot := n.volatile.incomingSnapshot.filter
      fun transfer => transfer.transferId ≠ request.transferId }
  outputs := [n.snapshotReply leaderId
    (.acceptedTransfer coveredThrough request.transferId request.totalPayloadLen)]

/-- `Node::install_final_snapshot_chunk`. -/
def installFinalSnapshotChunk (n : Node) (leaderId : NodeId) (request : InstallSnapshotChunk)
    (receivedLen nextOffset : ℕ) : Outcome :=
  match n.volatile.incomingSnapshot with
  | none =>
    n.refuseChunk leaderId .wrongTransfer
      (.rejectedTransfer n.snapshotIndex request.transferId receivedLen)
  | some transfer =>
    let snapshot : RaftSnapshot :=
      { metadata := transfer.metadata
        applicationPayloadLen := request.totalPayloadLen
        applicationPayloadCrc32 := request.applicationPayloadCrc32 }
    (installSnapshotState { n with volatile.incomingSnapshot := none } snapshot).andThen fun n =>
      { node := n
        outputs := [stageSnapshotChunk leaderId request, .applySnapshot snapshot,
          n.snapshotReply leaderId (.acceptedTransfer snapshot.metadata.lastIncludedIndex
            request.transferId nextOffset)] }

/-- `Node::accept_current_snapshot_chunk`. -/
def acceptCurrentSnapshotChunk (n : Node) (leaderId : NodeId) (request : InstallSnapshotChunk)
    (receivedLen : ℕ) : Outcome :=
  let nextOffset := receivedLen + request.chunk.length
  if request.done then
    if nextOffset ≠ request.totalPayloadLen then
      n.refuseChunk leaderId .invalidBounds
        (.rejectedTransfer n.snapshotIndex request.transferId receivedLen)
    else n.installFinalSnapshotChunk leaderId request receivedLen nextOffset
  else
    match n.volatile.incomingSnapshot with
    | none =>
      n.refuseChunk leaderId .wrongTransfer
        (.rejectedTransfer n.snapshotIndex request.transferId receivedLen)
    | some transfer =>
      { node := { n with
          volatile.incomingSnapshot := some { transfer with receivedLen := nextOffset } }
        outputs := [stageSnapshotChunk leaderId request, n.snapshotReply leaderId
          (.acceptedTransfer n.snapshotIndex transfer.transferId nextOffset)] }

/-- `Node::handle_install_snapshot_chunk` after the term is adopted. -/
def snapshotChunkAsFollower (n : Node) (leaderId : NodeId) (request : InstallSnapshotChunk) :
    Outcome :=
  match n.validateInstallSnapshotChunkHeader leaderId request with
  | .error rejection => n.refuseChunk leaderId rejection (.rejectedCurrent n.snapshotIndex)
  | .ok () =>
    let n := n.recordAcceptedSnapshotLeader leaderId
    match n.classifySnapshotChunk leaderId request with
    | .error rejection =>
      n.refuseChunk leaderId rejection (.rejectedTransfer n.snapshotIndex request.transferId 0)
    | .ok (n, .alreadyCovered coveredThrough) =>
      n.acknowledgeCoveredSnapshotChunk leaderId request coveredThrough
    | .ok (n, .retransmission nextOffset) =>
      { node := n
        outputs := [n.snapshotReply leaderId
          (.acceptedTransfer n.snapshotIndex request.transferId nextOffset)] }
    | .ok (n, .outOfOrder expectedOffset) =>
      n.refuseChunk leaderId .outOfOrderOffset
        (.rejectedTransfer n.snapshotIndex request.transferId expectedOffset)
    | .ok (n, .accept receivedLen) => n.acceptCurrentSnapshotChunk leaderId request receivedLen

/-- `Node::handle_install_snapshot_chunk`. -/
def handleInstallSnapshotChunk (n : Node) (leaderId : NodeId) (request : InstallSnapshotChunk) :
    Outcome :=
  if request.term < n.currentTerm then
    n.refuseChunk leaderId .staleTerm (.rejectedCurrent n.snapshotIndex)
  else (n.adoptSnapshotTerm request.term).andThen (·.snapshotChunkAsFollower leaderId request)

/-- `Node::handle_install_snapshot` after the term is adopted. -/
def wholeSnapshotAsFollower (n : Node) (leaderId : NodeId) (request : InstallSnapshot) : Outcome :=
  let snapshot := RaftSnapshot.fromPayload request.metadata request.applicationPayload
  match n.validateSnapshotTransferHeader leaderId snapshot.metadata request.term with
  | .error _ =>
    { node := n, outputs := [n.snapshotReply leaderId (.rejectedCurrent n.snapshotIndex)] }
  | .ok () =>
    let n := n.recordAcceptedSnapshotLeader leaderId
    let n := { n with volatile.incomingSnapshot := none }
    if snapshot.metadata.lastIncludedIndex ≤ n.snapshotCoveredThrough then
      { node := n
        outputs := [n.snapshotReply leaderId (.acceptedTransfer n.snapshotCoveredThrough
          snapshot.transferId snapshot.applicationPayloadLen)] }
    else
      (n.installSnapshotState snapshot).andThen fun n =>
        { node := n
          outputs := [.stageSnapshotChunk
              { leaderId := leaderId
                transferId := snapshot.transferId
                metadata := snapshot.metadata
                totalPayloadLen := snapshot.applicationPayloadLen
                applicationPayloadCrc32 := snapshot.applicationPayloadCrc32
                offset := 0
                bytes := request.applicationPayload
                done := true },
            .applySnapshot snapshot,
            n.snapshotReply leaderId (.acceptedTransfer snapshot.metadata.lastIncludedIndex
              snapshot.transferId snapshot.applicationPayloadLen)] }

/-- `Node::handle_install_snapshot`. -/
def handleInstallSnapshot (n : Node) (leaderId : NodeId) (request : InstallSnapshot) : Outcome :=
  if request.term < n.currentTerm then
    { node := n, outputs := [n.snapshotReply leaderId (.rejectedCurrent n.snapshotIndex)] }
  else (n.adoptSnapshotTerm request.term).andThen (·.wholeSnapshotAsFollower leaderId request)

end Node

end Rafter
