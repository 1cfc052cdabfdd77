import Rafter.Node.Commit

/-!
# Leader-side sending

`crates/rafter/src/node/replication/send.rs`, `send/broadcast.rs`, `send/cache.rs` and
`replication/snapshot/send.rs`.
-/

namespace Rafter

/-- `ReplicationDemand`. -/
inductive ReplicationDemand where
  | progressOnly
  | ensureContact
deriving DecidableEq

/-- `ReplicationDemand::requires_message`. -/
def ReplicationDemand.requiresMessage : ReplicationDemand → Bool
  | .progressOnly => false
  | .ensureContact => true

/-- One entry of `LogBatchCache`. -/
structure CachedLogBatch where
  firstIndex : ℕ
  maxReplicationBytes : ℕ
  batch : Node.LogBatch

/-- `LogBatchCache`. -/
abbrev LogBatchCache := List CachedLogBatch

/-- An outcome together with the batch cache the transition filled. -/
structure CachedOutcome where
  outcome : Outcome
  cache : LogBatchCache

namespace Node

/-- `INSTALL_SNAPSHOT_CHUNK_BYTES`. -/
def installSnapshotChunkBytes : ℕ := 64 * 1024

/-- `snapshot_chunk_len`. -/
def snapshotChunkLen (totalPayloadLen offset : ℕ) : ℕ :=
  min (totalPayloadLen - offset) installSnapshotChunkBytes

/-- `Node::snapshot_send_offset`. -/
def snapshotSendOffset (n : Node) (followerId : NodeId) (totalPayloadLen : ℕ) : ℕ :=
  let offset := match n.leader.progress.get followerId with
    | some { mode := .snapshot nextOffset, .. } => nextOffset
    | _ => 0
  min offset totalPayloadLen

/-- `Node::install_snapshot_chunk_to`. -/
def installSnapshotChunkTo (n : Node) (followerId : NodeId) (snapshot : RaftSnapshot) : Output :=
  let totalPayloadLen := snapshot.applicationPayloadLen
  let offset := n.snapshotSendOffset followerId totalPayloadLen
  let len := snapshotChunkLen totalPayloadLen offset
  .sendSnapshotChunk followerId
    { term := n.currentTerm
      leaderId := n.id
      transferId := snapshot.transferId
      metadata := snapshot.metadata
      totalPayloadLen := totalPayloadLen
      applicationPayloadCrc32 := snapshot.applicationPayloadCrc32
      offset := offset
      len := len
      done := decide (offset + len = totalPayloadLen) }

/-- `Node::append_entries_message`. -/
def appendEntriesMessage (n : Node) (followerId : NodeId) (nextIndex : ℕ)
    (entries : List LogEntry) : Output :=
  .send followerId (.appendEntries
    { term := n.currentTerm
      leaderId := n.id
      prevLogIndex := nextIndex - 1
      prevLogTerm := (n.termAt (nextIndex - 1)).getD 0
      sequence := n.leader.heartbeatSequence
      entries := entries
      leaderCommit := n.commitIndex })

/-- `Node::log_batch_from_bounded_cached`. -/
def logBatchFromBoundedCached (n : Node) (firstIndex maxReplicationBytes : ℕ)
    (cache : LogBatchCache) : Option LogBatch × LogBatchCache :=
  match cache.find? fun cached => cached.firstIndex = firstIndex ∧
      cached.maxReplicationBytes = maxReplicationBytes with
  | some cached => (some cached.batch, cache)
  | none =>
    match n.logBatchFromBounded firstIndex maxReplicationBytes with
    | none => (none, cache)
    | some batch => (some batch, cache ++ [⟨firstIndex, maxReplicationBytes, batch⟩])

/-- What holds of the cached batches and of a fresh one holds of the batch taken and of the cache
it leaves. -/
theorem logBatchFromBoundedCached_forall {P : ℕ → LogBatch → Prop} {n : Node} {first maxBytes : ℕ}
    {cache : LogBatchCache} (hcache : ∀ cached ∈ cache, P cached.firstIndex cached.batch)
    (hfresh : ∀ batch, n.logBatchFromBounded first maxBytes = some batch → P first batch) :
    (∀ cached ∈ (n.logBatchFromBoundedCached first maxBytes cache).2,
      P cached.firstIndex cached.batch) ∧
      ∀ batch, (n.logBatchFromBoundedCached first maxBytes cache).1 = some batch →
        P first batch := by
  unfold logBatchFromBoundedCached
  cases hfind : cache.find? fun cached => cached.firstIndex = first ∧
      cached.maxReplicationBytes = maxBytes with
  | some cached =>
    refine ⟨hcache, ?_⟩
    rintro batch ⟨⟩
    have hkey := List.find?_some hfind
    simp only [decide_eq_true_eq] at hkey
    exact hkey.1 ▸ hcache cached (List.mem_of_find?_eq_some hfind)
  | none =>
    cases hbatch : n.logBatchFromBounded first maxBytes with
    | none => exact ⟨hcache, by simp⟩
    | some batch =>
      refine ⟨fun cached hmem => ?_, ?_⟩
      · rcases List.mem_append.1 hmem with hmem | hmem
        · exact hcache cached hmem
        · rw [List.mem_singleton.1 hmem]
          exact hfresh batch hbatch
      · rintro batch' ⟨⟩
        exact hfresh batch hbatch

/-- Update the follower's progress row. -/
def modifyProgress (n : Node) (followerId : NodeId) (f : Progress → Progress) : Node :=
  { n with leader.progress := n.leader.progress.modify followerId f }

/-- `Node::send_empty_append_to_progress_next`. -/
def sendEmptyAppendToProgressNext (n : Node) (followerId : NodeId) : Outcome where
  node := n
  outputs := match n.leader.progress.get followerId with
    | some row => [n.appendEntriesMessage followerId row.nextIndex []]
    | none => []

/-- `Node::replicate_snapshot_to_follower`. -/
def replicateSnapshotToFollower (n : Node) (followerId : NodeId) : Outcome where
  node := n
  outputs := match n.persistent.snapshot with
    | some snapshot => [n.installSnapshotChunkTo followerId snapshot]
    | none => []

/-- `Node::replicate_probe_to_follower`. -/
def replicateProbeToFollower (n : Node) (followerId : NodeId) (awaitingResponse : Bool)
    (demand : ReplicationDemand) (snapshotIndex : ℕ) (cache : LogBatchCache) : CachedOutcome :=
  if awaitingResponse then
    if demand.requiresMessage then ⟨n.sendEmptyAppendToProgressNext followerId, cache⟩
    else ⟨⟨n, []⟩, cache⟩
  else
    match n.leader.progress.get followerId with
    | none => ⟨⟨n, []⟩, cache⟩
    | some row =>
      let nextIndex := max row.nextIndex (snapshotIndex + 1)
      let (batch, cache) :=
        n.logBatchFromBoundedCached nextIndex n.config.maxAppendEntriesBytes cache
      let entries := match batch with
        | some batch => batch.entries
        | none => []
      ⟨{ node := n.modifyProgress followerId fun row =>
            { row with nextIndex := nextIndex, mode := .probe true }
         outputs := [n.appendEntriesMessage followerId nextIndex entries] }, cache⟩

/-- The loop of `fill_replication_window`: the outcome and whether anything was sent. Every turn
raises `nextIndex`, which stays at most one past the last index. -/
def fillLoop (followerId : NodeId) (lastLogIndex : ℕ) :
    ℕ → Node → LogBatchCache → CachedOutcome × Bool
  | 0, n, cache => (⟨⟨n, []⟩, cache⟩, false)
  | fuel + 1, n, cache =>
    match n.leader.progress.get followerId with
    | none => (⟨⟨n, []⟩, cache⟩, false)
    | some row =>
      if row.inflights.isFull n.config.maxInflightAppends n.config.maxInflightBytes
          || decide (lastLogIndex < row.nextIndex) then (⟨⟨n, []⟩, cache⟩, false)
      else
        match n.logBatchFromBoundedCached row.nextIndex n.config.maxAppendEntriesBytes cache with
        | (none, cache) => (⟨⟨n, []⟩, cache⟩, false)
        | (some batch, cache) =>
          let message := n.appendEntriesMessage followerId batch.firstIndex batch.entries
          let n := n.modifyProgress followerId fun row =>
            { row with
              inflights := row.inflights.record batch.lastIndex batch.replicationBytes
              nextIndex := batch.lastIndex + 1 }
          let (rest, _) := fillLoop followerId lastLogIndex fuel n cache
          (⟨⟨rest.outcome.node, message :: rest.outcome.outputs⟩, rest.cache⟩, true)

/-- `Node::fill_replication_window`. -/
def fillReplicationWindow (n : Node) (followerId : NodeId) (demand : ReplicationDemand)
    (lastLogIndex : ℕ) (cache : LogBatchCache) : CachedOutcome :=
  let (filled, sent) := fillLoop followerId lastLogIndex (lastLogIndex + 1) n cache
  if !sent && demand.requiresMessage then
    ⟨filled.outcome.andThen (·.sendEmptyAppendToProgressNext followerId), filled.cache⟩
  else filled

/-- A follower behind the snapshot boundary is switched to snapshot mode. -/
def enterSnapshotMode (snapshotIndex : ℕ) (row : Progress) : Progress :=
  match row.mode with
  | .snapshot _ => row
  | _ =>
    if row.nextIndex ≤ snapshotIndex then { row with mode := .snapshot 0, inflights := {} } else row

theorem matchIndex_enterSnapshotMode (k : ℕ) (row : Progress) :
    (enterSnapshotMode k row).matchIndex = row.matchIndex := by
  unfold enterSnapshotMode
  split
  · rfl
  · split_ifs <;> rfl

/-- `Node::replicate_to_follower_with_cache_fresh`. -/
def replicateToFollowerFresh (n : Node) (followerId : NodeId) (demand : ReplicationDemand)
    (cache : LogBatchCache) : CachedOutcome :=
  if followerId = n.id ∨ n.leader.progress.contains followerId = false then ⟨⟨n, []⟩, cache⟩
  else
    let n := n.modifyProgress followerId (enterSnapshotMode n.snapshotIndex)
    match n.leader.progress.get followerId with
    | none => ⟨⟨n, []⟩, cache⟩
    | some row =>
      match row.mode with
      | .snapshot _ => ⟨n.replicateSnapshotToFollower followerId, cache⟩
      | .probe awaitingResponse =>
        n.replicateProbeToFollower followerId awaitingResponse demand n.snapshotIndex cache
      | .replicate => n.fillReplicationWindow followerId demand n.lastLogIndex cache

/-- `Node::replicate_to_follower`. -/
def replicateToFollower (n : Node) (followerId : NodeId) (demand : ReplicationDemand) : Outcome :=
  (n.reconcileReplicationProgress.replicateToFollowerFresh followerId demand []).outcome

/-- `Node::begin_contact_round`. -/
def beginContactRound (n : Node) : Node :=
  { n with
    leader.heartbeatSequence := n.leader.heartbeatSequence + 1
    leader.heartbeatElapsed := 0 }

/-- The loop of `broadcast_replication_into` over the replica slots. -/
def broadcastLoop (demand : ReplicationDemand) : List NodeId → Node → LogBatchCache → Outcome
  | [], n, _ => { node := n, outputs := [] }
  | followerId :: rest, n, cache =>
    if followerId = n.id then broadcastLoop demand rest n cache
    else
      let sent := n.replicateToFollowerFresh followerId demand cache
      sent.outcome.andThen fun n => broadcastLoop demand rest n sent.cache

/-- `Node::broadcast_replication_into`. -/
def broadcastReplication (n : Node) (demand : ReplicationDemand) : Outcome :=
  let n := if demand.requiresMessage then n.beginContactRound else n
  let n := n.reconcileReplicationProgress
  broadcastLoop demand n.leader.progress.index.replicas n []

/-- `Node::broadcast_append_entries`. -/
def broadcastAppendEntries (n : Node) : Outcome := n.broadcastReplication .ensureContact

end Node

end Rafter
