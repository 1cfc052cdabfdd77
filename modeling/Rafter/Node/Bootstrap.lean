import Rafter.Node.Log

/-!
# Restart hydration

`crates/rafter/src/node/construction.rs` and `crates/rafter/src/node/bootstrap/`.
-/

namespace Rafter

/-- `BootstrapLogEntry`. -/
structure BootstrapLogEntry where
  index : ℕ
  term : ℕ
  kind : LogEntryKind

/-- The durable image a node restarts from. -/
structure BootstrapState where
  currentTerm : ℕ
  votedFor : Option NodeId
  commitIndex : ℕ
  committedConfiguration : Option CommittedConfiguration
  snapshot : Option RaftSnapshot
  log : List BootstrapLogEntry

/-- `BootstrapValidationError`. -/
inductive BootstrapValidationError where
  | voteInZeroTerm (votedFor : NodeId)
  | nonContiguousLog (expected actual : ℕ)
  | zeroTermLogEntry (index : ℕ)
  | entryTermAheadOfCurrentTerm (index entryTerm currentTerm : ℕ)
  | snapshotWriterNotReplica (writerId : NodeId)
  | snapshotHardStateTermAheadOfCurrentTerm (snapshotHardStateTerm currentTerm : ℕ)
  | compactedLogEntry (snapshotIndex entryIndex : ℕ)
  | snapshotBoundaryTermMismatch (index snapshotTerm entryTerm : ℕ)
  | commitIndexBeyondLog (commitIndex lastLogIndex : ℕ)
  | committedConfigurationAheadOfCommit (committedConfigurationIndex commitIndex : ℕ)
  | committedConfigurationMissing (committedConfigurationIndex : ℕ)
  | committedConfigurationIdMismatch (index expected actual : ℕ)
  | compactedCommittedConfigurationWithoutSnapshotMembership (committedConfigurationIndex : ℕ)
  | logIndexAtMaximum (index : ℕ)
deriving DecidableEq

namespace Bootstrap

theorem bind_ok {ε α β : Type} {x : Except ε α} {f : α → Except ε β} {b : β}
    (h : x >>= f = .ok b) : ∃ a, x = .ok a ∧ f a = .ok b := by
  cases x with
  | error e => exact absurd h (by simp [bind, Except.bind])
  | ok a => exact ⟨a, rfl, h⟩

/-! ## Configuration identity -/

/-- `validate_floor`. -/
def validateFloor (state : CommittedConfiguration) (floor : ℕ) :
    Except BootstrapValidationError Unit :=
  if floor < state.index then .error (.committedConfigurationAheadOfCommit state.index floor)
  else .ok ()

/-- `validate_identity`. -/
def validateIdentity (expected actual : CommittedConfiguration) :
    Except BootstrapValidationError Unit :=
  if expected.index = actual.index ∧ expected.configId ≠ actual.configId then
    .error (.committedConfigurationIdMismatch expected.index expected.configId actual.configId)
  else .ok ()

/-- The part of `recover_configuration` that checks the stored state. -/
def validateStored (stored : CommittedConfiguration) (snapshot : Option RaftSnapshotMetadata)
    (log : List LogEntry) (commitIndex : ℕ) : Except BootstrapValidationError Unit := do
  let snapshotIndex := (snapshot.map (·.lastIncludedIndex)).getD 0
  validateFloor stored commitIndex
  if snapshotIndex < stored.index then
    match log[stored.index - snapshotIndex - 1]?.bind (·.configurationEntry) with
    | none => .error (.committedConfigurationMissing stored.index)
    | some entry => validateIdentity stored { index := stored.index, configId := entry.configId }
  else if (snapshot.bind (·.committedMembership)).isNone then
    .error (.compactedCommittedConfigurationWithoutSnapshotMembership stored.index)
  else
    match snapshot.bind (·.committedConfigurationState) with
    | none => .ok ()
    | some captured =>
      if captured.index < stored.index then .error (.committedConfigurationMissing stored.index)
      else validateIdentity stored captured

/-- The last retained configuration entry at or below the commit index. -/
def retainedConfiguration (snapshotIndex commitIndex : ℕ) (log : List LogEntry) :
    Option CommittedConfiguration :=
  (log.zipIdx (snapshotIndex + 1)).reverse.findSome? fun (entry, index) =>
    if index ≤ commitIndex then
      entry.configurationEntry.map fun c => { index := index, configId := c.configId }
    else none

/-- `recover_configuration`. -/
def recoverConfiguration (stored : Option CommittedConfiguration)
    (snapshot : Option RaftSnapshotMetadata) (log : List LogEntry) (commitIndex : ℕ) :
    Except BootstrapValidationError (Option CommittedConfiguration) := do
  let snapshotIndex := (snapshot.map (·.lastIncludedIndex)).getD 0
  let captured := snapshot.bind (·.committedConfigurationState)
  match captured with
  | some captured => validateFloor captured snapshotIndex
  | none => .ok ()
  match stored with
  | some stored => validateStored stored snapshot log commitIndex
  | none => .ok ()
  return ([stored, captured, retainedConfiguration snapshotIndex commitIndex log].filterMap
      (fun state => state)).foldl
    (fun best state => match best with
      | none => some state
      | some b => if b.index ≤ state.index then some state else some b) none

/-! ## Log validation -/

/-- `validate_boundary_configuration`, for one recorded state. -/
def validateBoundaryState (entry : BootstrapLogEntry) :
    Option CommittedConfiguration → Except BootstrapValidationError Unit
  | none => .ok ()
  | some expected =>
    if expected.index ≠ entry.index then .ok ()
    else
      match entry.kind with
      | .configuration c =>
        validateIdentity expected { index := entry.index, configId := c.configId }
      | _ => .error (.committedConfigurationMissing expected.index)

/-- `LogValidation`. -/
structure LogValidation where
  snapshot : Option RaftSnapshotMetadata
  currentTerm : ℕ
  storedCommittedConfiguration : Option CommittedConfiguration
  expectedIndex : ℕ
  lastLogIndex : ℕ
  materializedLog : List LogEntry

/-- `LogValidation::validate_retained_entry`. -/
def LogValidation.validateRetainedEntry (v : LogValidation) (entry : BootstrapLogEntry) :
    Except BootstrapValidationError Unit :=
  if entry.index ≠ v.expectedIndex then .error (.nonContiguousLog v.expectedIndex entry.index)
  else if entry.term = 0 then .error (.zeroTermLogEntry entry.index)
  else if v.currentTerm < entry.term then
    .error (.entryTermAheadOfCurrentTerm entry.index entry.term v.currentTerm)
  else if u64Max ≤ entry.index then .error (.logIndexAtMaximum entry.index)
  else .ok ()

/-- `LogValidation::accept`. -/
def LogValidation.accept (v : LogValidation) (entry : BootstrapLogEntry) :
    Except BootstrapValidationError LogValidation := do
  let snapshotIndex := (v.snapshot.map (·.lastIncludedIndex)).getD 0
  if entry.index < snapshotIndex then .error (.compactedLogEntry snapshotIndex entry.index)
  else if entry.index = snapshotIndex ∧ v.snapshot.isSome then
    match v.snapshot with
    | none => .ok v
    | some snapshot =>
      if entry.term ≠ snapshot.lastIncludedTerm then
        .error (.snapshotBoundaryTermMismatch entry.index snapshot.lastIncludedTerm entry.term)
      else do
        validateBoundaryState entry v.storedCommittedConfiguration
        validateBoundaryState entry snapshot.committedConfigurationState
        return v
  else do
    v.validateRetainedEntry entry
    return { v with
      expectedIndex := entry.index + 1
      lastLogIndex := entry.index
      materializedLog := v.materializedLog ++ [{ term := entry.term, kind := entry.kind }] }

/-- `validate_log`. -/
def validateLog (b : BootstrapState) : Except BootstrapValidationError (List LogEntry) := do
  let snapshot := b.snapshot.map (·.metadata)
  let snapshotIndex := (snapshot.map (·.lastIncludedIndex)).getD 0
  let v ← b.log.foldlM LogValidation.accept
    { snapshot := snapshot
      currentTerm := b.currentTerm
      storedCommittedConfiguration := b.committedConfiguration
      expectedIndex := snapshotIndex + 1
      lastLogIndex := snapshotIndex
      materializedLog := [] }
  let commitIndex := max b.commitIndex snapshotIndex
  if v.lastLogIndex < commitIndex then .error (.commitIndexBeyondLog commitIndex v.lastLogIndex)
  else return v.materializedLog

/-- `BootstrapState::validate_vote`. -/
def validateVote (b : BootstrapState) : Except BootstrapValidationError Unit :=
  match b.votedFor with
  | some votedFor => if b.currentTerm = 0 then .error (.voteInZeroTerm votedFor) else .ok ()
  | none => .ok ()

/-- `BootstrapState::validate_snapshot`. -/
def validateSnapshot (b : BootstrapState) (config : NodeConfig) :
    Except BootstrapValidationError Unit :=
  match b.snapshot with
  | none => .ok ()
  | some snapshot =>
    let metadata := snapshot.metadata
    if b.currentTerm < metadata.hardStateTerm then
      .error (.snapshotHardStateTermAheadOfCurrentTerm metadata.hardStateTerm b.currentTerm)
    else if (metadata.committedMembership.getD config.staticMembership).containsReplica
        metadata.writerId then .ok ()
    else .error (.snapshotWriterNotReplica metadata.writerId)

end Bootstrap

open Bootstrap in
/-- `Node::from_bootstrap`, with `BootstrapState::into_parts`. -/
def Node.fromBootstrap (config : NodeConfig) (b : BootstrapState) :
    Except BootstrapValidationError Node := do
  validateVote b
  validateSnapshot b config
  let log ← validateLog b
  let snapshotIndex := (b.snapshot.map (·.metadata.lastIncludedIndex)).getD 0
  let commitIndex := max b.commitIndex snapshotIndex
  let committedConfiguration ← recoverConfiguration b.committedConfiguration
    (b.snapshot.map (·.metadata)) log commitIndex
  return {
    config := config
    persistent :=
      { currentTerm := b.currentTerm
        votedFor := b.votedFor
        committedConfiguration := committedConfiguration
        snapshot := b.snapshot
        log := log }
    volatile := { commitIndex := commitIndex, dispatchedIndex := snapshotIndex }
    configuration := ConfigurationIndex.fromLog log }

open Bootstrap in
/-- Hydration passes four validations and builds the node from what they return. -/
theorem Node.fromBootstrap_eq_ok {config : NodeConfig} {b : BootstrapState} {n : Node} :
    fromBootstrap config b = .ok n ↔ ∃ log committedConfiguration,
      validateVote b = .ok () ∧ validateSnapshot b config = .ok () ∧ validateLog b = .ok log ∧
      recoverConfiguration b.committedConfiguration (b.snapshot.map (·.metadata)) log
        (max b.commitIndex ((b.snapshot.map (·.metadata.lastIncludedIndex)).getD 0)) =
          .ok committedConfiguration ∧
      n = {
        config := config
        persistent :=
          { currentTerm := b.currentTerm
            votedFor := b.votedFor
            committedConfiguration := committedConfiguration
            snapshot := b.snapshot
            log := log }
        volatile :=
          { commitIndex := max b.commitIndex ((b.snapshot.map
            (·.metadata.lastIncludedIndex)).getD 0)
            dispatchedIndex := (b.snapshot.map (·.metadata.lastIncludedIndex)).getD 0 }
        configuration := ConfigurationIndex.fromLog log } := by
  constructor
  · intro h
    unfold fromBootstrap at h
    obtain ⟨⟨⟩, hvote, h⟩ := bind_ok h
    obtain ⟨⟨⟩, hsnapshot, h⟩ := bind_ok h
    obtain ⟨log, hlog, h⟩ := bind_ok h
    obtain ⟨committedConfiguration, hconfiguration, h⟩ := bind_ok h
    exact ⟨log, committedConfiguration, hvote, hsnapshot, hlog, hconfiguration,
      (Except.ok.inj h).symm⟩
  · rintro ⟨log, committedConfiguration, hvote, hsnapshot, hlog, hconfiguration, rfl⟩
    simp only [fromBootstrap, hvote, hsnapshot, hlog, hconfiguration, bind, Except.bind, pure,
      Except.pure]

/-- The durable image of a node with a commit index and a recorded committed configuration that
may lag the live ones. -/
def Node.bootstrapState (n : Node) (commitIndex : ℕ)
    (committedConfiguration : Option CommittedConfiguration) : BootstrapState where
  currentTerm := n.currentTerm
  votedFor := n.persistent.votedFor
  commitIndex := commitIndex
  committedConfiguration := committedConfiguration
  snapshot := n.persistent.snapshot
  log := (n.persistent.log.zipIdx (n.snapshotIndex + 1)).map fun (entry, index) =>
    { index := index, term := entry.term, kind := entry.kind }

end Rafter
