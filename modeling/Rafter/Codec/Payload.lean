import Rafter.Codec.Wire

/-!
# Membership, log-entry and snapshot grammar of the peer codec

`crates/rafter-codec/src/v1/membership.rs`, `v1/append.rs` and `v1/snapshot.rs`. Reserving capacity
before a repeated field is decoded has no effect on what is decoded and is not modelled.

Results: every encoder has the decoder beside it as its inverse, on the values whose numbers are
machine integers (`set_codes`, `config_codes`, `logEntry_codes`, `metadata_codes`). For snapshot
metadata the decoder's domain is smaller: it rebuilds the value with `RaftSnapshotMetadata::new`.
-/

namespace Rafter.Codec

open Bytes (Codes Writes)

/-! ## Memberships -/

/-- One half of `encode_set`. -/
def encodeNodeSet (field : String) (nodes : List NodeId) : Writer := do
  Writer.lengthU16 field nodes.length
  nodes.forM Writer.u64

/-- `encode_set`. -/
def encodeSet (membership : MembershipSet) : Writer := do
  encodeNodeSet "membership_voter_count" membership.voters
  encodeNodeSet "membership_learner_count" membership.learners

/-- `decode_node_set`. -/
def decodeNodeSet : Reader (List NodeId) := do
  let count ← Reader.u16
  Bytes.Reader.count Reader.u64 count

/-- Whether some id is greater than the one after it. -/
def descends : List NodeId → Bool
  | a :: b :: rest => decide (b < a) || descends (b :: rest)
  | _ => false

/-- `require_canonical_order`. -/
def requireCanonicalOrder (nodes : List NodeId) (field : String) :
    Except DecodePeerMessageError Unit :=
  if descends nodes then .error (.nonCanonicalMembershipOrder field) else .ok ()

/-- The checks of `decode_set` on the two halves it has read. -/
def canonicalSet (voters learners : List NodeId) : Except DecodePeerMessageError MembershipSet := do
  requireCanonicalOrder voters "membership_voters"
  requireCanonicalOrder learners "membership_learners"
  (MembershipSet.new voters learners).mapError .invalidMembership

/-- `decode_set`. -/
def decodeSet : Reader MembershipSet := do
  let voters ← decodeNodeSet
  let learners ← decodeNodeSet
  Bytes.Reader.check (canonicalSet voters learners)

/-- `encode_config`. -/
def encodeConfig : MembershipConfig → Writer
  | .stable stable => do
    Writer.u8 MembershipTag.stable.toU8
    encodeSet stable
  | .joint joint => do
    Writer.u8 MembershipTag.joint.toU8
    encodeSet joint.old
    encodeSet joint.new

/-- `decode_config`. -/
def decodeConfig : Reader MembershipConfig := do
  match ← Reader.tag MembershipTag.tryFrom with
  | .stable =>
    let set ← decodeSet
    return .stable set
  | .joint =>
    let old ← decodeSet
    let new ← decodeSet
    return .joint ⟨old, new⟩

theorem nodeSet_codes (field : String) :
    Wire decodeNodeSet (encodeNodeSet field) (fun nodes => ∀ n ∈ nodes, n ≤ u64Max) :=
  Bytes.counted_codes u64_codes

theorem descends_eq_false_iff {nodes : List NodeId} :
    descends nodes = false ↔ nodes.Pairwise (· ≤ ·) := by
  rw [← List.isChain_iff_pairwise]
  induction nodes with
  | nil => simp [descends]
  | cons a rest ih =>
    cases rest with
    | nil => simp [descends]
    | cons b rest =>
      rw [descends, Bool.or_eq_false_iff, ih, List.isChain_cons_cons]
      simp

theorem requireCanonicalOrder_ok_iff {nodes : List NodeId} {field : String} {done : Unit} :
    requireCanonicalOrder nodes field = .ok done ↔ nodes.Pairwise (· ≤ ·) := by
  rw [← descends_eq_false_iff, requireCanonicalOrder]
  cases descends nodes <;> simp

theorem canonicalSet_ok_iff {voters learners : List NodeId} {m : MembershipSet} :
    canonicalSet voters learners = .ok m ↔ voters = m.voters ∧ learners = m.learners := by
  simp only [canonicalSet, Bytes.bind_eq_ok_iff, Bytes.mapError_eq_ok_iff,
    requireCanonicalOrder_ok_iff, MembershipSet.new_ok_iff]
  constructor
  · rintro ⟨-, hv, -, hl, hvoters, hlearners⟩
    rw [hvoters, hlearners, hv.insertionSort_eq, hl.insertionSort_eq]
    exact ⟨rfl, rfl⟩
  · rintro ⟨rfl, rfl⟩
    have hv : m.voters.Pairwise (· ≤ ·) := m.voters_sorted.imp le_of_lt
    have hl : m.learners.Pairwise (· ≤ ·) := m.learners_sorted.imp le_of_lt
    exact ⟨(), hv, (), hl, hv.insertionSort_eq.symm, hl.insertionSort_eq.symm⟩

theorem set_codes : Wire decodeSet encodeSet MembershipSet.InRange := by
  refine Codes.head MembershipSet.voters (nodeSet_codes _) fun voters => ?_
  refine Codes.checked MembershipSet.learners (nodeSet_codes _)
    (fun _ h => h) fun learners m h => ?_
  rw [canonicalSet_ok_iff]
  constructor
  · rintro ⟨rfl, rfl⟩
    exact ⟨rfl, ⟨trivial, rfl⟩, h⟩
  · rintro ⟨rfl, ⟨-, rfl⟩, -⟩
    exact ⟨rfl, rfl⟩

theorem joint_codes : Wire (decodeSet >>= fun old => decodeSet >>= fun new =>
      pure (JointMembership.mk old new))
    (fun joint => encodeSet joint.old >>= fun _ => encodeSet joint.new)
    (fun joint => joint.old.InRange ∧ joint.new.InRange) := by
  refine Codes.head JointMembership.old set_codes fun old => ?_
  refine Codes.final JointMembership.new set_codes fun new joint => ?_
  cases joint
  simp

/-- The tag `encode_config` writes. -/
def configTag : MembershipConfig → MembershipTag
  | .stable _ => .stable
  | .joint _ => .joint

theorem config_codes : Wire decodeConfig encodeConfig MembershipConfig.InRange := by
  have hwrite : encodeConfig = fun config => Writer.u8 (configTag config).toU8 >>= fun _ =>
      match config with
      | .stable stable => encodeSet stable
      | .joint joint => encodeSet joint.old >>= fun _ => encodeSet joint.new := by
    funext config
    cases config <;> rfl
  rw [hwrite]
  refine Codes.freeField configTag membershipTag_codes fun tag => ?_
  cases tag with
  | stable =>
    refine set_codes.variant MembershipConfig.stable rfl (fun config => ?_) (fun _ => rfl)
      fun _ => Iff.rfl
    cases config <;> simp [configTag]
  | joint =>
    refine joint_codes.variant MembershipConfig.joint ?_ (fun config => ?_) (fun _ => rfl)
      fun _ => Iff.rfl
    · simp only [bind_assoc, pure_bind]
    · cases config <;> simp [configTag]

/-! ## Log entries -/

/-- `encode_log_entry`. -/
def encodeLogEntry (entry : LogEntry) : Writer := do
  Writer.u64 entry.term
  match entry.kind with
  | .application payload =>
    Writer.u8 LogEntryTag.application.toU8
    Writer.blob "entry_payload" payload
  | .configuration (.stable configId membership) =>
    Writer.u8 LogEntryTag.configurationStable.toU8
    Writer.u64 configId
    encodeSet membership
  | .configuration (.joint configId membership) =>
    Writer.u8 LogEntryTag.configurationJoint.toU8
    Writer.u64 configId
    encodeSet membership.old
    encodeSet membership.new
  | .noop => Writer.u8 LogEntryTag.noop.toU8

/-- `decode_log_entry`. -/
def decodeLogEntry : Reader LogEntry := do
  let term ← Reader.u64
  match ← Reader.tag LogEntryTag.tryFrom with
  | .application =>
    let payload ← Reader.blob
    return ⟨term, .application payload⟩
  | .configurationStable =>
    let configId ← Reader.u64
    let membership ← decodeSet
    return ⟨term, .configuration (.stable configId membership)⟩
  | .configurationJoint =>
    let configId ← Reader.u64
    let old ← decodeSet
    let new ← decodeSet
    return ⟨term, .configuration (.joint configId ⟨old, new⟩)⟩
  | .noop => return ⟨term, .noop⟩

/-- The tag `encode_log_entry` writes. -/
def logEntryTag (entry : LogEntry) : LogEntryTag :=
  match entry.kind with
  | .application _ => .application
  | .configuration (.stable ..) => .configurationStable
  | .configuration (.joint ..) => .configurationJoint
  | .noop => .noop

/-- What follows the tag of a log entry. -/
def encodeLogEntryBody (entry : LogEntry) : Writer :=
  match entry.kind with
  | .application payload => Writer.blob "entry_payload" payload
  | .configuration (.stable configId membership) => do
    Writer.u64 configId
    encodeSet membership
  | .configuration (.joint configId membership) => do
    Writer.u64 configId
    encodeSet membership.old
    encodeSet membership.new
  | .noop => pure ()

theorem writes_encodeLogEntry {entry : LogEntry} {bytes : List UInt8} :
    Writes (encodeLogEntry entry) bytes ↔
      Writes (Writer.u64 entry.term >>= fun _ => Writer.u8 (logEntryTag entry).toU8 >>= fun _ =>
        encodeLogEntryBody entry) bytes := by
  obtain ⟨term, kind⟩ := entry
  cases kind with
  | application payload => rfl
  | configuration c => cases c <;> rfl
  | noop => simp [encodeLogEntry, encodeLogEntryBody, logEntryTag]

theorem logEntry_codes : Wire decodeLogEntry encodeLogEntry LogEntry.InRange := by
  refine Codes.rewrite ?_ fun entry bytes => writes_encodeLogEntry
  refine Codes.head LogEntry.term u64_codes fun term => ?_
  refine Codes.freeField logEntryTag logEntryTag_codes fun tag => ?_
  cases tag with
  | application =>
    refine (blob_codes "entry_payload").variant (fun payload => ⟨term, .application payload⟩) rfl
      (fun entry => ?_) (fun _ => rfl) fun _ => Iff.rfl
    obtain ⟨_, _ | (_ | _) | _⟩ := entry <;> simp [logEntryTag]
  | configurationStable =>
    refine (u64_codes.pair set_codes).variant (fun c => ⟨term, .configuration (.stable c.1 c.2)⟩) ?_
      (fun entry => ?_) (fun _ => rfl) fun _ => Iff.rfl
    · simp only [bind_assoc, pure_bind]
    · obtain ⟨_, _ | (_ | _) | _⟩ := entry <;> simp [logEntryTag]
  | configurationJoint =>
    refine (u64_codes.pair joint_codes).variant (fun c => ⟨term, .configuration (.joint c.1 c.2)⟩)
      ?_ (fun entry => ?_) (fun c => ?_) fun _ => Iff.rfl
    · simp only [bind_assoc, pure_bind]
    · obtain ⟨_, _ | (_ | _) | _⟩ := entry <;> simp [logEntryTag]
    · rw [encodeLogEntryBody]
  | noop =>
    refine Codes.known (LogEntry.mk term .noop) (fun entry => ?_) rfl trivial
    obtain ⟨_, _ | (_ | _) | _⟩ := entry <;> simp [logEntryTag]

/-! ## Snapshot metadata -/

/-- `encode_committed_configuration`. -/
def encodeCommittedConfiguration : Option SnapshotCommittedConfiguration → Writer :=
  Writer.option fun committed => do
    Writer.option (fun configuration => do
      Writer.u64 configuration.index
      Writer.u64 configuration.configId) committed.configuration
    encodeConfig committed.membership

/-- `decode_committed_configuration`. -/
def decodeCommittedConfiguration : Reader (Option SnapshotCommittedConfiguration) :=
  Reader.option do
    let configuration ← Reader.option do
      let index ← Reader.u64
      let configId ← Reader.u64
      return CommittedConfiguration.mk index configId
    let membership ← decodeConfig
    return ⟨configuration, membership⟩

/-- `encode_metadata`. -/
def encodeMetadata (metadata : RaftSnapshotMetadata) : Writer := do
  Writer.string "snapshot_group_id" metadata.groupId.value
  Writer.u64 metadata.writerId
  Writer.u64 metadata.lastIncludedIndex
  Writer.u64 metadata.lastIncludedTerm
  Writer.u64 metadata.hardStateTerm
  Writer.string "application_snapshot_kind" metadata.application.kind.value
  Writer.u16 metadata.application.version.value
  encodeCommittedConfiguration metadata.committedConfiguration

/-- `SnapshotGroupId::new` on the next string. -/
def decodeGroupId : Reader SnapshotGroupId := do
  let value ← Reader.string "snapshot_group_id"
  Bytes.Reader.check ((SnapshotGroupId.new value).mapError .invalidSnapshotGroupId)

/-- `ApplicationSnapshotKind::new` on the next string. -/
def decodeApplicationKind : Reader ApplicationSnapshotKind := do
  let value ← Reader.string "application_snapshot_kind"
  Bytes.Reader.check
    ((ApplicationSnapshotKind.new value).mapError .invalidApplicationSnapshotKind)

/-- `ApplicationSnapshotVersion::new` on the next integer. -/
def decodeApplicationVersion : Reader ApplicationSnapshotVersion := do
  let value ← Reader.u16
  Bytes.Reader.check
    ((ApplicationSnapshotVersion.new value).mapError .invalidApplicationSnapshotVersion)

/-- The metadata `decode_metadata` builds from the fields it has read. -/
def rebuildMetadata (groupId : SnapshotGroupId) (writerId : NodeId)
    (lastIncludedIndex lastIncludedTerm hardStateTerm : ℕ)
    (application : ApplicationSnapshotMetadata)
    (committedConfiguration : Option SnapshotCommittedConfiguration) :
    Except DecodePeerMessageError RaftSnapshotMetadata := do
  let metadata ← (RaftSnapshotMetadata.new groupId writerId lastIncludedIndex lastIncludedTerm
    hardStateTerm application).mapError .invalidSnapshotMetadata
  match committedConfiguration with
  | some committed => return metadata.withCommittedConfiguration committed
  | none => return metadata

/-- `decode_metadata`. -/
def decodeMetadata : Reader RaftSnapshotMetadata := do
  let groupId ← decodeGroupId
  let writerId ← Reader.u64
  let lastIncludedIndex ← Reader.u64
  let lastIncludedTerm ← Reader.u64
  let hardStateTerm ← Reader.u64
  let applicationKind ← decodeApplicationKind
  let applicationVersion ← decodeApplicationVersion
  let committedConfiguration ← decodeCommittedConfiguration
  Bytes.Reader.check (rebuildMetadata groupId writerId lastIncludedIndex lastIncludedTerm
    hardStateTerm ⟨applicationKind, applicationVersion⟩ committedConfiguration)

theorem configurationState_codes : Wire (Reader.u64 >>= fun index => Reader.u64 >>= fun configId =>
      pure (CommittedConfiguration.mk index configId))
    (fun c => Writer.u64 c.index >>= fun _ => Writer.u64 c.configId)
    CommittedConfiguration.InRange := by
  refine Codes.head CommittedConfiguration.index u64_codes fun index => ?_
  refine Codes.final CommittedConfiguration.configId u64_codes fun configId c => ?_
  cases c
  simp

theorem committedConfiguration_codes : Wire decodeCommittedConfiguration
    encodeCommittedConfiguration (fun committed => ∀ c ∈ committed, c.InRange) := by
  refine option_codes (Codes.head SnapshotCommittedConfiguration.configuration
    (option_codes configurationState_codes) fun configuration => ?_)
  refine Codes.final SnapshotCommittedConfiguration.membership config_codes fun membership c => ?_
  cases c
  simp

theorem groupId_codes : Wire decodeGroupId
    (fun id => Writer.string "snapshot_group_id" id.value) (fun _ => True) :=
  (string_codes _).checked SnapshotId.value (fun _ _ => trivial) fun value id _ => by
    simp [SnapshotGroupId.new, SnapshotId.new_ok_iff]

theorem applicationKind_codes : Wire decodeApplicationKind
    (fun id => Writer.string "application_snapshot_kind" id.value) (fun _ => True) :=
  (string_codes _).checked SnapshotId.value (fun _ _ => trivial) fun value id _ => by
    simp [ApplicationSnapshotKind.new, SnapshotId.new_ok_iff]

theorem applicationVersion_codes : Wire decodeApplicationVersion
    (fun version => Writer.u16 version.value) (fun _ => True) :=
  u16_codes.checked ApplicationSnapshotVersion.value (fun version _ => version.lt)
    fun value version h => by simp [ApplicationSnapshotVersion.new_ok_iff h]

theorem rebuildMetadata_ok_iff {groupId : SnapshotGroupId} {writerId : NodeId}
    {index term hardStateTerm : ℕ} {application : ApplicationSnapshotMetadata}
    {committed : Option SnapshotCommittedConfiguration} {metadata : RaftSnapshotMetadata} :
    rebuildMetadata groupId writerId index term hardStateTerm application committed = .ok metadata ↔
      metadata = ⟨groupId, writerId, index, term, hardStateTerm, application, committed⟩ ∧
        metadata.Valid := by
  simp only [rebuildMetadata, Bytes.bind_eq_ok_iff, Bytes.mapError_eq_ok_iff,
    RaftSnapshotMetadata.new_ok_iff]
  constructor
  · rintro ⟨base, ⟨rfl, hvalid⟩, h⟩
    cases committed with
    | none | some =>
      obtain rfl := Except.ok.inj h
      exact ⟨rfl, hvalid⟩
  · rintro ⟨rfl, hvalid⟩
    refine ⟨⟨groupId, writerId, index, term, hardStateTerm, application, none⟩, ⟨rfl, hvalid⟩, ?_⟩
    cases committed <;> rfl

theorem metadata_codes :
    Wire decodeMetadata encodeMetadata (fun metadata => metadata.InRange ∧ metadata.Valid) := by
  refine Codes.freeField RaftSnapshotMetadata.groupId groupId_codes fun groupId => ?_
  refine Codes.field RaftSnapshotMetadata.writerId u64_codes
    (fun _ => and_assoc) fun writerId => ?_
  refine Codes.field RaftSnapshotMetadata.lastIncludedIndex u64_codes
    (fun _ => and_assoc) fun index => ?_
  refine Codes.field RaftSnapshotMetadata.lastIncludedTerm u64_codes
    (fun _ => and_assoc) fun term => ?_
  refine Codes.field RaftSnapshotMetadata.hardStateTerm u64_codes
    (fun _ => and_assoc) fun hardStateTerm => ?_
  refine Codes.freeField (fun m : RaftSnapshotMetadata => m.application.kind)
    applicationKind_codes fun kind => ?_
  refine Codes.freeField (fun m : RaftSnapshotMetadata => m.application.version)
    applicationVersion_codes fun version => ?_
  refine Codes.checked RaftSnapshotMetadata.committedConfiguration committedConfiguration_codes
    (fun _ h => h.1) fun committed metadata h => ?_
  rw [rebuildMetadata_ok_iff]
  constructor
  · rintro ⟨rfl, hvalid⟩
    exact ⟨rfl, by simp, h, hvalid⟩
  · rintro ⟨rfl, hctx, -, hvalid⟩
    refine ⟨?_, hvalid⟩
    obtain ⟨_, _, _, _, _, ⟨_, _⟩, _⟩ := metadata
    simp only [true_and] at hctx
    obtain ⟨⟨⟨⟨⟨⟨rfl, rfl⟩, rfl⟩, rfl⟩, rfl⟩, rfl⟩, rfl⟩ := hctx
    rfl

end Rafter.Codec
