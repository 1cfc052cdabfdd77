import Rafter.Types.Entry

/-!
# Snapshot descriptors and transfer identities

`crates/rafter/src/types/snapshot/` (`identity.rs`, `metadata.rs`, `checksum.rs`, `transfer.rs`,
`transfer_id.rs`, `status.rs`).

Group ids and application kinds are validated ASCII strings in the source; they are character
lists here and the structure carries the validation. Hashes are computed on `ℕ` modulo the word
size.
-/

namespace Rafter

/-- The characters `validate_snapshot_id` admits. -/
def snapshotIdCharacter (c : Char) : Bool :=
  (decide ('A' ≤ c) && decide (c ≤ 'Z')) || (decide ('a' ≤ c) && decide (c ≤ 'z'))
    || (decide ('0' ≤ c) && decide (c ≤ '9')) || c == '-' || c == '_' || c == '.' || c == ':'

/-- A validated snapshot identifier (`SnapshotGroupId` and `ApplicationSnapshotKind`). -/
structure SnapshotId where
  value : List Char
  ne_nil : value ≠ []
  length_le : value.length ≤ 128
  valid : ∀ c ∈ value, snapshotIdCharacter c
deriving DecidableEq

/-- `SnapshotGroupId`. -/
abbrev SnapshotGroupId := SnapshotId
/-- `ApplicationSnapshotKind`. -/
abbrev ApplicationSnapshotKind := SnapshotId

/-- `ApplicationSnapshotVersion`: a nonzero `u16`. -/
structure ApplicationSnapshotVersion where
  value : ℕ
  ne_zero : value ≠ 0
  lt : value < 2 ^ 16
deriving DecidableEq

/-- `ApplicationSnapshotMetadata`. -/
structure ApplicationSnapshotMetadata where
  kind : ApplicationSnapshotKind
  version : ApplicationSnapshotVersion
deriving DecidableEq

/-- `SnapshotCommittedConfiguration`. -/
structure SnapshotCommittedConfiguration where
  configuration : Option CommittedConfiguration
  membership : MembershipConfig
deriving DecidableEq

/-- `RaftSnapshotMetadata`. -/
structure RaftSnapshotMetadata where
  groupId : SnapshotGroupId
  writerId : NodeId
  lastIncludedIndex : ℕ
  lastIncludedTerm : ℕ
  hardStateTerm : ℕ
  application : ApplicationSnapshotMetadata
  committedConfiguration : Option SnapshotCommittedConfiguration
deriving DecidableEq

namespace RaftSnapshotMetadata

/-- `RaftSnapshotMetadata::committed_membership`. -/
def committedMembership (m : RaftSnapshotMetadata) : Option MembershipConfig :=
  m.committedConfiguration.map (·.membership)

/-- `RaftSnapshotMetadata::committed_configuration_state`. -/
def committedConfigurationState (m : RaftSnapshotMetadata) : Option CommittedConfiguration :=
  m.committedConfiguration.bind (·.configuration)

end RaftSnapshotMetadata

/-- `RaftSnapshot`. -/
structure RaftSnapshot where
  metadata : RaftSnapshotMetadata
  applicationPayloadLen : ℕ
  applicationPayloadCrc32 : ℕ
deriving DecidableEq

/-! ## Payload checksum -/

/-- One bit of the reflected CRC-32 division. -/
def crcBit (crc : ℕ) : ℕ :=
  if crc % 2 = 1 then (crc / 2).xor 0xEDB88320 else crc / 2

/-- `TABLES[slice][byte]` of `build_tables`. -/
def crcTable : ℕ → ℕ → ℕ
  | 0, byte => crcBit^[8] byte
  | slice + 1, byte =>
    let previous := crcTable slice byte
    (previous / 256).xor (crcBit^[8] (previous % 256))

/-- The eight-byte blocks of `crc32`, then the byte-wise tail. -/
def crcBlocks : ℕ → List UInt8 → ℕ
  | state, a :: b :: c :: d :: e :: f :: g :: h :: rest =>
    let word := state.xor (a.toNat + 256 * b.toNat + 65536 * c.toNat + 16777216 * d.toNat)
    crcBlocks
      ((crcTable 7 (word % 256)).xor ((crcTable 6 (word / 256 % 256)).xor
        ((crcTable 5 (word / 65536 % 256)).xor ((crcTable 4 (word / 16777216)).xor
          ((crcTable 3 e.toNat).xor ((crcTable 2 f.toNat).xor
            ((crcTable 1 g.toNat).xor (crcTable 0 h.toNat)))))))) rest
  | state, tail =>
    tail.foldl (fun state byte =>
      (state / 256).xor (crcTable 0 ((state.xor byte.toNat) % 256))) state

/-- `crc32`. -/
def crc32 (bytes : List UInt8) : ℕ :=
  (crcBlocks 0xFFFFFFFF bytes).xor 0xFFFFFFFF

/-- `RaftSnapshot::from_payload`. -/
def RaftSnapshot.fromPayload (metadata : RaftSnapshotMetadata) (payload : Payload) :
    RaftSnapshot where
  metadata := metadata
  applicationPayloadLen := payload.length
  applicationPayloadCrc32 := crc32 payload

/-! ## Transfer identity -/

/-- One FNV-1a round. -/
def fnvByte (hash byte : ℕ) : ℕ := (hash.xor byte * 0x0100000001b3) % 2 ^ 64

/-- `u64::to_be_bytes`. -/
def toBeBytes (value : ℕ) : List ℕ :=
  [value / 2 ^ 56 % 256, value / 2 ^ 48 % 256, value / 2 ^ 40 % 256, value / 2 ^ 32 % 256,
    value / 2 ^ 24 % 256, value / 2 ^ 16 % 256, value / 2 ^ 8 % 256, value % 256]

/-- `feed_u64`. -/
def feedU64 (hash value : ℕ) : ℕ := (toBeBytes value).foldl fnvByte hash

/-- `feed_str`. -/
def feedStr (hash : ℕ) (value : List Char) : ℕ :=
  (value.map Char.toNat).foldl fnvByte (feedU64 hash value.length)

/-- `feed_membership_set`. -/
def feedMembershipSet (hash : ℕ) (m : MembershipSet) : ℕ :=
  let hash := m.voters.foldl feedU64 (feedU64 hash m.voters.length)
  m.learners.foldl feedU64 (feedU64 hash m.learners.length)

/-- `feed_membership_config`. -/
def feedMembershipConfig (hash : ℕ) : MembershipConfig → ℕ
  | .stable s => feedMembershipSet (feedU64 hash 0) s
  | .joint j => feedMembershipSet (feedMembershipSet (feedU64 hash 1) j.old) j.new

/-- `feed_optional_committed_configuration`. -/
def feedOptionalCommittedConfiguration (hash : ℕ) : Option SnapshotCommittedConfiguration → ℕ
  | some committed =>
    let hash := feedU64 hash 1
    let hash := match committed.configuration with
      | some c => feedU64 (feedU64 (feedU64 hash 1) c.index) c.configId
      | none => feedU64 hash 0
    feedMembershipConfig hash committed.membership
  | none => feedU64 hash 0

/-- `snapshot_transfer_id_from_parts`. -/
def snapshotTransferIdFromParts (m : RaftSnapshotMetadata) (totalPayloadLen payloadCrc32 : ℕ) :
    SnapshotTransferId :=
  let hash := feedStr 0xcbf29ce484222325 m.groupId.value
  let hash := feedU64 hash m.writerId
  let hash := feedU64 hash m.lastIncludedIndex
  let hash := feedU64 hash m.lastIncludedTerm
  let hash := feedU64 hash m.hardStateTerm
  let hash := feedStr hash m.application.kind.value
  let hash := feedU64 hash m.application.version.value
  let hash := feedOptionalCommittedConfiguration hash m.committedConfiguration
  let hash := feedU64 hash totalPayloadLen
  let hash := feedU64 hash payloadCrc32
  if hash = 0 then 1 else hash

/-- `RaftSnapshot::transfer_id`. -/
def RaftSnapshot.transferId (s : RaftSnapshot) : SnapshotTransferId :=
  snapshotTransferIdFromParts s.metadata s.applicationPayloadLen s.applicationPayloadCrc32

/-! ## Transfers -/

/-- The leader's directive to stream one chunk. -/
structure SnapshotChunkSend where
  term : ℕ
  leaderId : NodeId
  transferId : SnapshotTransferId
  metadata : RaftSnapshotMetadata
  totalPayloadLen : ℕ
  applicationPayloadCrc32 : ℕ
  offset : ℕ
  len : ℕ
  done : Bool
deriving DecidableEq

/-- `StagedSnapshotChunk`. -/
structure StagedSnapshotChunk where
  leaderId : NodeId
  transferId : SnapshotTransferId
  metadata : RaftSnapshotMetadata
  totalPayloadLen : ℕ
  applicationPayloadCrc32 : ℕ
  offset : ℕ
  bytes : Payload
  done : Bool
deriving DecidableEq

/-- `PendingSnapshotTransfer`. -/
structure PendingSnapshotTransfer where
  leaderId : NodeId
  transferId : SnapshotTransferId
  metadata : RaftSnapshotMetadata
  totalPayloadLen : ℕ
  applicationPayloadCrc32 : ℕ
  receivedLen : ℕ
deriving DecidableEq

/-- `SnapshotChunkRejectionCounters`. -/
structure SnapshotChunkRejectionCounters where
  staleTerm : ℕ := 0
  wrongTransfer : ℕ := 0
  metadataMismatch : ℕ := 0
  outOfOrderOffset : ℕ := 0
  invalidBounds : ℕ := 0
  corruptPersistedPendingTransfer : ℕ := 0
deriving DecidableEq

end Rafter
