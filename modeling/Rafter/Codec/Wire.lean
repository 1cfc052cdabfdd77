import Rafter.Bytes.BigEndian
import Rafter.Types.Range
import Rafter.Types.Validate

/-!
# Wire primitives of the peer codec

`crates/rafter-codec/src/wire.rs`, `error.rs` and `v1/tags.rs`: integers, booleans, strings and
blobs, and the discriminants of messages, log entries and memberships. A byte is read as the number
it is.

Results: each primitive and each tag reads back exactly what it writes (`u64_codes`, `bool_codes`,
`string_codes`, `messageTag_codes` and so on).
-/

namespace Rafter.Codec

open Bytes (Codes Writes Reads)

/-! ## Errors -/

/-- `EncodePeerMessageError`. -/
inductive EncodePeerMessageError where
  | fieldTooLarge (field : String) (len max : ℕ)
  | unsupportedMessage (message reason : String)
deriving DecidableEq

/-- `DecodePeerMessageError`. -/
inductive DecodePeerMessageError where
  | unexpectedEof (needed remaining : ℕ)
  | invalidMagic (magic : List UInt8)
  | unsupportedVersion (version : ℕ)
  | unknownMessageType (value : ℕ)
  | invalidBoolean (value : ℕ)
  | invalidUtf8 (field : String)
  | invalidSnapshotGroupId (error : SnapshotIdError)
  | invalidApplicationSnapshotKind (error : SnapshotIdError)
  | invalidApplicationSnapshotVersion (error : SnapshotMetadataError)
  | invalidSnapshotMetadata (error : SnapshotMetadataError)
  | invalidMembership (error : MembershipValidationError)
  | nonCanonicalMembershipOrder (field : String)
  | unknownLogEntryKind (value : ℕ)
  | unknownMembershipKind (value : ℕ)
  | frameChecksumMismatch (expected actual : ℕ)
  | trailingBytes (remaining : ℕ)
deriving DecidableEq

/-- A reader of peer messages. -/
abbrev Reader (α : Type) := Bytes.Reader DecodePeerMessageError α

/-- A writer of peer messages. -/
abbrev Writer := Bytes.Writer EncodePeerMessageError Unit

/-- What is read and written without a condition on what came before. -/
abbrev Wire {α : Type} (read : Reader α) (write : α → Writer) (dom : α → Prop) : Prop :=
  Codes (fun _ => True) read write dom

/-! ## Integers and booleans -/

/-- A big-endian number. -/
def Reader.uint (width : ℕ) : Reader ℕ := Bytes.Reader.uint .unexpectedEof width

/-- `Reader::u8`. -/
def Reader.u8 : Reader ℕ := Reader.uint 1
/-- `Reader::u16`. -/
def Reader.u16 : Reader ℕ := Reader.uint 2
/-- `Reader::u32`. -/
def Reader.u32 : Reader ℕ := Reader.uint 4
/-- `Reader::u64`. -/
def Reader.u64 : Reader ℕ := Reader.uint 8

/-- `Writer::u8`. -/
def Writer.u8 (value : ℕ) : Writer := Bytes.Writer.uint 1 value
/-- `Writer::u16`. -/
def Writer.u16 (value : ℕ) : Writer := Bytes.Writer.uint 2 value
/-- `Writer::u32`. -/
def Writer.u32 (value : ℕ) : Writer := Bytes.Writer.uint 4 value
/-- `Writer::u64`. -/
def Writer.u64 (value : ℕ) : Writer := Bytes.Writer.uint 8 value

theorem u8_codes : Wire Reader.u8 Writer.u8 (· < 256) :=
  Bytes.uint_codes.congr fun n => by simp

theorem u16_codes : Wire Reader.u16 Writer.u16 (· < 2 ^ 16) :=
  Bytes.uint_codes.congr fun n => by simp

theorem u32_codes : Wire Reader.u32 Writer.u32 (· < 2 ^ 32) :=
  Bytes.uint_codes.congr fun n => by simp

theorem u64_codes : Wire Reader.u64 Writer.u64 (· ≤ u64Max) :=
  Bytes.uint_codes.congr fun n => by rw [le_u64Max_iff]

/-- The byte check of `Reader::bool`. -/
def boolean : ℕ → Except DecodePeerMessageError Bool
  | 0 => .ok false
  | 1 => .ok true
  | other => .error (.invalidBoolean other)

/-- `Reader::bool`. -/
def Reader.bool : Reader Bool := do
  let byte ← Reader.u8
  Bytes.Reader.check (boolean byte)

/-- `Writer::bool`. -/
def Writer.bool (value : Bool) : Writer := Writer.u8 value.toNat

theorem boolean_eq_ok_iff {n : ℕ} {b : Bool} : boolean n = .ok b ↔ n = b.toNat := by
  unfold boolean
  split <;> cases b <;> simp_all

theorem bool_codes : Wire Reader.bool Writer.bool (fun _ => True) := by
  refine u8_codes.checked Bool.toNat (fun b _ => ?_) fun n b _ => by simp [boolean_eq_ok_iff]
  cases b <;> decide

/-- A field behind a boolean that says whether it is there. -/
def Reader.option {α : Type} (read : Reader α) : Reader (Option α) :=
  Bytes.Reader.optional Reader.bool read

/-- A presence byte, then the value. -/
def Writer.option {α : Type} (write : α → Writer) (item : Option α) : Writer :=
  Bytes.Writer.optional Writer.bool write item

theorem option_codes {α : Type} {read : Reader α} {write : α → Writer} {dom : α → Prop}
    (h : Wire read write dom) :
    Wire (Reader.option read) (Writer.option write) (fun item => ∀ a ∈ item, dom a) :=
  bool_codes.optional h

/-! ## Strings and blobs -/

/-- `length_u16`. -/
def Writer.lengthU16 (field : String) (len : ℕ) : Writer :=
  Bytes.Writer.length (fun len => .fieldTooLarge field len (2 ^ 16 - 1)) 2 len

/-- `length_u32`. -/
def Writer.lengthU32 (field : String) (len : ℕ) : Writer :=
  Bytes.Writer.length (fun len => .fieldTooLarge field len (2 ^ 32 - 1)) 4 len

/-- `Reader::string`. -/
def Reader.string (field : String) : Reader (List Char) := do
  let bytes ← Bytes.Reader.sized .unexpectedEof 2
  Bytes.Reader.check (match Bytes.decodeText bytes with
    | some value => .ok value
    | none => .error (.invalidUtf8 field))

/-- `Writer::string`. -/
def Writer.string (field : String) (value : List Char) : Writer :=
  Bytes.Writer.sized (fun len => .fieldTooLarge field len (2 ^ 16 - 1)) 2 (Bytes.encodeText value)

/-- `Reader::blob` and `Reader::shared_blob_range`: the latter's range is always in bounds. -/
def Reader.blob : Reader (List UInt8) := Bytes.Reader.sized .unexpectedEof 4

/-- `Writer::blob`. -/
def Writer.blob (field : String) (value : List UInt8) : Writer :=
  Bytes.Writer.sized (fun len => .fieldTooLarge field len (2 ^ 32 - 1)) 4 value

theorem string_codes (field : String) :
    Wire (Reader.string field) (Writer.string field) (fun _ => True) := by
  refine Bytes.sized_codes.checked Bytes.encodeText (fun _ _ => trivial) fun bytes text _ => ?_
  rw [← Bytes.decodeText_eq_some_iff]
  cases Bytes.decodeText bytes <;> simp

theorem blob_codes (field : String) : Wire Reader.blob (Writer.blob field) (fun _ => True) :=
  Bytes.sized_codes

/-! ## Tags -/

/-- `MessageTag`. Value 5 is reserved for the draft whole-snapshot form. -/
inductive MessageTag where
  | requestVote
  | requestVoteResponse
  | appendEntries
  | appendEntriesResponse
  | installSnapshotResponse
  | installSnapshotChunk
  | preVote
  | preVoteResponse
  | timeoutNow
deriving DecidableEq

namespace MessageTag

/-- The byte of the tag. -/
def toU8 : MessageTag → ℕ
  | requestVote => 1
  | requestVoteResponse => 2
  | appendEntries => 3
  | appendEntriesResponse => 4
  | installSnapshotResponse => 6
  | installSnapshotChunk => 7
  | preVote => 8
  | preVoteResponse => 9
  | timeoutNow => 10

/-- The tag of a byte. -/
def tryFrom : ℕ → Except DecodePeerMessageError MessageTag
  | 1 => .ok requestVote
  | 2 => .ok requestVoteResponse
  | 3 => .ok appendEntries
  | 4 => .ok appendEntriesResponse
  | 6 => .ok installSnapshotResponse
  | 7 => .ok installSnapshotChunk
  | 8 => .ok preVote
  | 9 => .ok preVoteResponse
  | 10 => .ok timeoutNow
  | other => .error (.unknownMessageType other)

end MessageTag

/-- `LogEntryTag`. -/
inductive LogEntryTag where
  | application
  | configurationStable
  | configurationJoint
  | noop
deriving DecidableEq

namespace LogEntryTag

/-- The byte of the tag. -/
def toU8 : LogEntryTag → ℕ
  | application => 0
  | configurationStable => 1
  | configurationJoint => 2
  | noop => 3

/-- The tag of a byte. -/
def tryFrom : ℕ → Except DecodePeerMessageError LogEntryTag
  | 0 => .ok application
  | 1 => .ok configurationStable
  | 2 => .ok configurationJoint
  | 3 => .ok noop
  | other => .error (.unknownLogEntryKind other)

end LogEntryTag

/-- `MembershipTag`. -/
inductive MembershipTag where
  | stable
  | joint
deriving DecidableEq

namespace MembershipTag

/-- The byte of the tag. -/
def toU8 : MembershipTag → ℕ
  | stable => 0
  | joint => 1

/-- The tag of a byte. -/
def tryFrom : ℕ → Except DecodePeerMessageError MembershipTag
  | 0 => .ok stable
  | 1 => .ok joint
  | other => .error (.unknownMembershipKind other)

end MembershipTag

/-- Read one byte as a tag. -/
def Reader.tag {α : Type} (tryFrom : ℕ → Except DecodePeerMessageError α) : Reader α := do
  let byte ← Reader.u8
  Bytes.Reader.check (tryFrom byte)

/-- A tag type whose bytes are distinct and below 256. -/
theorem tag_codes {α : Type} {tryFrom : ℕ → Except DecodePeerMessageError α} {toU8 : α → ℕ}
    (hlt : ∀ tag, toU8 tag < 256) (hiff : ∀ n tag, tryFrom n = .ok tag ↔ n = toU8 tag) :
    Wire (Reader.tag tryFrom) (fun tag => Writer.u8 (toU8 tag)) (fun _ => True) := by
  exact u8_codes.checked toU8 (fun tag _ => hlt tag) fun n tag _ => by simp [hiff]

theorem messageTag_codes :
    Wire (Reader.tag MessageTag.tryFrom) (fun tag => Writer.u8 tag.toU8) (fun _ => True) := by
  refine tag_codes (fun tag => by cases tag <;> decide) fun n tag => ?_
  unfold MessageTag.tryFrom
  split <;> cases tag <;> simp_all [MessageTag.toU8]

theorem logEntryTag_codes :
    Wire (Reader.tag LogEntryTag.tryFrom) (fun tag => Writer.u8 tag.toU8) (fun _ => True) := by
  refine tag_codes (fun tag => by cases tag <;> decide) fun n tag => ?_
  unfold LogEntryTag.tryFrom
  split <;> cases tag <;> simp_all [LogEntryTag.toU8]

theorem membershipTag_codes :
    Wire (Reader.tag MembershipTag.tryFrom) (fun tag => Writer.u8 tag.toU8) (fun _ => True) := by
  refine tag_codes (fun tag => by cases tag <;> decide) fun n tag => ?_
  unfold MembershipTag.tryFrom
  split <;> cases tag <;> simp_all [MembershipTag.toU8]

end Rafter.Codec
