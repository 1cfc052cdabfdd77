import Rafter.Storage.Format

/-!
# Persisted log entries

`crates/rafter-storage/src/format/v1/log_entry/`: a log entry with its durable index, and its RFLE
envelope. Reserving capacity for a decoded list of node ids has no effect on what is decoded and is
not modelled.

Results:

* `decodeRaftLogEntry_eq_ok_iff`: an envelope decodes to an entry exactly if it is the entry's own
  encoding;
* `encodeRaftLogEntry_isOk`: every entry below the maximum index whose envelope fits a frame has an
  envelope, of the length `PersistedRaftLogEntry.envelopeLen` says.
-/

namespace Rafter.Storage

open Bytes (Codes Writes Reads EnvelopeErrors)

/-- `PersistedRaftLogEntry`: a log entry after its durable index has been assigned. -/
structure PersistedRaftLogEntry where
  index : ℕ
  term : ℕ
  kind : LogEntryKind
deriving DecidableEq

/-- The entry's numbers are the source's: every Rust value is in range. -/
def PersistedRaftLogEntry.InRange (e : PersistedRaftLogEntry) : Prop :=
  e.index ≤ u64Max ∧ e.term ≤ u64Max ∧ e.kind.InRange

instance (e : PersistedRaftLogEntry) : Decidable e.InRange :=
  inferInstanceAs (Decidable (_ ∧ _ ∧ _))

/-! ## Errors -/

/-- `EncodeRaftLogEntryError`. -/
inductive EncodeRaftLogEntryError where
  | payloadTooLarge (len : ℕ)
  | tooManyMembers (len : ℕ)
  | indexAtMaximum
deriving DecidableEq

/-- `DecodeRaftLogEntryError`. -/
inductive DecodeRaftLogEntryError where
  | unexpectedEof (needed remaining : ℕ)
  | invalidMagic (magic : List UInt8)
  | unsupportedVersion (version : ℕ)
  | unknownEntryKind (kind : ℕ)
  | indexAtMaximum
  | invalidMembership (error : MembershipValidationError)
  | nonCanonicalMembershipOrder (memberKind : String) (previous actual : NodeId)
  | checksumMismatch (expected actual : ℕ)
  | trailingBytes (remaining : ℕ)
deriving DecidableEq

/-- The errors of the envelope. -/
def logEntryErrors : EnvelopeErrors DecodeRaftLogEntryError where
  unexpectedEof := .unexpectedEof
  invalidMagic := .invalidMagic
  unsupportedVersion := .unsupportedVersion
  checksumMismatch := .checksumMismatch
  trailingBytes := .trailingBytes

/-- A reader of log entries. -/
abbrev EntryReader (α : Type) := Bytes.Reader DecodeRaftLogEntryError α

/-- A writer of log entries. -/
abbrev EntryWriter := Bytes.Writer EncodeRaftLogEntryError Unit

/-- The codec of a part of an entry. -/
abbrev EntryWire {α : Type} (read : EntryReader α) (write : α → EntryWriter) (dom : α → Prop) :
    Prop :=
  Codes (fun _ => True) read write dom

/-! ## Memberships -/

/-- `write_node_ids`. -/
def writeNodeIds (nodeIds : List NodeId) : EntryWriter := do
  Bytes.Writer.length .tooManyMembers 4 nodeIds.length
  nodeIds.forM writeU64

/-- `write_membership_set`. -/
def writeMembershipSet (membership : MembershipSet) : EntryWriter := do
  writeNodeIds membership.voters
  writeNodeIds membership.learners

/-- The order check of `read_node_ids` against the id read before. -/
def checkAscending (memberKind : String) (previous : Option NodeId) (nodeId : NodeId) :
    Except DecodeRaftLogEntryError Unit :=
  match previous with
  | some previous =>
    if nodeId < previous then .error (.nonCanonicalMembershipOrder memberKind previous nodeId)
    else .ok ()
  | none => .ok ()

/-- The loop of `read_node_ids`. -/
def readAscending (memberKind : String) : Option NodeId → ℕ → EntryReader (List NodeId)
  | _, 0 => pure []
  | previous, n + 1 => do
    let nodeId ← u64 logEntryErrors
    Bytes.Reader.check (checkAscending memberKind previous nodeId)
    let rest ← readAscending memberKind (some nodeId) n
    return nodeId :: rest

/-- `read_node_ids`. -/
def readNodeIds (memberKind : String) : EntryReader (List NodeId) := do
  let len ← u32 logEntryErrors
  readAscending memberKind none len

/-- `read_membership_set`. -/
def readMembershipSet : EntryReader MembershipSet := do
  let voters ← readNodeIds "voters"
  let learners ← readNodeIds "learners"
  Bytes.Reader.check ((MembershipSet.new voters learners).mapError .invalidMembership)

variable {memberKind : String} {previous : Option NodeId}

theorem checkAscending_eq_ok_iff {nodeId : NodeId} {u : Unit} :
    checkAscending memberKind previous nodeId = .ok u ↔ ∀ p ∈ previous, p ≤ nodeId := by
  cases previous with
  | none => simp [checkAscending]
  | some p =>
    rw [checkAscending]
    by_cases h : nodeId < p <;> simp [h, Nat.le_of_not_lt]

theorem reads_readAscending {n : ℕ} {input rest : List UInt8} {ids : List NodeId} :
    Reads (readAscending memberKind previous n) input ids rest ↔
      Reads (Bytes.Reader.count (u64 logEntryErrors) n) input ids rest ∧
        (previous.toList ++ ids).IsChain (· ≤ ·) := by
  induction n generalizing previous input ids rest with
  | zero =>
    rw [readAscending, Bytes.Reader.count, Bytes.reads_pure]
    constructor
    · rintro ⟨rfl, rfl⟩
      cases previous <;> simp
    · rintro ⟨h, -⟩
      exact h
  | succ n ih =>
    simp only [readAscending, Bytes.Reader.count, Bytes.reads_bind, Bytes.reads_check,
      Bytes.reads_pure, checkAscending_eq_ok_iff, ih]
    constructor
    · rintro ⟨id, _, hid, -, _, ⟨hp, rfl⟩, ids, _, ⟨hids, hchain⟩, rfl, rfl⟩
      refine ⟨⟨id, _, hid, ids, _, hids, rfl, rfl⟩, ?_⟩
      cases previous with
      | none => exact hchain
      | some p => exact List.isChain_cons_cons.2 ⟨hp p rfl, hchain⟩
    · rintro ⟨⟨id, _, hid, ids, _, hids, rfl, rfl⟩, hchain⟩
      cases previous with
      | none => exact ⟨id, _, hid, (), _, ⟨by simp, rfl⟩, ids, _, ⟨hids, hchain⟩, rfl, rfl⟩
      | some p =>
        obtain ⟨hp, hchain⟩ := List.isChain_cons_cons.1 hchain
        exact ⟨id, _, hid, (), _, ⟨by simpa using hp, rfl⟩, ids, _, ⟨hids, hchain⟩, rfl, rfl⟩

theorem nodeIds_codes (memberKind : String) : EntryWire (readNodeIds memberKind) writeNodeIds
    (fun ids => (∀ n ∈ ids, n ≤ u64Max) ∧ ids.Pairwise (· ≤ ·)) := by
  have hcounted : EntryWire (u32 logEntryErrors >>= fun n =>
      Bytes.Reader.count (u64 logEntryErrors) n) writeNodeIds (fun ids => ∀ n ∈ ids, n ≤ u64Max) :=
    Bytes.counted_codes u64_codes
  refine hcounted.restrict fun input ids rest => ?_
  simp only [readNodeIds, Bytes.reads_bind, reads_readAscending, Option.toList_none,
    List.nil_append, List.isChain_iff_pairwise]
  constructor
  · rintro ⟨len, left, hlen, hids, hsorted⟩
    exact ⟨⟨len, left, hlen, hids⟩, hsorted⟩
  · rintro ⟨⟨len, left, hlen, hids⟩, hsorted⟩
    exact ⟨len, left, hlen, hids, hsorted⟩

/-- The two halves of a membership as they are read, before they are validated. -/
theorem halves_codes : EntryWire (readNodeIds "voters" >>= fun voters =>
      readNodeIds "learners" >>= fun learners => pure (voters, learners))
    (fun halves : List NodeId × List NodeId =>
      writeNodeIds halves.1 >>= fun _ => writeNodeIds halves.2)
    (fun halves => ((∀ n ∈ halves.1, n ≤ u64Max) ∧ halves.1.Pairwise (· ≤ ·)) ∧
      (∀ n ∈ halves.2, n ≤ u64Max) ∧ halves.2.Pairwise (· ≤ ·)) :=
  (nodeIds_codes _).pair (nodeIds_codes _)

theorem membershipSet_codes :
    EntryWire readMembershipSet writeMembershipSet MembershipSet.InRange := by
  have hread : readMembershipSet = (readNodeIds "voters" >>= fun voters =>
      readNodeIds "learners" >>= fun learners => pure (voters, learners)) >>= fun halves =>
      Bytes.Reader.check ((MembershipSet.new halves.1 halves.2).mapError .invalidMembership) := by
    simp only [readMembershipSet, bind_assoc, pure_bind]
  have hsorted : ∀ m : MembershipSet, m.voters.Pairwise (· ≤ ·) ∧ m.learners.Pairwise (· ≤ ·) :=
    fun m => ⟨m.voters_sorted.imp le_of_lt, m.learners_sorted.imp le_of_lt⟩
  rw [hread]
  refine halves_codes.checked (fun m : MembershipSet => (m.voters, m.learners))
    (fun m h => ⟨⟨h.1, (hsorted m).1⟩, h.2, (hsorted m).2⟩) ?_
  rintro ⟨voters, learners⟩ m ⟨⟨hvoters, hv⟩, hlearners, hl⟩
  rw [Bytes.mapError_eq_ok_iff, MembershipSet.new_ok_iff, hv.insertionSort_eq, hl.insertionSort_eq]
  constructor
  · rintro ⟨rfl, rfl⟩
    exact ⟨rfl, trivial, hvoters, hlearners⟩
  · rintro ⟨h, -, -⟩
    exact ⟨(congrArg Prod.fst h).symm, (congrArg Prod.snd h).symm⟩

/-! ## Entry kinds -/

/-- `RAFT_LOG_ENTRY_KIND_*`. -/
inductive EntryKindTag where
  | application
  | stableConfiguration
  | jointConfiguration
  | noop
deriving DecidableEq

namespace EntryKindTag

/-- The byte of the tag. -/
def toU8 : EntryKindTag → ℕ
  | application => 0
  | stableConfiguration => 1
  | jointConfiguration => 2
  | noop => 3

/-- The tag of a byte. -/
def tryFrom : ℕ → Except DecodeRaftLogEntryError EntryKindTag
  | 0 => .ok application
  | 1 => .ok stableConfiguration
  | 2 => .ok jointConfiguration
  | 3 => .ok noop
  | unknown => .error (.unknownEntryKind unknown)

end EntryKindTag

/-- `write_payload`. -/
def writePayload (payload : Payload) : EntryWriter := Bytes.Writer.sized .payloadTooLarge 4 payload

/-- `write_log_entry_kind`. -/
def writeLogEntryKind : LogEntryKind → EntryWriter
  | .application payload => do
    writeU8 EntryKindTag.application.toU8
    writePayload payload
  | .configuration (.stable configId membership) => do
    writeU8 EntryKindTag.stableConfiguration.toU8
    writeU64 configId
    writeMembershipSet membership
  | .configuration (.joint configId membership) => do
    writeU8 EntryKindTag.jointConfiguration.toU8
    writeU64 configId
    writeMembershipSet membership.old
    writeMembershipSet membership.new
  | .noop => writeU8 EntryKindTag.noop.toU8

/-- The kind byte, as the decoder's match reads it. -/
def readEntryKindTag : EntryReader EntryKindTag := do
  let kind ← u8 logEntryErrors
  Bytes.Reader.check (EntryKindTag.tryFrom kind)

/-- `read_log_entry_kind`. -/
def readLogEntryKind : EntryReader LogEntryKind := do
  match ← readEntryKindTag with
  | .application =>
    let payload ← Bytes.Reader.sized logEntryErrors.unexpectedEof 4
    return .application payload
  | .stableConfiguration =>
    let configId ← u64 logEntryErrors
    let membership ← readMembershipSet
    return .configuration (.stable configId membership)
  | .jointConfiguration =>
    let configId ← u64 logEntryErrors
    let old ← readMembershipSet
    let new ← readMembershipSet
    return .configuration (.joint configId ⟨old, new⟩)
  | .noop => return .noop

theorem entryKindTag_codes :
    EntryWire readEntryKindTag (fun tag => writeU8 tag.toU8) (fun _ => True) := by
  refine u8_codes.checked EntryKindTag.toU8 (fun tag _ => by cases tag <;> decide)
    fun n tag _ => ?_
  unfold EntryKindTag.tryFrom
  split <;> cases tag <;> simp_all [EntryKindTag.toU8]

/-- The tag `write_log_entry_kind` writes. -/
def entryKindTag : LogEntryKind → EntryKindTag
  | .application _ => .application
  | .configuration (.stable ..) => .stableConfiguration
  | .configuration (.joint ..) => .jointConfiguration
  | .noop => .noop

/-- What follows the tag of an entry kind. -/
def writeEntryKindBody : LogEntryKind → EntryWriter
  | .application payload => writePayload payload
  | .configuration (.stable configId membership) => do
    writeU64 configId
    writeMembershipSet membership
  | .configuration (.joint configId membership) => do
    writeU64 configId
    writeMembershipSet membership.old
    writeMembershipSet membership.new
  | .noop => pure ()

variable {kind : LogEntryKind} {entry : PersistedRaftLogEntry}

theorem writes_writeLogEntryKind {bytes : List UInt8} :
    Writes (writeLogEntryKind kind) bytes ↔
      Writes (writeU8 (entryKindTag kind).toU8 >>= fun _ => writeEntryKindBody kind) bytes := by
  cases kind with
  | application payload => rfl
  | configuration c => cases c <;> rfl
  | noop => simp [writeLogEntryKind, writeEntryKindBody, entryKindTag]

theorem joint_codes : EntryWire (readMembershipSet >>= fun old => readMembershipSet >>= fun new =>
      pure (JointMembership.mk old new))
    (fun joint => writeMembershipSet joint.old >>= fun _ => writeMembershipSet joint.new)
    (fun joint => joint.old.InRange ∧ joint.new.InRange) := by
  refine Codes.head JointMembership.old membershipSet_codes fun old => ?_
  refine Codes.final JointMembership.new membershipSet_codes fun new joint => ?_
  cases joint
  simp

theorem logEntryKind_codes : EntryWire readLogEntryKind writeLogEntryKind LogEntryKind.InRange := by
  have hid : EntryWire (u64 logEntryErrors) writeU64 (· ≤ u64Max) := u64_codes
  refine Codes.rewrite ?_ fun kind bytes => writes_writeLogEntryKind
  refine Codes.freeField entryKindTag entryKindTag_codes fun tag => ?_
  cases tag with
  | application =>
    refine Bytes.sized_codes.variant LogEntryKind.application rfl (fun kind => ?_) (fun _ => rfl)
      fun _ => Iff.rfl
    obtain _ | (_ | _) | _ := kind <;> simp [entryKindTag]
  | stableConfiguration =>
    refine (hid.pair membershipSet_codes).variant (fun c => .configuration (.stable c.1 c.2)) ?_
      (fun kind => ?_) (fun _ => rfl) fun _ => Iff.rfl
    · simp only [bind_assoc, pure_bind]
    · obtain _ | (_ | _) | _ := kind <;> simp [entryKindTag]
  | jointConfiguration =>
    refine (hid.pair joint_codes).variant (fun c => .configuration (.joint c.1 c.2)) ?_
      (fun kind => ?_) (fun c => ?_) fun _ => Iff.rfl
    · simp only [bind_assoc, pure_bind]
    · obtain _ | (_ | _) | _ := kind <;> simp [entryKindTag]
    · rw [writeEntryKindBody]
  | noop =>
    refine Codes.known LogEntryKind.noop (fun kind => ?_) rfl trivial
    obtain _ | (_ | _) | _ := kind <;> simp [entryKindTag]

/-! ## Envelopes -/

/-- The first bytes of an entry. -/
def raftLogEntryMagic : List UInt8 := magicBytes "RFLE"

/-- The version of an entry. -/
def raftLogEntryVersion : ℕ := 1

/-- The fields of an envelope after its version. -/
def writeEntryFields (entry : PersistedRaftLogEntry) : EntryWriter := do
  writeU64 entry.index
  writeU64 entry.term
  writeLogEntryKind entry.kind

/-- The fields of an envelope after its version. -/
def readEntryFields : EntryReader PersistedRaftLogEntry := do
  let index ← advanceableLogIndex logEntryErrors .indexAtMaximum
  let term ← u64 logEntryErrors
  let kind ← readLogEntryKind
  return ⟨index, term, kind⟩

/-- `encode_raft_log_entry`. -/
def encodeRaftLogEntry (entry : PersistedRaftLogEntry) :
    Except EncodeRaftLogEntryError (List UInt8) :=
  if entry.index = u64Max then .error .indexAtMaximum
  else Bytes.sealEnvelope crc32 raftLogEntryMagic raftLogEntryVersion (writeEntryFields entry)

/-- `decode_raft_log_entry`. -/
def decodeRaftLogEntry (envelope : List UInt8) :
    Except DecodeRaftLogEntryError PersistedRaftLogEntry :=
  Bytes.openEnvelope logEntryErrors crc32 raftLogEntryMagic raftLogEntryVersion readEntryFields
    envelope

theorem entryFields_codes : EntryWire readEntryFields writeEntryFields
    (fun entry => entry.index < u64Max ∧ entry.term ≤ u64Max ∧ entry.kind.InRange) := by
  refine Codes.head PersistedRaftLogEntry.index advanceableLogIndex_codes fun index => ?_
  refine Codes.head PersistedRaftLogEntry.term u64_codes fun term => ?_
  refine Codes.final PersistedRaftLogEntry.kind logEntryKind_codes fun kind entry => ?_
  cases entry
  simp [and_assoc]

/-- An envelope decodes to an entry exactly if it is the entry's own encoding. -/
theorem decodeRaftLogEntry_eq_ok_iff {envelope : List UInt8} :
    decodeRaftLogEntry envelope = .ok entry ↔
      entry.InRange ∧ encodeRaftLogEntry entry = .ok envelope := by
  rw [decodeRaftLogEntry, envelope_eq_ok_iff (by decide) entryFields_codes, encodeRaftLogEntry]
  by_cases hmax : entry.index = u64Max
  · rw [if_pos hmax]
    refine iff_of_false ?_ (by simp)
    rintro ⟨⟨hlt, -⟩, -⟩
    omega
  · rw [if_neg hmax]
    refine and_congr_left fun _ => and_congr_left fun _ => ?_
    omega

/-! ## Envelope sizes -/

/-- The bytes `write_membership_set` emits. -/
def membershipSetLen (membership : MembershipSet) : ℕ :=
  8 + 8 * membership.voters.length + 8 * membership.learners.length

/-- The bytes `write_log_entry_kind` emits. -/
def entryKindLen : LogEntryKind → ℕ
  | .application payload => 5 + payload.length
  | .configuration (.stable _ membership) => 9 + membershipSetLen membership
  | .configuration (.joint _ membership) =>
    9 + membershipSetLen membership.old + membershipSetLen membership.new
  | .noop => 1

/-- The length of the entry's envelope. -/
def PersistedRaftLogEntry.envelopeLen (entry : PersistedRaftLogEntry) : ℕ :=
  25 + entryKindLen entry.kind

theorem writes_writeNodeIds {ids : List NodeId} (h : ids.length < 2 ^ 32) :
    ∃ bytes, Writes (writeNodeIds ids) bytes ∧ bytes.length = 4 + 8 * ids.length := by
  obtain ⟨bytes, hbytes, hlen⟩ : ∃ bytes, Writes (ids.forM writeU64 : EntryWriter) bytes ∧
      bytes.length = 8 * ids.length := Bytes.writes_forM_uint ids
  refine ⟨Bytes.toBe 4 ids.length ++ bytes, Bytes.writes_bind.2 ⟨_, _, ?_, hbytes, rfl⟩, ?_⟩
  · exact Bytes.writes_length.2 ⟨by omega, rfl⟩
  · rw [List.length_append, Bytes.length_toBe, hlen]

theorem writes_writeMembershipSet {membership : MembershipSet}
    (h : membershipSetLen membership < 2 ^ 32) :
    ∃ bytes, Writes (writeMembershipSet membership) bytes ∧
      bytes.length = membershipSetLen membership := by
  unfold membershipSetLen at h
  obtain ⟨voters, hvoters, hv⟩ := @writes_writeNodeIds membership.voters (by omega)
  obtain ⟨learners, hlearners, hl⟩ := @writes_writeNodeIds membership.learners (by omega)
  refine ⟨voters ++ learners, Bytes.writes_bind.2 ⟨_, _, hvoters, hlearners, rfl⟩, ?_⟩
  rw [List.length_append, hv, hl, membershipSetLen]
  omega

theorem writes_writeU8 (n : ℕ) :
    Writes (writeU8 n : EntryWriter) (Bytes.toBe 1 n) := Bytes.writes_emit.2 rfl

theorem writes_writeU64 (n : ℕ) :
    Writes (writeU64 n : EntryWriter) (Bytes.toBe 8 n) := Bytes.writes_emit.2 rfl

theorem writes_entryKind (h : entryKindLen kind < 2 ^ 32) :
    ∃ bytes, Writes (writeLogEntryKind kind) bytes ∧ bytes.length = entryKindLen kind := by
  obtain payload | (⟨configId, membership⟩ | ⟨configId, membership⟩) | _ := kind
  · rw [entryKindLen] at h
    refine ⟨Bytes.toBe 1 0 ++ (Bytes.toBe 4 payload.length ++ payload), ?_, ?_⟩
    · refine Bytes.writes_bind.2 ⟨_, _, writes_writeU8 _, ?_, rfl⟩
      refine Bytes.writes_bind.2 ⟨_, _, Bytes.writes_length.2 ⟨by omega, rfl⟩, ?_, rfl⟩
      exact Bytes.writes_emit.2 rfl
    · simp only [List.length_append, Bytes.length_toBe, entryKindLen]
      omega
  · rw [entryKindLen] at h
    obtain ⟨set, hset, hlen⟩ := @writes_writeMembershipSet membership (by omega)
    refine ⟨Bytes.toBe 1 1 ++ (Bytes.toBe 8 configId ++ set), ?_, ?_⟩
    · refine Bytes.writes_bind.2 ⟨_, _, writes_writeU8 _, ?_, rfl⟩
      exact Bytes.writes_bind.2 ⟨_, _, writes_writeU64 _, hset, rfl⟩
    · simp only [List.length_append, Bytes.length_toBe, hlen, entryKindLen]
      omega
  · rw [entryKindLen] at h
    obtain ⟨old, hold, hoLen⟩ := @writes_writeMembershipSet membership.old (by omega)
    obtain ⟨new, hnew, hnLen⟩ := @writes_writeMembershipSet membership.new (by omega)
    refine ⟨Bytes.toBe 1 2 ++ (Bytes.toBe 8 configId ++ (old ++ new)), ?_, ?_⟩
    · refine Bytes.writes_bind.2 ⟨_, _, writes_writeU8 _, ?_, rfl⟩
      refine Bytes.writes_bind.2 ⟨_, _, writes_writeU64 _, ?_, rfl⟩
      exact Bytes.writes_bind.2 ⟨_, _, hold, hnew, rfl⟩
    · simp only [List.length_append, Bytes.length_toBe, hoLen, hnLen, entryKindLen]
      omega
  · exact ⟨Bytes.toBe 1 3, writes_writeU8 _, by simp [entryKindLen]⟩

/-- Every entry below the maximum index whose envelope fits a frame has an envelope. -/
theorem encodeRaftLogEntry_isOk (hindex : entry.index ≠ u64Max)
    (hlen : entry.envelopeLen < 2 ^ 32) :
    ∃ bytes, encodeRaftLogEntry entry = .ok bytes ∧ bytes.length = entry.envelopeLen := by
  unfold PersistedRaftLogEntry.envelopeLen at hlen ⊢
  obtain ⟨kind, hkind, hkindLen⟩ := @writes_entryKind entry.kind (by omega)
  have hfields : Writes (writeEntryFields entry)
      (Bytes.toBe 8 entry.index ++ (Bytes.toBe 8 entry.term ++ kind)) := by
    refine Bytes.writes_bind.2 ⟨_, _, writes_writeU64 _, ?_, rfl⟩
    exact Bytes.writes_bind.2 ⟨_, _, writes_writeU64 _, hkind, rfl⟩
  have hencode : encodeRaftLogEntry entry = .ok (Bytes.checksummed 4 crc32 (raftLogEntryMagic ++
      (Bytes.toBe 1 raftLogEntryVersion ++
        (Bytes.toBe 8 entry.index ++ (Bytes.toBe 8 entry.term ++ kind))))) := by
    rw [encodeRaftLogEntry, if_neg hindex]
    exact Bytes.sealEnvelope_eq_ok_iff.2 ⟨_, hfields, rfl⟩
  refine ⟨_, hencode, ?_⟩
  have hmagic : raftLogEntryMagic.length = 4 := by decide
  simp only [Bytes.length_checksummed, List.length_append, Bytes.length_toBe, hkindLen, hmagic]
  omega

end Rafter.Storage
