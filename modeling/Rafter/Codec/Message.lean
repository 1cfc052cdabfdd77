import Rafter.Codec.Payload

/-!
# Peer messages and their frame

`crates/rafter-codec/src/v1/message.rs`, the message bodies of `v1/append.rs` and `v1/snapshot.rs`,
and `frame.rs`: magic, version, payload, checksum of everything before it, end of input.

`encode_message_into` runs its encoder twice, the first time into a counting sink; both passes
refuse the same messages, so one is modelled.

Results:

* `encodeMessageInto_decodeMessage`: when an encoded message is decoded to itself, and that an
  accepted frame is the encoding of the message it decodes to.
-/

namespace Rafter.Codec

open Bytes (Codes Writes Reads)

variable {m : Message} {bytes : List UInt8}

/-! ## Votes and leadership transfer -/

/-- The fields of `RequestVote` and `PreVote`. -/
def encodeVoteRequest (request : VoteRequest) : Writer := do
  Writer.u64 request.term
  Writer.u64 request.candidateId
  Writer.u64 request.lastLogIndex
  Writer.u64 request.lastLogTerm

/-- The fields of `RequestVote` and `PreVote`. -/
def decodeVoteRequest : Reader VoteRequest := do
  let term ← Reader.u64
  let candidateId ← Reader.u64
  let lastLogIndex ← Reader.u64
  let lastLogTerm ← Reader.u64
  return ⟨term, candidateId, lastLogIndex, lastLogTerm⟩

/-- The fields of their responses. -/
def encodeVoteResponse (response : VoteResponse) : Writer := do
  Writer.u64 response.term
  Writer.u64 response.voterId
  Writer.bool response.voteGranted

/-- The fields of their responses. -/
def decodeVoteResponse : Reader VoteResponse := do
  let term ← Reader.u64
  let voterId ← Reader.u64
  let voteGranted ← Reader.bool
  return ⟨term, voterId, voteGranted⟩

/-- The fields of `TimeoutNow`. -/
def encodeTimeoutNow (request : TimeoutNow) : Writer := do
  Writer.u64 request.term
  Writer.u64 request.leaderId

/-- The fields of `TimeoutNow`. -/
def decodeTimeoutNow : Reader TimeoutNow := do
  let term ← Reader.u64
  let leaderId ← Reader.u64
  return ⟨term, leaderId⟩

theorem voteRequest_codes : Wire decodeVoteRequest encodeVoteRequest
    (fun m => m.term ≤ u64Max ∧ m.candidateId ≤ u64Max ∧ m.lastLogIndex ≤ u64Max ∧
      m.lastLogTerm ≤ u64Max) := by
  refine Codes.head VoteRequest.term u64_codes fun term => ?_
  refine Codes.head VoteRequest.candidateId u64_codes fun candidateId => ?_
  refine Codes.head VoteRequest.lastLogIndex u64_codes fun lastLogIndex => ?_
  refine Codes.final VoteRequest.lastLogTerm u64_codes fun lastLogTerm m => ?_
  cases m
  simp [and_assoc]

theorem voteResponse_codes : Wire decodeVoteResponse encodeVoteResponse
    (fun m => m.term ≤ u64Max ∧ m.voterId ≤ u64Max) := by
  refine Codes.head VoteResponse.term u64_codes fun term => ?_
  refine Codes.field VoteResponse.voterId u64_codes (fun _ => (and_iff_left trivial).symm)
    fun voterId => ?_
  refine Codes.final VoteResponse.voteGranted bool_codes fun voteGranted m => ?_
  cases m
  simp [and_assoc]

theorem timeoutNow_codes : Wire decodeTimeoutNow encodeTimeoutNow
    (fun m => m.term ≤ u64Max ∧ m.leaderId ≤ u64Max) := by
  refine Codes.head TimeoutNow.term u64_codes fun term => ?_
  refine Codes.final TimeoutNow.leaderId u64_codes fun leaderId m => ?_
  cases m
  simp

/-! ## Log replication -/

/-- `append::encode_request`. -/
def encodeAppendEntries (request : AppendEntries) : Writer := do
  Writer.u64 request.term
  Writer.u64 request.leaderId
  Writer.u64 request.prevLogIndex
  Writer.u64 request.prevLogTerm
  (do Writer.lengthU32 "entry_count" request.entries.length
      request.entries.forM encodeLogEntry)
  Writer.u64 request.leaderCommit
  Writer.u64 request.sequence

/-- `append::decode_request`. -/
def decodeAppendEntries : Reader AppendEntries := do
  let term ← Reader.u64
  let leaderId ← Reader.u64
  let prevLogIndex ← Reader.u64
  let prevLogTerm ← Reader.u64
  let entries ← (do
    let entryCount ← Reader.u32
    Bytes.Reader.count decodeLogEntry entryCount)
  let leaderCommit ← Reader.u64
  let sequence ← Reader.u64
  return ⟨term, leaderId, prevLogIndex, prevLogTerm, sequence, entries, leaderCommit⟩

/-- `append::encode_response`. -/
def encodeAppendEntriesResponse (response : AppendEntriesResponse) : Writer := do
  Writer.u64 response.term
  Writer.u64 response.followerId
  Writer.bool response.success
  Writer.u64 response.matchIndex
  Writer.u64 response.sequence

/-- `append::decode_response`. -/
def decodeAppendEntriesResponse : Reader AppendEntriesResponse := do
  let term ← Reader.u64
  let followerId ← Reader.u64
  let success ← Reader.bool
  let matchIndex ← Reader.u64
  let sequence ← Reader.u64
  return ⟨term, followerId, success, matchIndex, sequence⟩

theorem entries_codes : Wire (Reader.u32 >>= fun n => Bytes.Reader.count decodeLogEntry n)
    (fun entries => Writer.lengthU32 "entry_count" entries.length >>= fun _ =>
      entries.forM encodeLogEntry) (fun entries => ∀ e ∈ entries, e.InRange) :=
  Bytes.counted_codes logEntry_codes

theorem appendEntries_codes : Wire decodeAppendEntries encodeAppendEntries
    (fun m => m.term ≤ u64Max ∧ m.leaderId ≤ u64Max ∧ m.prevLogIndex ≤ u64Max ∧
      m.prevLogTerm ≤ u64Max ∧ (∀ e ∈ m.entries, e.InRange) ∧ m.leaderCommit ≤ u64Max ∧
      m.sequence ≤ u64Max) := by
  refine Codes.head AppendEntries.term u64_codes fun term => ?_
  refine Codes.head AppendEntries.leaderId u64_codes fun leaderId => ?_
  refine Codes.head AppendEntries.prevLogIndex u64_codes fun prevLogIndex => ?_
  refine Codes.head AppendEntries.prevLogTerm u64_codes fun prevLogTerm => ?_
  refine Codes.head AppendEntries.entries entries_codes fun entries => ?_
  refine Codes.head AppendEntries.leaderCommit u64_codes fun leaderCommit => ?_
  refine Codes.final AppendEntries.sequence u64_codes fun sequence m => ?_
  cases m
  simp only [true_and, AppendEntries.mk.injEq]
  tauto

theorem appendEntriesResponse_codes : Wire decodeAppendEntriesResponse encodeAppendEntriesResponse
    (fun m => m.term ≤ u64Max ∧ m.followerId ≤ u64Max ∧ m.matchIndex ≤ u64Max ∧
      m.sequence ≤ u64Max) := by
  refine Codes.head AppendEntriesResponse.term u64_codes fun term => ?_
  refine Codes.head AppendEntriesResponse.followerId u64_codes fun followerId => ?_
  refine Codes.freeField AppendEntriesResponse.success bool_codes fun success => ?_
  refine Codes.head AppendEntriesResponse.matchIndex u64_codes fun matchIndex => ?_
  refine Codes.final AppendEntriesResponse.sequence u64_codes fun sequence m => ?_
  cases m
  simp [and_assoc]

/-! ## Snapshot transfer -/

/-- `snapshot::encode_chunk`. -/
def encodeChunk (request : InstallSnapshotChunk) : Writer := do
  Writer.u64 request.term
  Writer.u64 request.leaderId
  Writer.u64 request.transferId
  encodeMetadata request.metadata
  Writer.u64 request.totalPayloadLen
  Writer.u32 request.applicationPayloadCrc32
  Writer.u64 request.offset
  Writer.blob "install_snapshot_chunk" request.chunk
  Writer.bool request.done

/-- `snapshot::decode_chunk`. -/
def decodeChunk : Reader InstallSnapshotChunk := do
  let term ← Reader.u64
  let leaderId ← Reader.u64
  let transferId ← Reader.u64
  let metadata ← decodeMetadata
  let totalPayloadLen ← Reader.u64
  let applicationPayloadCrc32 ← Reader.u32
  let offset ← Reader.u64
  let chunk ← Reader.blob
  let done ← Reader.bool
  return ⟨term, leaderId, transferId, metadata, totalPayloadLen, applicationPayloadCrc32, offset,
    chunk, done⟩

/-- `snapshot::encode_response`. -/
def encodeSnapshotResponse (response : InstallSnapshotResponse) : Writer := do
  Writer.u64 response.term
  Writer.u64 response.followerId
  Writer.bool response.success
  Writer.u64 response.lastIncludedIndex
  Writer.option Writer.u64 response.transferId
  Writer.u64 response.nextOffset

/-- `snapshot::decode_response`. -/
def decodeSnapshotResponse : Reader InstallSnapshotResponse := do
  let term ← Reader.u64
  let followerId ← Reader.u64
  let success ← Reader.bool
  let lastIncludedIndex ← Reader.u64
  let transferId ← Reader.option Reader.u64
  let nextOffset ← Reader.u64
  return ⟨term, followerId, success, lastIncludedIndex, transferId, nextOffset⟩

theorem chunk_codes : Wire decodeChunk encodeChunk
    (fun m => m.term ≤ u64Max ∧ m.leaderId ≤ u64Max ∧ m.transferId ≤ u64Max ∧
      (m.metadata.InRange ∧ m.metadata.Valid) ∧ m.totalPayloadLen ≤ u64Max ∧
      m.applicationPayloadCrc32 < 2 ^ 32 ∧ m.offset ≤ u64Max) := by
  refine Codes.head InstallSnapshotChunk.term u64_codes fun term => ?_
  refine Codes.head InstallSnapshotChunk.leaderId u64_codes fun leaderId => ?_
  refine Codes.head InstallSnapshotChunk.transferId u64_codes fun id => ?_
  refine Codes.head InstallSnapshotChunk.metadata metadata_codes fun metadata => ?_
  refine Codes.head InstallSnapshotChunk.totalPayloadLen u64_codes fun len => ?_
  refine Codes.head InstallSnapshotChunk.applicationPayloadCrc32 u32_codes fun crc => ?_
  refine Codes.field InstallSnapshotChunk.offset u64_codes (fun _ => (and_iff_left trivial).symm)
    fun offset => ?_
  refine Codes.freeField InstallSnapshotChunk.chunk (blob_codes _) fun chunk => ?_
  refine Codes.final InstallSnapshotChunk.done bool_codes fun done m => ?_
  cases m
  simp [and_assoc]

theorem snapshotResponse_codes : Wire decodeSnapshotResponse encodeSnapshotResponse
    (fun m => m.term ≤ u64Max ∧ m.followerId ≤ u64Max ∧ m.lastIncludedIndex ≤ u64Max ∧
      (∀ id ∈ m.transferId, id ≤ u64Max) ∧ m.nextOffset ≤ u64Max) := by
  refine Codes.head InstallSnapshotResponse.term u64_codes fun term => ?_
  refine Codes.head InstallSnapshotResponse.followerId u64_codes fun id => ?_
  refine Codes.freeField InstallSnapshotResponse.success bool_codes fun success => ?_
  refine Codes.head InstallSnapshotResponse.lastIncludedIndex u64_codes fun index => ?_
  refine Codes.head InstallSnapshotResponse.transferId (option_codes u64_codes) fun transferId => ?_
  refine Codes.final InstallSnapshotResponse.nextOffset u64_codes fun next m => ?_
  cases m
  simp [and_assoc]

/-! ## Message payloads -/

/-- The tag `encode_payload` writes, or its refusal of the whole-snapshot form. -/
def messageTag : Message → Except EncodePeerMessageError MessageTag
  | .requestVote _ => .ok .requestVote
  | .requestVoteResponse _ => .ok .requestVoteResponse
  | .appendEntries _ => .ok .appendEntries
  | .appendEntriesResponse _ => .ok .appendEntriesResponse
  | .installSnapshot _ => .error
      (.unsupportedMessage "InstallSnapshot" "use InstallSnapshotChunk for peer transport")
  | .installSnapshotResponse _ => .ok .installSnapshotResponse
  | .installSnapshotChunk _ => .ok .installSnapshotChunk
  | .preVote _ => .ok .preVote
  | .preVoteResponse _ => .ok .preVoteResponse
  | .timeoutNow _ => .ok .timeoutNow

/-- The second `match` of `encode_payload`; the whole-snapshot form does not reach it. -/
def encodeBody : Message → Writer
  | .requestVote request => encodeVoteRequest request
  | .requestVoteResponse response => encodeVoteResponse response
  | .appendEntries request => encodeAppendEntries request
  | .appendEntriesResponse response => encodeAppendEntriesResponse response
  | .installSnapshot _ => pure ()
  | .installSnapshotResponse response => encodeSnapshotResponse response
  | .installSnapshotChunk request => encodeChunk request
  | .preVote request => encodeVoteRequest request
  | .preVoteResponse response => encodeVoteResponse response
  | .timeoutNow request => encodeTimeoutNow request

/-- `encode_payload`. -/
def encodePayload (message : Message) : Writer :=
  Bytes.Writer.attempt (messageTag message) fun tag => do
    Writer.u8 tag.toU8
    encodeBody message

/-- `decode_payload`. -/
def decodePayload : Reader Message := do
  match ← Reader.tag MessageTag.tryFrom with
  | .requestVote => let m ← decodeVoteRequest; return .requestVote m
  | .requestVoteResponse => let m ← decodeVoteResponse; return .requestVoteResponse m
  | .appendEntries => let m ← decodeAppendEntries; return .appendEntries m
  | .appendEntriesResponse => let m ← decodeAppendEntriesResponse; return .appendEntriesResponse m
  | .installSnapshotResponse => let m ← decodeSnapshotResponse; return .installSnapshotResponse m
  | .installSnapshotChunk => let m ← decodeChunk; return .installSnapshotChunk m
  | .preVote => let m ← decodeVoteRequest; return .preVote m
  | .preVoteResponse => let m ← decodeVoteResponse; return .preVoteResponse m
  | .timeoutNow => let m ← decodeTimeoutNow; return .timeoutNow m

/-- The metadata that a message carries would pass `RaftSnapshotMetadata::new`. -/
def MetadataValid : Message → Prop
  | .installSnapshotChunk m => m.metadata.Valid
  | _ => True

instance : (m : Message) → Decidable (MetadataValid m)
  | .installSnapshotChunk m => inferInstanceAs (Decidable m.metadata.Valid)
  | .requestVote _ | .requestVoteResponse _ | .appendEntries _ | .appendEntriesResponse _
  | .installSnapshot _ | .installSnapshotResponse _ | .preVote _ | .preVoteResponse _
  | .timeoutNow _ => inferInstanceAs (Decidable True)

theorem payload_codes :
    Wire decodePayload encodePayload (fun m => m.InRange ∧ MetadataValid m) := by
  refine Codes.partialField messageTag messageTag_codes fun tag => ?_
  cases tag with
  | requestVote =>
    refine voteRequest_codes.variant Message.requestVote rfl (fun m => ?_) (fun _ => rfl)
      fun _ => and_iff_left trivial
    cases m <;> simp [messageTag]
  | requestVoteResponse =>
    refine voteResponse_codes.variant Message.requestVoteResponse rfl (fun m => ?_) (fun _ => rfl)
      fun _ => and_iff_left trivial
    cases m <;> simp [messageTag]
  | appendEntries =>
    refine appendEntries_codes.variant Message.appendEntries rfl (fun m => ?_) (fun _ => rfl)
      fun _ => and_iff_left trivial
    cases m <;> simp [messageTag]
  | appendEntriesResponse =>
    refine appendEntriesResponse_codes.variant Message.appendEntriesResponse rfl (fun m => ?_)
      (fun _ => rfl) fun _ => and_iff_left trivial
    cases m <;> simp [messageTag]
  | installSnapshotResponse =>
    refine snapshotResponse_codes.variant Message.installSnapshotResponse rfl (fun m => ?_)
      (fun _ => rfl) fun _ => and_iff_left trivial
    cases m <;> simp [messageTag]
  | installSnapshotChunk =>
    refine chunk_codes.variant Message.installSnapshotChunk rfl (fun m => ?_) (fun _ => rfl)
      fun m => ?_
    · cases m <;> simp [messageTag]
    · simp only [Message.InRange, MetadataValid]
      tauto
  | preVote =>
    refine voteRequest_codes.variant Message.preVote rfl (fun m => ?_) (fun _ => rfl)
      fun _ => and_iff_left trivial
    cases m <;> simp [messageTag]
  | preVoteResponse =>
    refine voteResponse_codes.variant Message.preVoteResponse rfl (fun m => ?_) (fun _ => rfl)
      fun _ => and_iff_left trivial
    cases m <;> simp [messageTag]
  | timeoutNow =>
    refine timeoutNow_codes.variant Message.timeoutNow rfl (fun m => ?_) (fun _ => rfl)
      fun _ => and_iff_left trivial
    cases m <;> simp [messageTag]

/-! ## Frames -/

/-- `MAGIC`: the bytes of `RFPM`. -/
def magic : List UInt8 := [0x52, 0x46, 0x50, 0x4D]

/-- `VERSION`. -/
def version : ℕ := 1

/-- `encode_frame_body`. -/
def encodeFrameBody (message : Message) : Writer := do
  Bytes.Writer.emit magic
  Writer.u8 version
  encodePayload message

/-- `encode_message_into`: the buffer it leaves and its result. What the buffer held before is
cleared first. -/
def encodeMessageInto (_output : List UInt8) (message : Message) :
    List UInt8 × Except EncodePeerMessageError Unit :=
  match (encodeFrameBody message).output with
  | .error e => ([], .error e)
  | .ok body => (body ++ Bytes.toBe 4 (crc32 body), .ok ())

/-- The magic and version checks of `decode_message`, then the payload. -/
def decodeFrameBody : Reader Message := do
  let found ← Bytes.Reader.take .unexpectedEof 4
  Bytes.Reader.check (if found ≠ magic then .error (.invalidMagic found) else .ok ())
  let number ← Reader.u8
  Bytes.Reader.check (if number ≠ version then .error (.unsupportedVersion number) else .ok ())
  decodePayload

/-- The end of `decode_message`: the checksum of the bytes `covered`, then the end of input. -/
def verifyFrame (covered left : List UInt8) : Except DecodePeerMessageError Unit :=
  match Reader.u32.run left with
  | .error e => .error e
  | .ok (expected, left) =>
    if expected ≠ crc32 covered then .error (.frameChecksumMismatch expected (crc32 covered))
    else if left ≠ [] then .error (.trailingBytes left.length)
    else .ok ()

/-- `decode_message`. The bytes before the checksum are those that the body's reader consumed. -/
def decodeMessage (payload : List UInt8) : Except DecodePeerMessageError Message :=
  match decodeFrameBody.run payload with
  | .error e => .error e
  | .ok (message, left) =>
    match verifyFrame (payload.take (payload.length - left.length)) left with
    | .error e => .error e
    | .ok () => .ok message

/-- The bytes of a frame in front of its payload. -/
def frameHeader : List UInt8 := magic ++ Bytes.toBe 1 version

/-- The frame around a payload: header, payload, checksum of both. -/
def frame (payload : List UInt8) : List UInt8 :=
  frameHeader ++ payload ++ Bytes.toBe 4 (crc32 (frameHeader ++ payload))

theorem writes_encodeFrameBody : Writes (encodeFrameBody m) bytes ↔
      ∃ payload, Writes (encodePayload m) payload ∧ bytes = frameHeader ++ payload := by
  simp only [encodeFrameBody, Bytes.writes_bind, Bytes.writes_emit]
  constructor
  · rintro ⟨_, _, rfl, ⟨_, payload, hversion, hpayload, rfl⟩, rfl⟩
    rw [Bytes.writes_emit.1 hversion]
    exact ⟨payload, hpayload, by rw [frameHeader, List.append_assoc]⟩
  · rintro ⟨payload, hpayload, rfl⟩
    refine ⟨magic, _, rfl, ⟨Bytes.toBe 1 version, payload, Bytes.writes_emit.2 rfl,
      hpayload, rfl⟩, ?_⟩
    rw [frameHeader, List.append_assoc]

theorem encodeMessageInto_ok_iff {output : List UInt8} :
    encodeMessageInto output m = (bytes, .ok ()) ↔
      ∃ payload, Writes (encodePayload m) payload ∧ bytes = frame payload := by
  unfold encodeMessageInto
  constructor
  · intro h
    cases hbody : (encodeFrameBody m).output with
    | error e =>
      rw [hbody] at h
      exact absurd (Prod.mk.inj h).2 (by simp)
    | ok body =>
      rw [hbody] at h
      obtain ⟨payload, hpayload, rfl⟩ := writes_encodeFrameBody.1 (Bytes.output_eq_ok_iff.1 hbody)
      exact ⟨payload, hpayload, (Prod.mk.inj h).1.symm⟩
  · rintro ⟨payload, hpayload, rfl⟩
    have hbody := writes_encodeFrameBody.2 ⟨payload, hpayload, rfl⟩
    rw [Bytes.output_eq_ok_iff.2 hbody]
    rfl

theorem reads_decodeFrameBody {input rest : List UInt8} : Reads decodeFrameBody input m rest ↔
      ∃ left, Reads decodePayload left m rest ∧ input = frameHeader ++ left := by
  simp only [decodeFrameBody, Bytes.reads_bind, Bytes.reads_take, Bytes.reads_check]
  constructor
  · rintro ⟨found, rest₁, ⟨-, hfound⟩, _, rest₂, ⟨hmagic, hrest₂⟩, number, rest₃, hnumber, _, rest₄,
      ⟨hversion, hrest₄⟩, hpayload⟩
    subst hrest₂ hrest₄ hfound
    obtain ⟨-, rfl⟩ := Bytes.reads_uint.1 hnumber
    split_ifs at hmagic with hm
    split_ifs at hversion with hv
    obtain rfl := not_not.1 hm
    obtain rfl := not_not.1 hv
    exact ⟨_, hpayload, by rw [frameHeader, List.append_assoc]⟩
  · rintro ⟨left, hpayload, rfl⟩
    refine ⟨magic, _, ⟨rfl, ?_⟩, (), _, ⟨by simp, rfl⟩, version, left,
      Bytes.reads_uint.2 ⟨by decide, rfl⟩, (), left, ⟨by simp, rfl⟩, hpayload⟩
    rw [frameHeader, List.append_assoc]

theorem verifyFrame_ok_iff {covered left : List UInt8} :
    verifyFrame covered left = .ok () ↔ left = Bytes.toBe 4 (crc32 covered) := by
  unfold verifyFrame
  constructor
  · intro h
    cases hread : Reader.u32.run left with
    | error e =>
      rw [hread] at h
      exact absurd h (by simp)
    | ok out =>
      obtain ⟨expected, rest⟩ := out
      obtain ⟨-, rfl⟩ := Bytes.reads_uint.1 hread
      rw [hread] at h
      simp only at h
      split_ifs at h with hsum hend
      rw [not_not.1 hsum, not_not.1 hend, List.append_nil]
  · rintro rfl
    have hlt : crc32 covered < 256 ^ 4 := lt_of_lt_of_eq (crc32_lt covered) (by norm_num)
    have hread : Reads Reader.u32 (Bytes.toBe 4 (crc32 covered)) (crc32 covered) [] :=
      Bytes.reads_uint.2 ⟨hlt, (List.append_nil _).symm⟩
    rw [show Reader.u32.run _ = _ from hread]
    simp

theorem decodeMessage_ok_iff : decodeMessage bytes = .ok m ↔ (m.InRange ∧ MetadataValid m) ∧
      ∃ payload, Writes (encodePayload m) payload ∧ bytes = frame payload := by
  unfold decodeMessage
  constructor
  · intro h
    cases hread : decodeFrameBody.run bytes with
    | error e =>
      rw [hread] at h
      exact absurd h (by simp)
    | ok out =>
      obtain ⟨m', left⟩ := out
      rw [hread] at h
      obtain ⟨body, hbody, rfl⟩ := reads_decodeFrameBody.1 hread
      obtain ⟨-, hdom, payload, hpayload, rfl⟩ := payload_codes.write_read hbody
      have hcovered : (frameHeader ++ (payload ++ left)).take
          ((frameHeader ++ (payload ++ left)).length - left.length) = frameHeader ++ payload := by
        rw [← List.append_assoc, List.length_append, Nat.add_sub_cancel, List.take_left]
      simp only [hcovered] at h
      cases hverify : verifyFrame (frameHeader ++ payload) left with
      | error e =>
        rw [hverify] at h
        exact absurd h (by simp)
      | ok done =>
        rw [hverify] at h
        obtain rfl := Except.ok.inj h
        refine ⟨hdom, payload, hpayload, ?_⟩
        rw [verifyFrame_ok_iff.1 hverify, frame, List.append_assoc]
  · rintro ⟨hdom, payload, hpayload, rfl⟩
    obtain ⟨crc, hcrc⟩ : ∃ crc, crc = Bytes.toBe 4 (crc32 (frameHeader ++ payload)) := ⟨_, rfl⟩
    have hframe : frame payload = frameHeader ++ payload ++ crc := by rw [frame, hcrc]
    have hread : Reads decodeFrameBody (frame payload) m crc := by
      refine reads_decodeFrameBody.2 ⟨payload ++ crc, ?_, ?_⟩
      · exact payload_codes.read_write trivial hdom hpayload crc
      · rw [hframe, List.append_assoc]
    have hcovered : (frame payload).take ((frame payload).length - crc.length) =
        frameHeader ++ payload := by
      rw [hframe, List.length_append, Nat.add_sub_cancel, List.take_left]
    have hrun : decodeFrameBody.run (frame payload) = .ok (m, crc) := hread
    rw [hrun]
    simp only [hcovered, verifyFrame_ok_iff.2 hcrc]

/-! ## Both directions -/

/-- A message that the encoder accepts is decoded to itself exactly when the metadata it carries
would pass `RaftSnapshotMetadata::new`; a frame that the decoder accepts is the encoding of the
message it decodes to. -/
theorem encodeMessageInto_decodeMessage (output : List UInt8) :
    (∀ m bytes, m.InRange → encodeMessageInto output m = (bytes, .ok ()) →
      (decodeMessage bytes = .ok m ↔ MetadataValid m)) ∧
    ∀ bytes m, decodeMessage bytes = .ok m →
      m.InRange ∧ encodeMessageInto output m = (bytes, .ok ()) := by
  constructor
  · intro m bytes hrange hencode
    have hpayload := encodeMessageInto_ok_iff.1 hencode
    constructor
    · exact fun hdecode => (decodeMessage_ok_iff.1 hdecode).1.2
    · exact fun hvalid => decodeMessage_ok_iff.2 ⟨⟨hrange, hvalid⟩, hpayload⟩
  · intro bytes m hdecode
    obtain ⟨⟨hrange, -⟩, hpayload⟩ := decodeMessage_ok_iff.1 hdecode
    exact ⟨hrange, encodeMessageInto_ok_iff.2 hpayload⟩

/-- A name for the snapshot below. -/
def wireId : SnapshotId := ⟨['w'], by simp, by simp, by simp [snapshotIdCharacter]⟩

/-- An empty final chunk of a snapshot at `index`. -/
def emptyChunk (index : ℕ) : Message := .installSnapshotChunk
  { term := 1
    leaderId := 1
    transferId := 1
    metadata :=
      { groupId := wireId
        writerId := 1
        lastIncludedIndex := index
        lastIncludedTerm := 1
        hardStateTerm := 1
        application := ⟨wireId, ⟨3, by simp, by simp⟩⟩
        committedConfiguration := some ⟨some ⟨1, 1⟩, .stable threeVoters⟩ }
    totalPayloadLen := 0
    applicationPayloadCrc32 := 0
    offset := 0
    chunk := []
    done := true }

theorem encodeMessageInto_decodeMessage_emptyChunk :
    (emptyChunk 4).InRange ∧ MetadataValid (emptyChunk 4) ∧
      (encodeMessageInto [7] (emptyChunk 4)).2 = .ok () ∧
      decodeMessage (encodeMessageInto [7] (emptyChunk 4)).1 = .ok (emptyChunk 4) := by
  have hrange : (emptyChunk 4).InRange := by decide +kernel
  have hvalid : MetadataValid (emptyChunk 4) := by decide +kernel
  have hok : (encodeMessageInto [7] (emptyChunk 4)).2 = .ok () := by decide +kernel
  have hencode : encodeMessageInto [7] (emptyChunk 4) =
      ((encodeMessageInto [7] (emptyChunk 4)).1, .ok ()) := Prod.ext rfl hok
  exact ⟨hrange, hvalid, hok,
    ((encodeMessageInto_decodeMessage [7]).1 _ _ hrange hencode).2 hvalid⟩

/-- Index 0 is no snapshot boundary: the encoder spells such metadata, the decoder refuses it. -/
theorem zero_boundary_not_read_back :
    (emptyChunk 0).InRange ∧ (encodeMessageInto [] (emptyChunk 0)).2 = .ok () ∧
      decodeMessage (encodeMessageInto [] (emptyChunk 0)).1 =
        .error (.invalidSnapshotMetadata .zeroLastIncludedIndex) := by
  decide +kernel

end Rafter.Codec
