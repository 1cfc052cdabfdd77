import Rafter.Bytes.Envelope
import Rafter.Transport.SessionState
import Rafter.Types.Validate

/-!
# The session state file

`crates/rafter-transport-tls/src/session/format`: the versioned, checksummed file in which a store
keeps its session marks. The decoder checks the order of the records and that none is empty as it
reads them, so what it returns is a session state by construction.

Results:

* `decode_encode`: the bytes of a state decode to that state.
-/

namespace Rafter.Transport.Store

open Bytes

/-- `SessionIdentityField`. -/
inductive SessionIdentityField where
  | cluster
  | localPeer
  | remotePeer
deriving DecidableEq

/-- `b"RFTSESSN"`. -/
def sessionStateMagic : List UInt8 := [82, 70, 84, 83, 69, 83, 83, 78]

/-- The version of the format. -/
def sessionStateVersion : ℕ := 1

/-- `PersistedTransportSessionState`. -/
structure PersistedTransportSessionState where
  clusterId : ClusterId
  localPeerId : PeerId
  state : TransportSessionState

/-! ## Encoding -/

/-- `EncodeTransportSessionStateError`. -/
inductive EncodeTransportSessionStateError where
  | identityTooLong (field : SessionIdentityField) (len : ℕ)
  | peerLimitTooLarge (value : ℕ)
  | peerCountTooLarge (value : ℕ)
  | peerCountExceedsLimit (count maximum : ℕ)
  | emptyPeerRecord
deriving DecidableEq

/-- A writer of the state. -/
abbrev StateWriter := Bytes.Writer EncodeTransportSessionStateError Unit

/-- A length byte and the text. -/
def encodeIdentity (field : SessionIdentityField) (identity : Identity) : StateWriter :=
  Writer.sized (.identityTooLong field) 1 identity.bytes

/-- A session, zero for none. -/
def encodeSession (session : Option ConnectionSession) : StateWriter :=
  Writer.uint 8 (session.elim 0 ConnectionSession.get)

/-- One peer record. -/
def encodeRecord (row : PeerId × PeerSessionState) : StateWriter :=
  if row.2.isEmpty then Writer.refuse .emptyPeerRecord
  else do
    encodeIdentity .remotePeer row.1
    encodeSession row.2.outbound
    encodeSession row.2.inbound

/-- The bound on the number of records, and the records. -/
def encodeRecords (state : TransportSessionState) : StateWriter :=
  if state.limits.maxPeerRecords < state.peers.length then
    Writer.refuse (.peerCountExceedsLimit state.peers.length state.limits.maxPeerRecords)
  else state.peers.forM encodeRecord

/-- `encode_body`. -/
def encodeBody (persisted : PersistedTransportSessionState) : StateWriter := do
  Writer.emit sessionStateMagic
  Writer.uint 2 sessionStateVersion
  encodeIdentity .cluster persisted.clusterId
  encodeIdentity .localPeer persisted.localPeerId
  Writer.length .peerLimitTooLarge 2 persisted.state.limits.maxPeerRecords
  Writer.length .peerCountTooLarge 2 persisted.state.peers.length
  encodeRecords persisted.state

/-- `encode_transport_session_state`. -/
def encodeTransportSessionState (persisted : PersistedTransportSessionState) :
    Except EncodeTransportSessionStateError (List UInt8) := do
  let body ← (encodeBody persisted).output
  return checksummed 4 crc32 body

/-! ## Decoding -/

/-- `DecodeTransportSessionStateError`. -/
inductive DecodeTransportSessionStateError where
  | unexpectedEnd (needed remaining : ℕ)
  | invalidMagic (actual : List UInt8)
  | unsupportedVersion (version : ℕ)
  | invalidUtf8 (field : SessionIdentityField) (record : Option ℕ)
  | invalidIdentity (field : SessionIdentityField) (record : Option ℕ) (source : IdentityError)
  | invalidPeerLimit (source : LimitError)
  | peerCountExceedsLimit (count maximum : ℕ)
  | emptyPeerRecord (peer : PeerId)
  | nonCanonicalPeerOrder (previous actual : PeerId)
  | checksumMismatch (expected actual : ℕ)
  | trailingBytes (remaining : ℕ)

/-- A reader of the state. -/
abbrev StateReader (α : Type) := Bytes.Reader DecodeTransportSessionStateError α

/-- A length byte and the text. -/
def decodeIdentity (kind : IdentityKind) (field : SessionIdentityField) (record : Option ℕ) :
    StateReader Identity := do
  let bytes ← Reader.sized .unexpectedEnd 1
  let value ← Reader.check ((decodeText bytes).elim (.error (.invalidUtf8 field record)) .ok)
  Reader.check ((validateIdentity kind value).mapError (.invalidIdentity field record))

/-- `decode_session`. -/
def decodeSession : StateReader (Option ConnectionSession) := do
  let value ← Reader.uint .unexpectedEnd 8
  return ConnectionSession.new value

/-- Records in order behind the one read last. -/
structure PeerRecords (previous : Option PeerId) (count : ℕ) where
  rows : Table PeerId PeerSessionState
  length_eq : rows.length = count
  ordered : Table.Ordered rows
  recorded : ∀ row ∈ rows, row.2.isEmpty = false
  after : ∀ p ∈ previous, ∀ row ∈ rows, p < row.1

namespace PeerRecords

theorem recorded_nil : ∀ row ∈ ([] : Table PeerId PeerSessionState), row.2.isEmpty = false := by
  simp

/-- No records. -/
def nil (previous : Option PeerId) : PeerRecords previous 0 :=
  ⟨[], rfl, Table.Ordered.nil, recorded_nil, by simp⟩

/-- One record in front. -/
def cons {previous : Option PeerId} {count : ℕ} (peer : PeerId) (state : PeerSessionState)
    (hafter : ∀ p ∈ previous, p < peer) (hstate : state.isEmpty = false)
    (rest : PeerRecords (some peer) count) : PeerRecords previous (count + 1) where
  rows := (peer, state) :: rest.rows
  length_eq := by rw [List.length_cons, rest.length_eq]
  ordered := List.pairwise_cons.2 ⟨rest.after peer rfl, rest.ordered⟩
  recorded row hrow := by
    rcases List.mem_cons.1 hrow with rfl | hrow
    · exact hstate
    · exact rest.recorded row hrow
  after p hp row hrow := by
    rcases List.mem_cons.1 hrow with rfl | hrow
    · exact hafter p hp
    · exact (hafter p hp).trans (rest.after peer rfl row hrow)

end PeerRecords

/-- `decode_peer_records`. -/
def decodePeerRecords :
    (count record : ℕ) → (previous : Option PeerId) → StateReader (PeerRecords previous count)
  | 0, _, previous => pure (PeerRecords.nil previous)
  | count + 1, record, previous => do
    let peer ← decodeIdentity .peer .remotePeer (some record)
    match hprevious : previous.filter fun p => peer ≤ p with
    | some previous => throw (.nonCanonicalPeerOrder previous peer)
    | none =>
      let outbound ← decodeSession
      let inbound ← decodeSession
      if hstate : (PeerSessionState.mk outbound inbound).isEmpty = false then do
        let rest ← decodePeerRecords count (record + 1) (some peer)
        have hafter : ∀ p ∈ previous, p < peer := fun p hp => by
          simpa using Option.filter_eq_none_iff.1 hprevious p hp
        return rest.cons peer ⟨outbound, inbound⟩ hafter hstate
      else throw (.emptyPeerRecord peer)

/-- What stands before the checksum. -/
def decodeBody : StateReader PersistedTransportSessionState := do
  let magic ← Reader.take .unexpectedEnd 8
  Reader.require (magic = sessionStateMagic) (.invalidMagic magic)
  let version ← Reader.uint .unexpectedEnd 2
  Reader.require (version = sessionStateVersion) (.unsupportedVersion version)
  let clusterId ← decodeIdentity .cluster .cluster none
  let localPeerId ← decodeIdentity .peer .localPeer none
  let maximum ← Reader.uint .unexpectedEnd 2
  let limits ← Reader.check ((SessionStoreLimits.new maximum).mapError .invalidPeerLimit)
  let count ← Reader.uint .unexpectedEnd 2
  if hcount : count ≤ limits.maxPeerRecords then do
    let records ← decodePeerRecords count 0 none
    let state : TransportSessionState :=
      ⟨limits, records.rows, records.ordered, records.recorded, records.length_eq.le.trans hcount⟩
    return ⟨clusterId, localPeerId, state⟩
  else throw (.peerCountExceedsLimit count limits.maxPeerRecords)

/-- `decode_transport_session_state`. -/
def decodeTransportSessionState (input : List UInt8) :
    Except DecodeTransportSessionStateError PersistedTransportSessionState := do
  let (persisted, rest) ← decodeBody.run input
  let (expected, trailing) ← (Reader.uint .unexpectedEnd 4).run rest
  -- the checksum covers what the body took
  let actual := crc32 (input.take (input.length - rest.length))
  if expected = actual then
    if trailing.length = 0 then .ok persisted else .error (.trailingBytes trailing.length)
  else .error (.checksumMismatch expected actual)

/-! ## Round trip -/

variable {bytes : List UInt8}

theorem reads_decodeIdentity {identity : Identity} {field : SessionIdentityField}
    (h : Writes (encodeIdentity field identity) bytes) (kind : IdentityKind)
    (field' : SessionIdentityField) (record : Option ℕ) (rest : List UInt8) :
    Reads (decodeIdentity kind field' record) (bytes ++ rest) identity rest := by
  unfold decodeIdentity
  refine reads_bind.2 ⟨identity.bytes, rest, sized_codes.read_write trivial trivial h rest, ?_⟩
  refine reads_bind.2 ⟨identity.value, rest, reads_check.2 ⟨?_, rfl⟩, reads_check.2 ⟨?_, rfl⟩⟩
  · rw [decodeText_eq_some_iff.2 (rfl : identity.bytes = _)]
    rfl
  · rw [validateIdentity_value]
    rfl

theorem reads_decodeSession {session : Option ConnectionSession}
    (h : Writes (encodeSession session) bytes) (rest : List UInt8) :
    Reads decodeSession (bytes ++ rest) session rest := by
  have hlt : session.elim 0 ConnectionSession.get < 256 ^ 8 := by
    cases session with
    | none => simp
    | some session => exact Nat.lt_of_le_of_lt session.representable (by decide)
  unfold decodeSession
  refine reads_bind.2 ⟨_, rest, uint_codes.read_write trivial hlt h rest, reads_pure.2 ⟨?_, rfl⟩⟩
  cases session with
  | none => rfl
  | some session => exact (ConnectionSession.new_get session).symm

theorem PeerRecords.ext_rows {previous : Option PeerId} {count : ℕ}
    {a b : PeerRecords previous count} (h : a.rows = b.rows) : a = b := by
  cases a
  cases b
  cases h
  rfl

theorem reads_decodePeerRecords (count : ℕ) : ∀ {previous : Option PeerId}
    (records : PeerRecords previous count) (record : ℕ) {bytes : List UInt8},
    Writes (records.rows.forM encodeRecord) bytes → ∀ rest,
      Reads (decodePeerRecords count record previous) (bytes ++ rest) records rest := by
  induction count with
  | zero =>
    intro previous records record bytes h rest
    have hrows := List.length_eq_zero_iff.1 records.length_eq
    rw [hrows] at h
    rw [writes_pure.1 h]
    exact reads_pure.2 ⟨PeerRecords.ext_rows hrows, rfl⟩
  | succ count ih =>
    rintro previous ⟨rows, hlength, hordered, hrecorded, hafter⟩ record bytes h rest
    obtain ⟨⟨peer, state⟩, rows, rfl⟩ := List.exists_cons_of_length_eq_add_one hlength
    obtain ⟨hfirst, hordered'⟩ := List.pairwise_cons.1 hordered
    obtain ⟨x, y, hx, hy, rfl⟩ := writes_bind.1 h
    have hstate := hrecorded _ List.mem_cons_self
    rw [encodeRecord, if_neg (by rw [hstate]; exact Bool.false_ne_true)] at hx
    obtain ⟨x₁, x', hpeer, hx', rfl⟩ := writes_bind.1 hx
    obtain ⟨x₂, x₃, houtbound, hinbound, rfl⟩ := writes_bind.1 hx'
    have hnone : previous.filter (fun p => peer ≤ p) = none :=
      Option.filter_eq_none_iff.2 fun p hp => by
        simpa using hafter p hp _ List.mem_cons_self
    let tail : PeerRecords (some peer) count :=
      ⟨rows, by simpa using hlength, hordered',
        fun row hrow => hrecorded row (List.mem_cons_of_mem _ hrow),
        fun p hp row hrow => by cases hp; exact hfirst row hrow⟩
    rw [decodePeerRecords]
    simp only [List.append_assoc]
    refine reads_bind.2 ⟨peer, _, reads_decodeIdentity hpeer _ _ _ _, ?_⟩
    split
    · rename_i hsome
      rw [hnone] at hsome
      cases hsome
    · refine reads_bind.2 ⟨state.outbound, _, reads_decodeSession houtbound _, ?_⟩
      refine reads_bind.2 ⟨state.inbound, _, reads_decodeSession hinbound _, ?_⟩
      rw [dif_pos hstate]
      refine reads_bind.2 ⟨tail, rest, ih tail _ hy rest, reads_pure.2 ⟨?_, rfl⟩⟩
      exact PeerRecords.ext_rows rfl

variable {persisted : PersistedTransportSessionState}

theorem reads_decodeBody (h : Writes (encodeBody persisted) bytes) (rest : List UInt8) :
    Reads decodeBody (bytes ++ rest) persisted rest := by
  obtain ⟨clusterId, localPeerId, limits, peers, hordered, hrecorded, hbounded⟩ := persisted
  unfold encodeBody at h
  obtain ⟨magic, _, hmagic, h₁, rfl⟩ := writes_bind.1 h
  obtain ⟨version, _, hversion, h₂, rfl⟩ := writes_bind.1 h₁
  obtain ⟨cluster, _, hcluster, h₃, rfl⟩ := writes_bind.1 h₂
  obtain ⟨peer, _, hpeer, h₄, rfl⟩ := writes_bind.1 h₃
  obtain ⟨limit, _, hlimit, h₅, rfl⟩ := writes_bind.1 h₄
  obtain ⟨count, _, hcount, hrecords, rfl⟩ := writes_bind.1 h₅
  rw [encodeRecords, if_neg (not_lt.2 hbounded)] at hrecords
  unfold decodeBody
  simp only [List.append_assoc]
  rw [writes_emit.1 hmagic]
  refine reads_bind.2 ⟨sessionStateMagic, _, reads_take.2 ⟨rfl, rfl⟩, ?_⟩
  refine reads_bind.2 ⟨(), _, reads_require.2 ⟨rfl, rfl⟩, ?_⟩
  refine reads_bind.2 ⟨sessionStateVersion, _,
    uint_codes.read_write trivial (by decide) hversion _, ?_⟩
  refine reads_bind.2 ⟨(), _, reads_require.2 ⟨rfl, rfl⟩, ?_⟩
  refine reads_bind.2 ⟨clusterId, _, reads_decodeIdentity hcluster _ _ _ _, ?_⟩
  refine reads_bind.2 ⟨localPeerId, _, reads_decodeIdentity hpeer _ _ _ _, ?_⟩
  refine reads_bind.2 ⟨limits.maxPeerRecords, _,
    length_codes.read_write trivial trivial hlimit _, ?_⟩
  refine reads_bind.2 ⟨limits, _, reads_check.2 ⟨?_, rfl⟩, ?_⟩
  · rw [SessionStoreLimits.new_maxPeerRecords]
    rfl
  refine reads_bind.2 ⟨peers.length, _, length_codes.read_write trivial trivial hcount _, ?_⟩
  rw [dif_pos hbounded]
  let records : PeerRecords none peers.length := ⟨peers, rfl, hordered, hrecorded, by simp⟩
  exact reads_bind.2 ⟨records, rest, reads_decodePeerRecords _ records 0 hrecords rest,
    reads_pure.2 ⟨rfl, rfl⟩⟩

/-- What a store publishes is what it reads back. -/
theorem decode_encode (h : encodeTransportSessionState persisted = .ok bytes) :
    decodeTransportSessionState bytes = .ok persisted := by
  unfold encodeTransportSessionState at h
  obtain ⟨body, hbody, hbytes⟩ := bind_eq_ok_iff.1 h
  obtain rfl := pure_eq_ok_iff.1 hbytes
  have hread := reads_decodeBody (output_eq_ok_iff.1 hbody) (toBe 4 (crc32 body))
  have hsum : Reads (Reader.uint .unexpectedEnd 4 : StateReader ℕ) (toBe 4 (crc32 body))
      (crc32 body) [] := by
    refine reads_uint.2 ⟨?_, by simp⟩
    have := crc32_lt body
    omega
  have htake : (body ++ toBe 4 (crc32 body)).take
      ((body ++ toBe 4 (crc32 body)).length - (toBe 4 (crc32 body)).length) = body := by
    rw [List.length_append, Nat.add_sub_cancel]
    exact List.take_left
  unfold decodeTransportSessionState
  refine bind_eq_ok_iff.2 ⟨(persisted, toBe 4 (crc32 body)), hread, ?_⟩
  refine bind_eq_ok_iff.2 ⟨(crc32 body, []), hsum, ?_⟩
  dsimp only [checksummed]
  rw [htake, if_pos rfl]
  rfl

end Rafter.Transport.Store
