import Rafter.Bytes.Text
import Rafter.Table
import Rafter.Types.Basic

/-!
# Durable session marks

`crates/rafter-transport-tls/src/`: peer and cluster identities (`principal.rs`), connection session
numbers (`session/number.rs`), the bound on peer records (`limits/session.rs`) and the high-water
marks of both directions (`session/state.rs`). Each type carries what its constructor checks, so a
state that is too large, out of order or holds an empty record cannot be built.

Results:

* `allocateOutbound_ok`, `acceptInbound_accepted`: an allocated or accepted session is above its
  peer's mark, becomes the mark, and no other mark moves.
-/

namespace Rafter.Transport.Store

/-! ## Identities -/

/-- The most bytes of an identity. -/
def maxIdBytes : ℕ := 128

/-- `char::is_control`. -/
def isControl (c : Char) : Bool := c.toNat < 0x20 || (0x7F ≤ c.toNat && c.toNat < 0xA0)

/-- Which identity an error is about. -/
inductive IdentityKind where
  | peer
  | cluster
deriving DecidableEq

/-- Why a text is no identity. -/
inductive IdentityError where
  | empty (kind : IdentityKind)
  | tooLong (kind : IdentityKind) (len max : ℕ)
  | controlCharacter (kind : IdentityKind) (byteIndex : ℕ) (character : Char)
deriving DecidableEq

/-- The first control character of a text and the byte it starts at. -/
def findControl : ℕ → List Char → Option (ℕ × Char)
  | _, [] => none
  | byteIndex, c :: text =>
    if isControl c then some (byteIndex, c)
    else findControl (byteIndex + (String.utf8EncodeChar c).length) text

/-- A validated identity: what `PeerId` and `ClusterId` both hold. -/
structure Identity where
  value : List Char
  nonempty : value ≠ []
  fits : (Bytes.encodeText value).length ≤ maxIdBytes
  plain : findControl 0 value = none

/-- `PeerId`. -/
abbrev PeerId := Identity

/-- `ClusterId`. -/
abbrev ClusterId := Identity

namespace Identity

/-- The bytes of the identity as they stand on the wire and in files. -/
def bytes (identity : Identity) : List UInt8 := Bytes.encodeText identity.value

theorem bytes_injective : Function.Injective fun identity : Identity =>
    identity.bytes.map UInt8.toNat := by
  intro a b h
  have hbytes : a.bytes = b.bytes :=
    List.map_injective_iff.2 (fun _ _ => UInt8.toNat_inj.1) h
  have hvalue : some a.value = some b.value := by
    rw [← Bytes.decodeText_eq_some_iff.2 (rfl : a.bytes = _),
      ← Bytes.decodeText_eq_some_iff.2 (rfl : b.bytes = _), hbytes]
  cases a
  cases b
  cases hvalue
  rfl

/-- Identities compare as their bytes do. -/
instance : LinearOrder Identity := LinearOrder.lift' _ bytes_injective

end Identity

/-- `validate_identity`. -/
def validateIdentity (kind : IdentityKind) (value : List Char) : Except IdentityError Identity :=
  if hempty : value = [] then .error (.empty kind)
  else if hlong : maxIdBytes < (Bytes.encodeText value).length then
    .error (.tooLong kind (Bytes.encodeText value).length maxIdBytes)
  else
    match hcontrol : findControl 0 value with
    | some (byteIndex, character) => .error (.controlCharacter kind byteIndex character)
    | none => .ok ⟨value, hempty, not_lt.1 hlong, hcontrol⟩

/-- Every identity passes its own check. -/
theorem validateIdentity_value (kind : IdentityKind) (identity : Identity) :
    validateIdentity kind identity.value = .ok identity := by
  unfold validateIdentity
  rw [dif_neg identity.nonempty, dif_neg (not_lt.2 identity.fits)]
  split
  · rename_i byteIndex character hcontrol
    rw [identity.plain] at hcontrol
    cases hcontrol
  · rfl

/-! ## Session numbers and limits -/

/-- `ConnectionSession`: a nonzero number of 64 bits. -/
@[ext]
structure ConnectionSession where
  get : ℕ
  nonzero : get ≠ 0
  representable : get ≤ u64Max

instance : DecidableEq ConnectionSession := fun a b =>
  decidable_of_iff (a.get = b.get) ConnectionSession.ext_iff.symm

namespace ConnectionSession

/-- The first session. -/
def first : ConnectionSession := ⟨1, by decide, by decide⟩

/-- `NonZeroU64::new`, on a number of 64 bits. -/
def new (value : ℕ) : Option ConnectionSession :=
  if h : value ≠ 0 ∧ value ≤ u64Max then some ⟨value, h.1, h.2⟩ else none

/-- `ConnectionSession::checked_next`. -/
def checkedNext (session : ConnectionSession) : Option ConnectionSession :=
  if h : session.get < u64Max then some ⟨session.get + 1, Nat.succ_ne_zero _, h⟩ else none

theorem new_get (session : ConnectionSession) : new session.get = some session :=
  dif_pos ⟨session.nonzero, session.representable⟩

theorem get_of_new {value : ℕ} {session : ConnectionSession} (h : new value = some session) :
    session.get = value := by
  unfold new at h
  split_ifs at h
  obtain rfl := Option.some.inj h
  rfl

theorem lt_of_checkedNext {session next : ConnectionSession}
    (h : session.checkedNext = some next) : session.get < next.get := by
  unfold checkedNext at h
  split_ifs at h
  obtain rfl := Option.some.inj h
  exact Nat.lt_succ_self _

end ConnectionSession

/-- `MAX_SESSION_PEER_RECORDS`. -/
def maxSessionPeerRecords : ℕ := 65535

/-- Why a number is no limit. -/
inductive LimitError where
  | zero
  | tooLarge (value maximum : ℕ)
deriving DecidableEq

/-- `SessionStoreLimits`. -/
@[ext]
structure SessionStoreLimits where
  maxPeerRecords : ℕ
  nonzero : maxPeerRecords ≠ 0
  representable : maxPeerRecords ≤ maxSessionPeerRecords

instance : DecidableEq SessionStoreLimits := fun a b =>
  decidable_of_iff (a.maxPeerRecords = b.maxPeerRecords) SessionStoreLimits.ext_iff.symm

/-- `SessionStoreLimits::new`. -/
def SessionStoreLimits.new (value : ℕ) : Except LimitError SessionStoreLimits :=
  if hzero : value = 0 then .error .zero
  else if hlarge : maxSessionPeerRecords < value then .error (.tooLarge value maxSessionPeerRecords)
  else .ok ⟨value, hzero, not_lt.1 hlarge⟩

theorem SessionStoreLimits.new_maxPeerRecords (limits : SessionStoreLimits) :
    SessionStoreLimits.new limits.maxPeerRecords = .ok limits := by
  unfold SessionStoreLimits.new
  rw [dif_neg limits.nonzero, dif_neg (not_lt.2 limits.representable)]

/-! ## Marks -/

/-- `PeerSessionState`. -/
structure PeerSessionState where
  outbound : Option ConnectionSession := none
  inbound : Option ConnectionSession := none
deriving DecidableEq

/-- `PeerSessionState::is_empty`. -/
def PeerSessionState.isEmpty (s : PeerSessionState) : Bool := s.outbound.isNone && s.inbound.isNone

/-- `SessionStateError`. -/
inductive SessionStateError where
  | peerLimit (maximum : ℕ)
  | outboundExhausted (peer : PeerId)
deriving DecidableEq

/-- `InboundSessionDecision`. -/
inductive InboundSessionDecision where
  | accepted (previous : Option ConnectionSession)
  | stale (highestAccepted : ConnectionSession)
deriving DecidableEq

/-- `TransportSessionState`, with what `from_peer_states` checks. -/
structure TransportSessionState where
  limits : SessionStoreLimits
  peers : Table PeerId PeerSessionState
  ordered : Table.Ordered peers
  recorded : ∀ row ∈ peers, row.2.isEmpty = false
  bounded : peers.length ≤ limits.maxPeerRecords

namespace TransportSessionState

/-- `TransportSessionState::new`. -/
def new (limits : SessionStoreLimits) : TransportSessionState :=
  ⟨limits, [], List.Pairwise.nil, by simp, Nat.zero_le _⟩

/-- `TransportSessionState::peer_state`. -/
def peerState (s : TransportSessionState) (peer : PeerId) : PeerSessionState :=
  (s.peers.get? peer).getD {}

/-- The number of the highest session accepted from the peer. -/
def highestInbound (s : TransportSessionState) (peer : PeerId) : Option ℕ :=
  (s.peerState peer).inbound.map (·.get)

/-- The condition under which `ensure_peer_capacity` passes. -/
def HasCapacity (s : TransportSessionState) (peer : PeerId) : Prop :=
  ¬(s.peers.contains peer = false ∧ s.peers.length = s.limits.maxPeerRecords)

instance (s : TransportSessionState) (peer : PeerId) : Decidable (s.HasCapacity peer) :=
  inferInstanceAs (Decidable (¬_))

theorem HasCapacity.length_insert_le {s : TransportSessionState} {peer : PeerId}
    (hcapacity : s.HasCapacity peer) (state : PeerSessionState) :
    (s.peers.insert peer state).length ≤ s.limits.maxPeerRecords := by
  have hbound := s.bounded
  rw [s.ordered.length_insert]
  split
  · exact hbound
  · rename_i hcontains
    have : s.peers.length ≠ s.limits.maxPeerRecords :=
      fun hlen => hcapacity ⟨Bool.eq_false_iff.2 hcontains, hlen⟩
    omega

/-- Write one peer's record. -/
def record (s : TransportSessionState) (peer : PeerId) (state : PeerSessionState)
    (hstate : state.isEmpty = false) (hcapacity : s.HasCapacity peer) : TransportSessionState where
  limits := s.limits
  peers := s.peers.insert peer state
  ordered := s.ordered.insert peer state
  recorded row hrow := by
    rcases Table.mem_of_mem_insert hrow with rfl | hrow
    · exact hstate
    · exact s.recorded row hrow
  bounded := hcapacity.length_insert_le state

/-- `TransportSessionState::allocate_outbound`. -/
def allocateOutbound (s : TransportSessionState) (peer : PeerId) :
    Except SessionStateError (ConnectionSession × TransportSessionState) :=
  if hcapacity : s.HasCapacity peer then
    let next := match (s.peerState peer).outbound with
      | some current => current.checkedNext
      | none => some ConnectionSession.first
    match next with
    | none => .error (.outboundExhausted peer)
    | some next =>
      let state := { s.peerState peer with outbound := some next }
      .ok (next, s.record peer state rfl hcapacity)
  else .error (.peerLimit s.limits.maxPeerRecords)

/-- `TransportSessionState::accept_inbound`. -/
def acceptInbound (s : TransportSessionState) (peer : PeerId) (session : ConnectionSession) :
    Except SessionStateError (InboundSessionDecision × TransportSessionState) :=
  let previous := (s.peerState peer).inbound
  match previous.filter fun highest => session.get ≤ highest.get with
  | some highestAccepted => .ok (.stale highestAccepted, s)
  | none =>
    if hcapacity : s.HasCapacity peer then
      let state := { s.peerState peer with inbound := some session }
      .ok (.accepted previous,
        s.record peer state (by simp [state, PeerSessionState.isEmpty]) hcapacity)
    else .error (.peerLimit s.limits.maxPeerRecords)

variable {s s' : TransportSessionState} {peer : PeerId} {session : ConnectionSession}

theorem peerState_record {state : PeerSessionState} (hstate : state.isEmpty = false)
    (hcapacity : s.HasCapacity peer) (other : PeerId) :
    (s.record peer state hstate hcapacity).peerState other =
      if other = peer then state else s.peerState other := by
  unfold peerState record
  rw [Table.get?_insert]
  split <;> rfl

theorem allocateOutbound_ok (h : s.allocateOutbound peer = .ok (session, s')) :
    (∀ mark ∈ (s.peerState peer).outbound, mark.get < session.get) ∧
      ∀ other, s'.peerState other =
        if other = peer then { s.peerState peer with outbound := some session }
        else s.peerState other := by
  unfold allocateOutbound at h
  by_cases hcapacity : s.HasCapacity peer
  · rw [dif_pos hcapacity] at h
    dsimp only at h
    split at h
    · cases h
    · rename_i next hnext
      obtain ⟨rfl, rfl⟩ := Prod.mk.inj (Except.ok.inj h)
      refine ⟨?_, peerState_record _ hcapacity⟩
      intro mark hmark
      rw [hmark] at hnext
      exact ConnectionSession.lt_of_checkedNext hnext
  · rw [dif_neg hcapacity] at h
    cases h

theorem acceptInbound_accepted {previous : Option ConnectionSession}
    (h : s.acceptInbound peer session = .ok (.accepted previous, s')) :
    (∀ mark ∈ (s.peerState peer).inbound, mark.get < session.get) ∧
      ∀ other, s'.peerState other =
        if other = peer then { s.peerState peer with inbound := some session }
        else s.peerState other := by
  unfold acceptInbound at h
  dsimp only at h
  split at h
  · cases h
  · rename_i hfilter
    by_cases hcapacity : s.HasCapacity peer
    · rw [dif_pos hcapacity] at h
      obtain ⟨-, rfl⟩ := Prod.mk.inj (Except.ok.inj h)
      refine ⟨?_, peerState_record _ hcapacity⟩
      intro mark hmark
      have hnot := Option.filter_eq_none_iff.1 hfilter mark hmark
      simpa using hnot
    · rw [dif_neg hcapacity] at h
      cases h

theorem highestInbound_accepted {previous : Option ConnectionSession}
    (h : s.acceptInbound peer session = .ok (.accepted previous, s')) :
    (∀ mark ∈ s.highestInbound peer, mark < session.get) ∧
      ∀ other, s'.highestInbound other =
        if other = peer then some session.get else s.highestInbound other := by
  obtain ⟨habove, hstates⟩ := acceptInbound_accepted h
  constructor
  · intro mark hmark
    obtain ⟨highest, hhighest, rfl⟩ := Option.map_eq_some_iff.1 hmark
    exact habove highest hhighest
  · intro other
    rw [highestInbound, hstates]
    split <;> rfl

end TransportSessionState

end Rafter.Transport.Store
