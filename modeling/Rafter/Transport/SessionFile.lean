import Rafter.Replacement
import Rafter.Transport.SessionFormat
import Rafter.Transport.Sessions

/-!
# The file session store and the sessions it grants

`crates/rafter-transport-tls/src/session/file`: a store that computes a candidate state, publishes
it by replacing its file, and only then keeps it and answers (`operation.rs`, `io.rs`); a failed
publication poisons the open store until it is opened again (`open.rs`, `mod.rs`). The receivers of
`Rafter.Transport.Sessions` run over it.

A call on the store holds its lock until it returns, and each of its file operations is an event:
between two of them the process may be killed, the machine may lose power, and other workers move
on. What arrives on the wire, how a file operation ends and what a power loss leaves are inputs. The
ownership lock keeps the store open at most once; a successful sync of the directory is taken to
make the last rename durable.

Results:

* `sessions_granted_once`: over every run, sessions increase and no frame is admitted twice.
-/

namespace Rafter.Transport.Store

open Replacement

/-! ## Errors -/

/-- `OpenTransportSessionStoreError`. -/
inductive OpenTransportSessionStoreError where
  | missing
  | fileTooLarge (actual maximum : ℕ)
  | decode (source : DecodeTransportSessionStateError)
  | clusterMismatch (expected actual : ClusterId)
  | localPeerMismatch (expected actual : PeerId)

/-- `FileTransportSessionStoreError`. -/
inductive FileTransportSessionStoreError where
  | state (source : SessionStateError)
  | encode (source : EncodeTransportSessionStateError)
  | io (operation : String)
  | storeRequiresReopen

/-- The operation an `IoFailure` of `replace_state_file` names; the second check that the path is
free belongs to `create_state_file`. -/
def operation : Stage → String
  | .openTemp => "open transport session state temp file"
  | .writeTemp => "write transport session state temp file"
  | .syncTemp => "write transport session state temp file"
  | .recheck => "create transport session state"
  | .rename => "replace transport session state"
  | .syncDirectory => "sync transport session state directory"
  | .done => ""

/-! ## The store -/

/-- The most bytes before the records. -/
def fixedMaxBytes : ℕ := sessionStateMagic.length + 2 + 1 + maxIdBytes + 1 + maxIdBytes + 2 + 2 + 4

/-- The most bytes of a record. -/
def recordMaxBytes : ℕ := 1 + maxIdBytes + 8 + 8

/-- `max_transport_session_state_bytes`. -/
def maxTransportSessionStateBytes (maxPeerRecords : ℕ) : ℕ :=
  fixedMaxBytes + recordMaxBytes * maxPeerRecords

/-- An open `FileTransportSessionStore`: its identities and what its mutex guards. -/
structure Handle where
  clusterId : ClusterId
  localPeerId : PeerId
  state : TransportSessionState
  failed : Bool := false

/-- A publication failed: the store requires reopening. -/
def Handle.poison (handle : Handle) : Handle := { handle with failed := true }

/-- `open_existing`, on what stands at the path. -/
def openExisting (content : Option (List UInt8)) (expectedClusterId : ClusterId)
    (expectedLocalPeerId : PeerId) : Except OpenTransportSessionStoreError Handle :=
  match content with
  | none => .error .missing
  | some bytes => do
    let maximum := maxTransportSessionStateBytes maxSessionPeerRecords
    if maximum < bytes.length then .error (.fileTooLarge bytes.length maximum)
    else
      let persisted ← (decodeTransportSessionState bytes).mapError .decode
      if persisted.clusterId ≠ expectedClusterId then
        .error (.clusterMismatch expectedClusterId persisted.clusterId)
      else if persisted.localPeerId ≠ expectedLocalPeerId then
        .error (.localPeerMismatch expectedLocalPeerId persisted.localPeerId)
      else .ok { clusterId := persisted.clusterId, localPeerId := persisted.localPeerId,
                 state := persisted.state }

/-- What a call on the store returns. -/
inductive Answer where
  | allocated (peer : PeerId) (session : ConnectionSession)
  | decided (peer : PeerId) (session : ConnectionSession) (decision : InboundSessionDecision)
  | refused (error : FileTransportSessionStoreError)

/-- What a publication is for. -/
inductive Purpose where
  | create
  | allocate (peer : PeerId) (session : ConnectionSession)
  | accept (worker : ℕ) (peer : PeerId) (session : ConnectionSession)
      (previous : Option ConnectionSession)

/-- A publication under way, at its next file operation. -/
structure Call where
  purpose : Purpose
  persisted : PersistedTransportSessionState
  bytes : List UInt8
  stage : Stage := .openTemp

/-- `publish` up to its first file operation. -/
def Handle.publish (handle : Handle) (candidate : TransportSessionState) (purpose : Purpose) :
    Except FileTransportSessionStoreError Call := do
  let persisted := ⟨handle.clusterId, handle.localPeerId, candidate⟩
  let bytes ← (encodeTransportSessionState persisted).mapError .encode
  return { purpose, persisted, bytes }

/-- `allocate_outbound_session` up to its first file operation. -/
def Handle.allocateOutboundSession (handle : Handle) (peer : PeerId) :
    Except FileTransportSessionStoreError Call :=
  if handle.failed then .error .storeRequiresReopen
  else do
    let (session, candidate) ← (handle.state.allocateOutbound peer).mapError .state
    handle.publish candidate (.allocate peer session)

/-- `accept_inbound_session` up to its first file operation; a stale session needs none. -/
def Handle.acceptInboundSession (handle : Handle) (worker : ℕ) (peer : PeerId)
    (session : ConnectionSession) :
    Except FileTransportSessionStoreError (Call ⊕ InboundSessionDecision) :=
  if handle.failed then .error .storeRequiresReopen
  else do
    let (decision, candidate) ← (handle.state.acceptInbound peer session).mapError .state
    match decision with
    | .stale highestAccepted => .ok (.inr (.stale highestAccepted))
    | .accepted previous =>
      let call ← handle.publish candidate (.accept worker peer session previous)
      return .inl call

/-! ## A process over its store -/

/-- A transport process, its store's file, and what the store has answered over the whole
history. -/
structure Process where
  file : File (List UInt8) := {}
  handle : Option Handle := none
  call : Option Call := none
  receivers : Receivers
  answers : List Answer := []

/-- What happens next to a process and its store. -/
inductive StoreEvent where
  | createNew (clusterId : ClusterId) (localPeerId : PeerId) (limits : SessionStoreLimits)
  | openExisting (clusterId : ClusterId) (localPeerId : PeerId)
  /-- The open store is dropped. -/
  | close
  /-- A dial asks for a session. -/
  | allocate (peer : PeerId)
  /-- A worker asks for its hello's session. -/
  | accept (worker : ℕ)
  /-- The call's next file operation ends. -/
  | file (result : Result (List UInt8))
  /-- The call returns. -/
  | finish
  /-- A worker does something that does not concern the store. -/
  | receiver (event : Event)
  | kill
  | powerLoss (choice : ℕ) (temp : Option (List UInt8))

namespace Process

/-- Before the store's file is created. -/
def initial : Process := { receivers := Receivers.start Receivers.emptySessions }

/-- Note an answer. -/
def answer (p : Process) (answer : Answer) : Process := { p with answers := p.answers ++ [answer] }

/-- A worker moves on. -/
def setPhase (p : Process) (worker : ℕ) (phase : Phase) : Process :=
  { p with receivers := p.receivers.setPhase worker phase }

/-- The process ends: the open store, the call and every worker are gone. -/
def stop (p : Process) : Process :=
  { p with
    handle := none
    call := none
    receivers := { p.receivers with epochs := [], workers := fun _ => .idle } }

/-- `create_new`: the first check that the path is free, then the publication of an empty state. -/
def createNew (p : Process) (clusterId : ClusterId) (localPeerId : PeerId)
    (limits : SessionStoreLimits) : Process :=
  let persisted := ⟨clusterId, localPeerId, TransportSessionState.new limits⟩
  match p.file.current, encodeTransportSessionState persisted with
  | none, .ok bytes => { p with call := some { purpose := .create, persisted, bytes } }
  | _, _ => p

/-- A dial asks the open store. -/
def allocate (p : Process) (handle : Handle) (peer : PeerId) : Process :=
  match handle.allocateOutboundSession peer with
  | .ok call => { p with call := some call }
  | .error error => p.answer (.refused error)

/-- A worker asks the open store. -/
def accept (p : Process) (handle : Handle) (worker : ℕ) (peer : PeerId)
    (session : ConnectionSession) : Process :=
  match handle.acceptInboundSession worker peer session with
  | .ok (.inl call) => { p with call := some call }
  | .ok (.inr decision) => (p.answer (.decided peer session decision)).setPhase worker .idle
  | .error error => (p.answer (.refused error)).setPhase worker .idle

/-- The call returns an error. -/
def fail (p : Process) (call : Call) : Process :=
  let error := FileTransportSessionStoreError.io (operation call.stage)
  let p := { p with call := none, handle := p.handle.map Handle.poison }
  match call.purpose with
  | .create => p
  | .allocate _ _ => p.answer (.refused error)
  | .accept worker _ _ _ => (p.answer (.refused error)).setPhase worker .idle

/-- The call returns what it published. -/
def complete (p : Process) (call : Call) : Process :=
  let persisted := call.persisted
  let p := { p with
    call := none
    handle := some { clusterId := persisted.clusterId, localPeerId := persisted.localPeerId,
                     state := persisted.state } }
  match call.purpose with
  | .create => p
  | .allocate peer session => p.answer (.allocated peer session)
  | .accept worker peer session previous =>
    (p.answer (.decided peer session (.accepted previous))).setPhase worker
      (.accepted peer session.get)

/-- One event; one that the process does not allow changes nothing. -/
def step (p : Process) : StoreEvent → Process
  | .createNew clusterId localPeerId limits =>
    match p.handle, p.call with
    | none, none => p.createNew clusterId localPeerId limits
    | _, _ => p
  | .openExisting clusterId localPeerId =>
    match p.handle, p.call with
    | none, none =>
      match Store.openExisting p.file.current clusterId localPeerId with
      | .ok handle => { p with handle := some handle }
      | .error _ => p
    | _, _ => p
  | .close =>
    match p.call with
    | none => { p with handle := none }
    | some _ => p
  | .allocate peer =>
    match p.handle, p.call with
    | some handle, none => p.allocate handle peer
    | _, _ => p
  | .accept worker =>
    match p.handle, p.call, p.receivers.workers worker with
    | some handle, none, .greeted peer session =>
      match ConnectionSession.new session with
      | some session => p.accept handle worker peer session
      | none => p.setPhase worker .idle
    | _, _, _ => p
  | .file result =>
    match p.call with
    | some call =>
      let fresh := match call.purpose with
        | .create => true
        | _ => false
      let (file, succeeds) := perform call.bytes p.file call.stage result
      let p := { p with file := file }
      if succeeds then { p with call := some { call with stage := call.stage.next fresh } }
      else p.fail call
    | none => p
  | .finish =>
    match p.call with
    | some call => if call.stage = .done then p.complete call else p
    | none => p
  | .receiver event =>
    match event with
    | .accept _ _ => p
    | event => { p with receivers := p.receivers.step event }
  | .kill => p.stop
  | .powerLoss choice temp => { p.stop with file := p.file.lose choice temp }

end Process

/-! ## Sessions granted -/

/-- The two marks of a peer record. -/
inductive Direction where
  | outbound
  | inbound
deriving DecidableEq

/-- A mark of a peer record. -/
def TransportSessionState.mark (state : TransportSessionState) : Direction × PeerId →
    Option ConnectionSession
  | (.outbound, peer) => (state.peerState peer).outbound
  | (.inbound, peer) => (state.peerState peer).inbound

/-- The session an answer hands out, to a dial or to a receiver. -/
def Answer.grant : Answer → Option ((Direction × PeerId) × ℕ)
  | .allocated peer session => some ((.outbound, peer), session.get)
  | .decided peer session (.accepted _) => some ((.inbound, peer), session.get)
  | .decided _ _ (.stale _) => none
  | .refused _ => none

/-- A session handed out later to the same peer in the same direction is greater. -/
def Ascending (answers : List Answer) : Prop :=
  answers.Pairwise fun a b => ∀ g ∈ a.grant, ∀ h ∈ b.grant, g.1 = h.1 → g.2 < h.2

/-- Every session handed out is at or below its mark. -/
def Covers (state : TransportSessionState) (answers : List Answer) : Prop :=
  ∀ a ∈ answers, ∀ g ∈ a.grant, ∃ mark ∈ state.mark g.1, g.2 ≤ mark.get

/-- What may be found at the path covers the answers; an absent file says that there are none. -/
def Holds (content : Option (List UInt8)) (answers : List Answer) : Prop :=
  match content with
  | none => ∀ a ∈ answers, a.grant = none
  | some bytes => ∀ persisted, decodeTransportSessionState bytes = .ok persisted →
      Covers persisted.state answers

/-- The answer a publication leads to. -/
def Purpose.answers : Purpose → List Answer
  | .create => []
  | .allocate peer session => [.allocated peer session]
  | .accept _ peer session previous => [.decided peer session (.accepted previous)]

/-- A publication knows every session handed out, and the one it is for. -/
structure Call.Sound (call : Call) (file : File (List UInt8)) (answers : List Answer) : Prop where
  encoded : encodeTransportSessionState call.persisted = .ok call.bytes
  covers : Covers call.persisted.state (answers ++ call.purpose.answers)
  ascending : Ascending (answers ++ call.purpose.answers)
  ready : Ready call.bytes file call.stage

/-- The accepted sessions, as the receivers name them. -/
def Accepted (answers : List Answer) (held : PeerId × ℕ) : Prop :=
  ∃ a ∈ answers, a.grant = some ((.inbound, held.1), held.2)

/-- The invariant of a process and its file. -/
structure Process.Safe (p : Process) : Prop where
  ascending : Ascending p.answers
  exclusive : p.receivers.Exclusive (Accepted p.answers)
  contents : ∀ content ∈ p.file.contents, Holds content p.answers
  handle : ∀ handle ∈ p.handle, Covers handle.state p.answers
  call : ∀ call ∈ p.call, call.Sound p.file p.answers

variable {state state' : TransportSessionState} {answers : List Answer} {answer : Answer}

theorem Covers.of_append {more : List Answer} (h : Covers state (answers ++ more)) :
    Covers state answers :=
  fun a ha => h a (List.mem_append_left _ ha)

theorem Covers.append_of_grant_eq_none (h : Covers state answers) (ha : answer.grant = none) :
    Covers state (answers ++ [answer]) := by
  intro a hmem g hg
  rcases List.mem_append.1 hmem with hmem | hmem
  · exact h a hmem g hg
  · rw [List.mem_singleton.1 hmem, ha] at hg
    cases hg

theorem Ascending.append_of_grant_eq_none (h : Ascending answers) (ha : answer.grant = none) :
    Ascending (answers ++ [answer]) := by
  refine List.pairwise_append.2 ⟨h, List.pairwise_singleton .., ?_⟩
  intro a _ b hb g _ k hk
  rw [List.mem_singleton.1 hb, ha] at hk
  cases hk

theorem Holds.append_of_grant_eq_none {content : Option (List UInt8)} (h : Holds content answers)
    (ha : answer.grant = none) : Holds content (answers ++ [answer]) := by
  cases content with
  | none =>
    intro a hmem
    rcases List.mem_append.1 hmem with hmem | hmem
    · exact h a hmem
    · rw [List.mem_singleton.1 hmem, ha]
  | some bytes => exact fun persisted hdecode => (h persisted hdecode).append_of_grant_eq_none ha

/-- The bytes of a published state hold what the state covers. -/
theorem Covers.holds {persisted : PersistedTransportSessionState} {bytes : List UInt8}
    (h : Covers persisted.state answers)
    (hencode : encodeTransportSessionState persisted = .ok bytes) :
    Holds (some bytes) answers := by
  intro found hdecode
  rw [decode_encode hencode] at hdecode
  rwa [← Except.ok.inj hdecode]

/-- One mark goes up to a session. -/
structure Raises (state state' : TransportSessionState) (key : Direction × PeerId)
    (session : ConnectionSession) : Prop where
  above : ∀ mark ∈ state.mark key, mark.get < session.get
  marks : ∀ other, state'.mark other = if other = key then some session else state.mark other

variable {peer : PeerId} {session : ConnectionSession}

theorem raises_of_allocateOutbound (h : state.allocateOutbound peer = .ok (session, state')) :
    Raises state state' (.outbound, peer) session := by
  obtain ⟨habove, hmarks⟩ := TransportSessionState.allocateOutbound_ok h
  refine ⟨habove, ?_⟩
  rintro ⟨direction, other⟩
  by_cases hpeer : other = peer
  · subst hpeer
    cases direction <;> simp [TransportSessionState.mark, hmarks]
  · cases direction <;> simp [TransportSessionState.mark, hmarks, hpeer]

theorem raises_of_acceptInbound {previous : Option ConnectionSession}
    (h : state.acceptInbound peer session = .ok (.accepted previous, state')) :
    Raises state state' (.inbound, peer) session := by
  obtain ⟨habove, hmarks⟩ := TransportSessionState.acceptInbound_accepted h
  refine ⟨habove, ?_⟩
  rintro ⟨direction, other⟩
  by_cases hpeer : other = peer
  · subst hpeer
    cases direction <;> simp [TransportSessionState.mark, hmarks]
  · cases direction <;> simp [TransportSessionState.mark, hmarks, hpeer]

section Raise

variable {key : Direction × PeerId} {session : ConnectionSession}

theorem Covers.raise (h : Covers state answers) (hraise : Raises state state' key session)
    (hgrant : answer.grant = some (key, session.get)) : Covers state' (answers ++ [answer]) := by
  intro a ha g hg
  rw [hraise.marks]
  rcases List.mem_append.1 ha with ha | ha
  · obtain ⟨mark, hmark, hle⟩ := h a ha g hg
    by_cases hkey : g.1 = key
    · rw [if_pos hkey]
      rw [hkey] at hmark
      exact ⟨session, rfl, hle.trans (hraise.above mark hmark).le⟩
    · rw [if_neg hkey]
      exact ⟨mark, hmark, hle⟩
  · rw [List.mem_singleton.1 ha, hgrant] at hg
    cases hg
    exact ⟨session, by simp, le_rfl⟩

theorem Ascending.raise (hascending : Ascending answers) (h : Covers state answers)
    (hraise : Raises state state' key session) (hgrant : answer.grant = some (key, session.get)) :
    Ascending (answers ++ [answer]) := by
  refine List.pairwise_append.2 ⟨hascending, List.pairwise_singleton .., ?_⟩
  intro a ha b hb g hg k hk hkey
  rw [List.mem_singleton.1 hb, hgrant] at hk
  cases hk
  obtain ⟨mark, hmark, hle⟩ := h a ha g hg
  rw [hkey] at hmark
  exact hle.trans_lt (hraise.above mark hmark)

end Raise

/-! ### Calls -/

section Calls

variable {handle : Handle} {call : Call} {peer : PeerId} {session : ConnectionSession}

variable {purpose : Purpose} {worker : ℕ}

theorem Handle.publish_ok (h : handle.publish state purpose = .ok call) :
    call.purpose = purpose ∧ call.persisted.state = state ∧
      encodeTransportSessionState call.persisted = .ok call.bytes ∧ call.stage = .openTemp := by
  unfold Handle.publish at h
  obtain ⟨bytes, hbytes, hcall⟩ := Bytes.bind_eq_ok_iff.1 h
  obtain rfl := Bytes.pure_eq_ok_iff.1 hcall
  exact ⟨rfl, rfl, Bytes.mapError_eq_ok_iff.1 hbytes, rfl⟩

/-- A publication that raises one mark is sound from its beginning. -/
theorem Call.sound_of_raises {key : Direction × PeerId} {file : File (List UInt8)}
    (hpublish : handle.publish state purpose = .ok call)
    (hraise : Raises handle.state state key session) (hpurpose : purpose.answers = [answer])
    (hgrant : answer.grant = some (key, session.get)) (hcovers : Covers handle.state answers)
    (hascending : Ascending answers) : call.Sound file answers := by
  obtain ⟨rfl, rfl, hencoded, hstage⟩ := Handle.publish_ok hpublish
  refine ⟨hencoded, ?_, ?_, ?_⟩
  · rw [hpurpose]
    exact hcovers.raise hraise hgrant
  · rw [hpurpose]
    exact hascending.raise hcovers hraise hgrant
  · rw [hstage]
    trivial

theorem Handle.allocateOutboundSession_sound (file : File (List UInt8))
    (h : handle.allocateOutboundSession peer = .ok call) (hcovers : Covers handle.state answers)
    (hascending : Ascending answers) : call.Sound file answers := by
  unfold Handle.allocateOutboundSession at h
  split at h
  · cases h
  · obtain ⟨⟨session, candidate⟩, hallocate, hpublish⟩ := Bytes.bind_eq_ok_iff.1 h
    have hraise := raises_of_allocateOutbound (Bytes.mapError_eq_ok_iff.1 hallocate)
    exact Call.sound_of_raises hpublish hraise rfl rfl hcovers hascending

theorem Handle.acceptInboundSession_sound (file : File (List UInt8))
    (h : handle.acceptInboundSession worker peer session = .ok (.inl call))
    (hcovers : Covers handle.state answers) (hascending : Ascending answers) :
    call.Sound file answers := by
  unfold Handle.acceptInboundSession at h
  split at h
  · cases h
  · obtain ⟨⟨decision, candidate⟩, haccept, hdecision⟩ := Bytes.bind_eq_ok_iff.1 h
    cases decision with
    | stale highest => cases hdecision
    | accepted previous =>
      obtain ⟨published, hpublish, hcall⟩ := Bytes.bind_eq_ok_iff.1 hdecision
      cases hcall
      have hraise := raises_of_acceptInbound (Bytes.mapError_eq_ok_iff.1 haccept)
      exact Call.sound_of_raises hpublish hraise rfl rfl hcovers hascending

/-- A decision without a publication hands out nothing. -/
theorem Handle.acceptInboundSession_stale {decision : InboundSessionDecision}
    (h : handle.acceptInboundSession worker peer session = .ok (.inr decision)) :
    (Answer.decided peer session decision).grant = none := by
  unfold Handle.acceptInboundSession at h
  split at h
  · cases h
  · obtain ⟨⟨decided, candidate⟩, -, hdecision⟩ := Bytes.bind_eq_ok_iff.1 h
    cases decided with
    | stale highest =>
      cases hdecision
      rfl
    | accepted previous =>
      obtain ⟨published, -, hcall⟩ := Bytes.bind_eq_ok_iff.1 hdecision
      cases hcall

/-- An opened store knows what its file holds. -/
theorem openExisting_covers {content : Option (List UInt8)} {clusterId : ClusterId}
    (h : openExisting content clusterId peer = .ok handle) (hholds : Holds content answers) :
    Covers handle.state answers := by
  cases content with
  | none => cases h
  | some bytes =>
    unfold openExisting at h
    dsimp only at h
    split at h
    · cases h
    · obtain ⟨persisted, hdecode, h⟩ := Bytes.bind_eq_ok_iff.1 h
      split at h
      · cases h
      · split at h
        · cases h
        · cases h
          exact hholds persisted (Bytes.mapError_eq_ok_iff.1 hdecode)

end Calls

/-! ### Steps -/

namespace Process

variable {p : Process} {call : Call} {handle : Handle}

theorem accepted_append {held : PeerId × ℕ} (more : List Answer) (h : Accepted answers held) :
    Accepted (answers ++ more) held := by
  obtain ⟨a, ha, hgrant⟩ := h
  exact ⟨a, List.mem_append_left _ ha, hgrant⟩

namespace Safe

theorem answered (h : p.Safe) (hcall : p.call = none) (hgrant : answer.grant = none) :
    (p.answer answer).Safe where
  ascending := h.ascending.append_of_grant_eq_none hgrant
  exclusive := h.exclusive.mono fun _ => accepted_append _
  contents content hcontent := (h.contents content hcontent).append_of_grant_eq_none hgrant
  handle handle hhandle := (h.handle handle hhandle).append_of_grant_eq_none hgrant
  call call hmem := by
    rw [show (p.answer answer).call = none from hcall] at hmem
    cases hmem

theorem setIdle (h : p.Safe) (worker : ℕ) : (p.setPhase worker .idle).Safe :=
  ⟨h.ascending, h.exclusive.setIdle worker, h.contents, h.handle, h.call⟩

theorem stop (h : p.Safe) : p.stop.Safe := by
  refine ⟨h.ascending, ?_, h.contents, by simp [Process.stop], by simp [Process.stop]⟩
  refine ⟨h.exclusive.distinct, ?_, ?_, h.exclusive.bounded, ?_, ?_⟩
  · intro worker held hheld
    cases hheld
  · intro worker other held hheld
    cases hheld
  · intro a _ worker hheld
    cases hheld
  · exact fun _ => trivial

theorem fail (h : Safe { p with call := none }) (call : Call) : (p.fail call).Safe := by
  have hpoisoned : Safe { p with call := none, handle := p.handle.map Handle.poison } := by
    refine ⟨h.ascending, h.exclusive, h.contents, ?_, by simp⟩
    intro handle hhandle
    obtain ⟨old, hold, rfl⟩ := Option.map_eq_some_iff.1 hhandle
    exact h.handle old hold
  unfold Process.fail
  cases call.purpose with
  | create => exact hpoisoned
  | allocate peer session => exact hpoisoned.answered rfl rfl
  | accept worker peer session previous => exact (hpoisoned.answered rfl rfl).setIdle worker

/-- The state after a publication has returned. -/
theorem published (h : p.Safe) (hcall : p.call = some call) (hdone : call.stage = .done)
    {receivers : Receivers}
    (hexclusive : receivers.Exclusive (Accepted (p.answers ++ call.purpose.answers))) :
    Safe { p with
      call := none
      handle := some { clusterId := call.persisted.clusterId,
                       localPeerId := call.persisted.localPeerId, state := call.persisted.state }
      receivers := receivers
      answers := p.answers ++ call.purpose.answers } := by
  have hsound := h.call call hcall
  have hready := hsound.ready
  rw [hdone] at hready
  refine ⟨hsound.ascending, hexclusive, ?_, ?_, by simp⟩
  · intro content hcontent
    rw [show p.file.contents = [some call.bytes] from hready, List.mem_singleton] at hcontent
    rw [hcontent]
    exact hsound.covers.holds hsound.encoded
  · intro handle hhandle
    cases hhandle
    exact hsound.covers

/-- A session under publication for a receiver was not accepted before. -/
theorem not_accepted (h : p.Safe) (hcall : p.call = some call) {worker : ℕ} {peer : PeerId}
    {session : ConnectionSession} {previous : Option ConnectionSession}
    (hpurpose : call.purpose = .accept worker peer session previous) :
    ¬Accepted p.answers (peer, session.get) := by
  rintro ⟨a, ha, hgrant⟩
  have hascending := (h.call call hcall).ascending
  rw [hpurpose] at hascending
  have hlt := (List.pairwise_append.1 hascending).2.2 a ha _ List.mem_cons_self _ hgrant _ rfl rfl
  exact lt_irrefl _ hlt

theorem complete (h : p.Safe) (hcall : p.call = some call) (hdone : call.stage = .done) :
    (p.complete call).Safe := by
  have hmono : p.receivers.Exclusive (Accepted (p.answers ++ call.purpose.answers)) :=
    h.exclusive.mono fun _ => accepted_append _
  unfold Process.complete
  cases hpurpose : call.purpose with
  | create =>
    have hsafe := h.published hcall hdone hmono
    rw [hpurpose] at hsafe
    simpa [Purpose.answers] using hsafe
  | allocate peer session =>
    have hsafe := h.published hcall hdone hmono
    rw [hpurpose] at hsafe
    exact hsafe
  | accept worker peer session previous =>
    have htaken : Accepted (p.answers ++ call.purpose.answers) (peer, session.get) := by
      rw [hpurpose]
      exact ⟨_, List.mem_append_right _ List.mem_cons_self, rfl⟩
    have hexclusive := h.exclusive.takeSession worker (h.not_accepted hcall hpurpose) htaken
      fun _ => accepted_append _
    have hsafe := h.published hcall hdone hexclusive
    rw [hpurpose] at hsafe
    exact hsafe

/-- A file operation adds at most the published state to what may be found. -/
theorem performed (h : p.Safe) (hcall : p.call = some call) (result : Result (List UInt8)) :
    ∀ content ∈ (perform call.bytes p.file call.stage
      result).1.contents, Holds content p.answers := by
  intro content hcontent
  have hsound := h.call call hcall
  rcases perform_contents hsound.ready result hcontent with hold | rfl
  · exact h.contents content hold
  · exact hsound.covers.of_append.holds hsound.encoded

end Safe

theorem initial_safe : initial.Safe where
  ascending := List.Pairwise.nil
  exclusive := Receivers.start_exclusive Receivers.emptySessions
  contents content hcontent := by
    rw [List.mem_singleton.1 hcontent]
    exact fun a ha => absurd ha List.not_mem_nil
  handle handle hhandle := by cases hhandle
  call call hcall := by cases hcall

theorem createNew_safe (h : p.Safe) (clusterId : ClusterId) (localPeerId : PeerId)
    (limits : SessionStoreLimits) : (p.createNew clusterId localPeerId limits).Safe := by
  unfold createNew
  dsimp only
  split
  · rename_i bytes habsent hencode
    -- the path is free, so nothing has been handed out
    have hnothing := h.contents p.file.current List.mem_cons_self
    rw [habsent] at hnothing
    refine ⟨h.ascending, h.exclusive, h.contents, h.handle, ?_⟩
    intro call hmem
    cases hmem
    refine ⟨hencode, ?_, ?_, trivial⟩
    · intro a ha g hg
      rw [Purpose.answers, List.append_nil] at ha
      rw [hnothing a ha] at hg
      cases hg
    · rw [Purpose.answers, List.append_nil]
      exact h.ascending
  · exact h

theorem allocate_safe (h : p.Safe) (hcall : p.call = none) (hhandle : p.handle = some handle)
    (peer : PeerId) : (p.allocate handle peer).Safe := by
  unfold allocate
  split
  · rename_i call hallocate
    refine ⟨h.ascending, h.exclusive, h.contents, h.handle, ?_⟩
    intro call' hmem
    cases hmem
    exact Handle.allocateOutboundSession_sound _ hallocate (h.handle handle hhandle) h.ascending
  · exact h.answered hcall rfl

theorem accept_safe (h : p.Safe) (hcall : p.call = none) (hhandle : p.handle = some handle)
    (worker : ℕ) (peer : PeerId) (session : ConnectionSession) :
    (p.accept handle worker peer session).Safe := by
  unfold accept
  split
  · rename_i call haccept
    refine ⟨h.ascending, h.exclusive, h.contents, h.handle, ?_⟩
    intro call' hmem
    cases hmem
    exact Handle.acceptInboundSession_sound _ haccept (h.handle handle hhandle) h.ascending
  · rename_i decision haccept
    exact (h.answered hcall (Handle.acceptInboundSession_stale haccept)).setIdle worker
  · exact (h.answered hcall rfl).setIdle worker

theorem file_safe (h : p.Safe) (result : Result (List UInt8)) : (p.step (.file result)).Safe := by
  rw [step]
  split
  · rename_i call hcall
    dsimp only
    have hcontents := h.performed hcall result
    have hsound := h.call call hcall
    split
    · rename_i hsucceeds
      refine ⟨h.ascending, h.exclusive, hcontents, h.handle, ?_⟩
      intro call' hmem
      cases hmem
      exact ⟨hsound.encoded, hsound.covers, hsound.ascending,
        perform_ready hsound.ready hsucceeds _⟩
    · refine Safe.fail (p := { p with file := _ }) ?_ call
      exact ⟨h.ascending, h.exclusive, hcontents, h.handle, by simp⟩
  · exact h

theorem receiver_safe (h : p.Safe) (event : Event) : (p.step (.receiver event)).Safe := by
  unfold step
  dsimp only
  split
  · exact h
  · rename_i hother
    exact ⟨h.ascending, h.exclusive.step hother, h.contents, h.handle, h.call⟩

theorem step_safe (h : p.Safe) (event : StoreEvent) : (p.step event).Safe := by
  cases event with
  | createNew clusterId localPeerId limits =>
    rw [step]
    split
    · exact createNew_safe h clusterId localPeerId limits
    · exact h
  | openExisting clusterId localPeerId =>
    rw [step]
    split
    · split
      · rename_i handle hopen
        have hholds := h.contents p.file.current List.mem_cons_self
        refine ⟨h.ascending, h.exclusive, h.contents, ?_, h.call⟩
        intro handle' hmem
        cases hmem
        exact openExisting_covers hopen hholds
      · exact h
    · exact h
  | close =>
    rw [step]
    split
    · exact ⟨h.ascending, h.exclusive, h.contents, by simp, h.call⟩
    · exact h
  | allocate peer =>
    rw [step]
    split
    · rename_i handle hhandle hcall
      exact allocate_safe h hcall hhandle peer
    · exact h
  | accept worker =>
    rw [step]
    split
    · rename_i handle peer session hhandle hcall hworker
      split
      · exact accept_safe h hcall hhandle worker peer _
      · exact h.setIdle worker
    · exact h
  | file result => exact file_safe h result
  | finish =>
    rw [step]
    split
    · rename_i call hcall
      split
      · rename_i hdone
        exact h.complete hcall hdone
      · exact h
    · exact h
  | receiver event => exact receiver_safe h event
  | kill => exact h.stop
  | powerLoss choice temp =>
    have hstop := h.stop
    refine ⟨hstop.ascending, hstop.exclusive, ?_, hstop.handle, fun call hcall => by cases hcall⟩
    exact fun content hcontent => h.contents content (File.contents_lose hcontent)

end Process

/-! ## Processes on a network -/

/-- Any number of processes, each with a store of its own. -/
abbrev Network (ι : Type) := ι → Process

namespace Network

variable {ι : Type} [DecidableEq ι]

/-- Every disk is empty. -/
def initial : Network ι := fun _ => Process.initial

/-- One event of one process. -/
def step (network : Network ι) (event : ι × StoreEvent) : Network ι :=
  Function.update network event.1 ((network event.1).step event.2)

/-- Events in order. -/
def run (network : Network ι) (events : List (ι × StoreEvent)) : Network ι :=
  events.foldl step network

theorem run_safe {network : Network ι} (h : ∀ i, (network i).Safe)
    (events : List (ι × StoreEvent)) : ∀ i, (network.run events i).Safe := by
  induction events generalizing network with
  | nil => exact h
  | cons event events ih =>
    refine ih fun i => ?_
    rw [step, Function.update_apply]
    split
    · exact Process.step_safe (h event.1) event.2
    · exact h i

end Network

/-- The sessions handed to dials, in order. -/
def Process.dialed (p : Process) : List (PeerId × ℕ) :=
  p.answers.filterMap fun
    | .allocated peer session => some (peer, session.get)
    | _ => none

/-- The sessions accepted from peers, in order. -/
def Process.accepted (p : Process) : List (PeerId × ℕ) :=
  p.answers.filterMap fun
    | .decided peer session (.accepted _) => some (peer, session.get)
    | _ => none

/-- For each peer, every session is greater than all before it. -/
def Increasing (sessions : List (PeerId × ℕ)) : Prop :=
  sessions.Pairwise fun a b => a.1 = b.1 → a.2 < b.2

variable {p : Process}

theorem Process.Safe.increasing_dialed (h : p.Safe) : Increasing p.dialed := by
  refine List.pairwise_filterMap.2 (h.ascending.imp ?_)
  intro a b hab g hg k hk hpeer
  split at hg
  · cases hg
    split at hk
    · cases hk
      exact hab _ rfl _ rfl (congrArg (Prod.mk Direction.outbound) hpeer)
    · cases hk
  · cases hg

theorem Process.Safe.increasing_accepted (h : p.Safe) : Increasing p.accepted := by
  refine List.pairwise_filterMap.2 (h.ascending.imp ?_)
  intro a b hab g hg k hk hpeer
  split at hg
  · cases hg
    split at hk
    · cases hk
      exact hab _ rfl _ rfl (congrArg (Prod.mk Direction.inbound) hpeer)
    · cases hk
  · cases hg

/-- Whatever arrives on the wire, and wherever file operations fail and processes or machines stop
and start again: each process hands its dials increasing sessions for each peer, accepts increasing
sessions from each peer, and admits no frame of a peer's session twice. -/
theorem sessions_granted_once {ι : Type} [DecidableEq ι] (events : List (ι × StoreEvent)) (i : ι) :
    Increasing ((Network.initial.run events) i).dialed ∧
      Increasing ((Network.initial.run events) i).accepted ∧
      ((Network.initial.run events) i).receivers.admitted.Nodup := by
  have hsafe := Network.run_safe (fun _ : ι => Process.initial_safe) events i
  exact ⟨hsafe.increasing_dialed, hsafe.increasing_accepted, hsafe.exclusive.distinct⟩

end Rafter.Transport.Store
