import Rafter.Transport.SessionState

/-!
# Inbound connection sessions

`crates/rafter-transport-tls/src/`: the live epochs (`runtime/inbound_epoch.rs`), the sequence check
of one connection (`session/sequence.rs`) and the receiver worker around them
(`connection/receiver.rs`, `receiver/tls.rs`, `receiver/frame.rs`), over the durable marks of
`Rafter.Transport.SessionState`.

Every critical section of a worker is one event: accepting the session durably, installing its
epoch, admitting one frame while the epoch is current, dropping the epoch. What the peer sends, what
the directory and the queue answer and when a worker stops are inputs, so a run is any interleaving
of any number of workers. The frames' contents are left out: no inbound decision reads them.

Results:

* `admitted_in_order`: while no epoch is installed in an empty slot after a newer one of its peer,
  each peer's admitted frames have non-decreasing sessions and, within a session, increasing
  sequence numbers;
* `superseded_session_admitted`: without that condition an older session is admitted after a newer
  one whose connection has ended.
-/

namespace Rafter.Transport

open Store

/-! ## Live epochs -/

/-- `InboundEpochs`: the session of each peer's live connection. -/
abbrev InboundEpochs := Table PeerId ℕ

namespace InboundEpochs

/-- `install`: none when an epoch at least as new is live. -/
def install (epochs : InboundEpochs) (peer : PeerId) (session : ℕ) : Option InboundEpochs :=
  if (epochs.get? peer).any (session ≤ ·) then none else some (epochs.insert peer session)

/-- `InboundEpochs::is_current`. -/
def isCurrent (epochs : InboundEpochs) (peer : PeerId) (session : ℕ) : Bool :=
  epochs.get? peer = some session

/-- `InboundEpochs::remove_if_current`. -/
def removeIfCurrent (epochs : InboundEpochs) (peer : PeerId) (session : ℕ) : InboundEpochs :=
  if epochs.isCurrent peer session then epochs.erase peer else epochs

end InboundEpochs

/-! ## Sequence numbers -/

/-- `SequenceError`. -/
inductive SequenceError where
  | unexpected (expected actual : ℕ)
  | exhausted
deriving DecidableEq

/-- `InboundSequence`: the sequence number required next, none once the last one was taken. -/
abbrev InboundSequence := Option ℕ

namespace InboundSequence

/-- `InboundSequence::new`. -/
def new : InboundSequence := some 1

/-- `InboundSequence::accept`: the validator after it. -/
def accept (expected : InboundSequence) (actual : ℕ) : Except SequenceError InboundSequence :=
  match expected with
  | none => .error .exhausted
  | some next => if actual = next then .ok (checkedNext next) else .error (.unexpected next actual)

end InboundSequence

/-! ## Workers -/

/-- Where a receiver worker stands between two of its critical sections. -/
inductive Phase where
  | idle
  /-- The peer is authenticated and its hello names this session. -/
  | greeted (peer : PeerId) (session : ℕ)
  /-- The session is durably accepted and its epoch not yet installed. -/
  | accepted (peer : PeerId) (session : ℕ)
  /-- The worker holds the guard of its epoch. -/
  | established (peer : PeerId) (session : ℕ) (expected : InboundSequence)
  /-- A frame passed the sequence check and the directory, and is not yet in the queue. -/
  | routing (peer : PeerId) (session sequence : ℕ) (expected : InboundSequence)
  /-- The worker returns; its guard is not yet dropped. -/
  | stopping (peer : PeerId) (session : ℕ)
deriving DecidableEq

/-- What the peer directory and the decoder say of a frame with the right sequence number. -/
inductive FrameVerdict where
  | routed
  | skip
  | stop
deriving DecidableEq

/-- `InboundQueue::try_push`, as its caller tells the answers apart. -/
inductive PushVerdict where
  | pushed
  | full
  | closed
deriving DecidableEq

/-- One step of one worker. -/
inductive Event where
  /-- A connection authenticated as `peer` sends a hello with `session`. -/
  | hello (worker : ℕ) (peer : PeerId) (session : ℕ)
  /-- `accept_client_hello`; `published` says whether the store could write the new mark. -/
  | accept (worker : ℕ) (published : Bool)
  | install (worker : ℕ)
  | receive (worker : ℕ) (sequence : ℕ) (verdict : FrameVerdict)
  | enqueue (worker : ℕ) (verdict : PushVerdict)
  /-- The worker leaves its loop: a read failed, the peer closed, the epoch was superseded. -/
  | leave (worker : ℕ)
  /-- The guard is dropped. -/
  | drop (worker : ℕ)

/-- A frame in the inbound queue, by what its order is judged on. -/
structure Admitted where
  peer : PeerId
  session : ℕ
  sequence : ℕ
deriving DecidableEq

/-- The receivers of one transport process. -/
structure Receivers where
  sessions : TransportSessionState
  epochs : InboundEpochs
  workers : ℕ → Phase
  /-- The frames pushed so far, in order. -/
  admitted : List Admitted
  /-- The sessions whose epochs were installed so far; no step reads them. -/
  installed : List (PeerId × ℕ)

namespace Receivers

/-- A process that starts over a session store. -/
def start (sessions : TransportSessionState) : Receivers :=
  ⟨sessions, [], fun _ => .idle, [], []⟩

/-- A worker moves on. -/
def setPhase (r : Receivers) (worker : ℕ) (phase : Phase) : Receivers :=
  { r with workers := Function.update r.workers worker phase }

/-- The session decision of `establish`; a hello without a session number is refused. -/
def accept (r : Receivers) (worker : ℕ) (peer : PeerId) (session : ℕ) (published : Bool) :
    Receivers :=
  match (ConnectionSession.new session).map (r.sessions.acceptInbound peer) with
  | some (.ok (.accepted _, sessions)) =>
    if published then { r with sessions := sessions }.setPhase worker (.accepted peer session)
    else r.setPhase worker .idle
  | _ => r.setPhase worker .idle

/-- The epoch installation of `establish`. -/
def install (r : Receivers) (worker : ℕ) (peer : PeerId) (session : ℕ) : Receivers :=
  match r.epochs.install peer session with
  | some epochs =>
    let installed := (peer, session) :: r.installed
    { r with epochs := epochs, installed := installed }.setPhase worker
      (.established peer session InboundSequence.new)
  | none => r.setPhase worker .idle

/-- `process_frame` up to `enqueue`. -/
def receive (r : Receivers) (worker : ℕ) (peer : PeerId) (session : ℕ) (expected : InboundSequence)
    (sequence : ℕ) (verdict : FrameVerdict) : Receivers :=
  match expected.accept sequence with
  | .error _ => r.setPhase worker (.stopping peer session)
  | .ok next =>
    match verdict with
    | .routed => r.setPhase worker (.routing peer session sequence next)
    | .skip => r.setPhase worker (.established peer session next)
    | .stop => r.setPhase worker (.stopping peer session)

/-- `enqueue`: the push runs under the lock of the epochs, while the worker's own is current. -/
def enqueue (r : Receivers) (worker : ℕ) (peer : PeerId) (session sequence : ℕ)
    (expected : InboundSequence) (verdict : PushVerdict) : Receivers :=
  if r.epochs.isCurrent peer session then
    match verdict with
    | .pushed =>
      let pushed : Receivers := { r with admitted := r.admitted ++ [⟨peer, session, sequence⟩] }
      pushed.setPhase worker (.established peer session expected)
    | .full => r.setPhase worker (.established peer session expected)
    | .closed => r.setPhase worker (.stopping peer session)
  else r.setPhase worker (.stopping peer session)

/-- One event; one that its worker's phase does not allow changes nothing. -/
def step (r : Receivers) : Event → Receivers
  | .hello worker peer session =>
    match r.workers worker with
    | .idle => r.setPhase worker (.greeted peer session)
    | _ => r
  | .accept worker published =>
    match r.workers worker with
    | .greeted peer session => r.accept worker peer session published
    | _ => r
  | .install worker =>
    match r.workers worker with
    | .accepted peer session => r.install worker peer session
    | _ => r
  | .receive worker sequence verdict =>
    match r.workers worker with
    | .established peer session expected =>
      r.receive worker peer session expected sequence verdict
    | _ => r
  | .enqueue worker verdict =>
    match r.workers worker with
    | .routing peer session sequence expected =>
      r.enqueue worker peer session sequence expected verdict
    | _ => r
  | .leave worker =>
    match r.workers worker with
    | .established peer session _ => r.setPhase worker (.stopping peer session)
    | _ => r
  | .drop worker =>
    match r.workers worker with
    | .stopping peer session =>
      { r with epochs := r.epochs.removeIfCurrent peer session }.setPhase worker .idle
    | _ => r

/-- Events in order. -/
def run (r : Receivers) (events : List Event) : Receivers := events.foldl step r

end Receivers

/-! ## Order of admission -/

/-- Each peer's sessions do not decrease, and within one session the sequence numbers increase. -/
def InOrder (admitted : List Admitted) : Prop :=
  admitted.Pairwise fun a b =>
    a.peer = b.peer → a.session ≤ b.session ∧ (a.session = b.session → a.sequence < b.sequence)

instance (admitted : List Admitted) : Decidable (InOrder admitted) :=
  inferInstanceAs (Decidable (List.Pairwise _ _))

namespace Phase

/-- The accepted session the worker acts for. -/
def holds : Phase → Option (PeerId × ℕ)
  | .accepted peer session => some (peer, session)
  | .established peer session _ => some (peer, session)
  | .routing peer session _ _ => some (peer, session)
  | .stopping peer session => some (peer, session)
  | .idle => none
  | .greeted _ _ => none

/-- The accepted session that waits for its epoch. -/
def awaiting : Phase → Option (PeerId × ℕ)
  | .accepted peer session => some (peer, session)
  | _ => none

/-- A frame with this sequence number was admitted before any the worker can still admit. -/
def Past (sequence : ℕ) : Phase → Prop
  | .accepted _ _ => False
  | .established _ _ expected => ∀ next ∈ expected, sequence < next
  | .routing _ _ routed _ => sequence < routed
  | _ => True

/-- What is expected next is above the frame being routed. -/
def Advances : Phase → Prop
  | .routing _ _ routed expected => ∀ next ∈ expected, routed < next
  | _ => True

end Phase

namespace Receivers

/-! ### One worker for each session

`taken` are the sessions accepted so far. Each belongs to one worker at a time, and a worker's next
frame is above every admitted frame of its session; so no frame is admitted twice, in whatever
order the epochs come and go. -/

/-- Each session belongs to one worker, and its frames are numbered upwards. -/
structure Exclusive (taken : PeerId × ℕ → Prop) (r : Receivers) : Prop where
  distinct : r.admitted.Nodup
  held : ∀ worker held, (r.workers worker).holds = some held → taken held
  unique : ∀ worker other held, (r.workers worker).holds = some held →
    (r.workers other).holds = some held → worker = other
  bounded : ∀ a ∈ r.admitted, taken (a.peer, a.session)
  past : ∀ a ∈ r.admitted, ∀ worker, (r.workers worker).holds = some (a.peer, a.session) →
    (r.workers worker).Past a.sequence
  advances : ∀ worker, (r.workers worker).Advances

theorem workers_setPhase (r : Receivers) (worker other : ℕ) (phase : Phase) :
    (r.setPhase worker phase).workers other = if other = worker then phase else r.workers
    other := by
  simp [setPhase, Function.update_apply]

variable {r : Receivers} {taken : PeerId × ℕ → Prop}

namespace Exclusive

variable {session worker : ℕ} {peer : PeerId} {expected : InboundSequence}

/-- Nothing of this rests on the sessions and epochs the receivers know. -/
theorem congr {r' : Receivers} (h : r.Exclusive taken) (hworkers : r'.workers = r.workers)
    (hadmitted : r'.admitted = r.admitted) : r'.Exclusive taken := by
  obtain ⟨distinct, held, unique, bounded, past, advances⟩ := h
  constructor <;> simp only [hworkers, hadmitted] <;> assumption

variable {taken' : PeerId × ℕ → Prop} {sequence : ℕ}

theorem mono (h : r.Exclusive taken) (htaken : ∀ held, taken held → taken' held) :
    r.Exclusive taken' :=
  ⟨h.distinct, fun worker held hworker => htaken held (h.held worker held hworker), h.unique,
    fun a ha => htaken _ (h.bounded a ha), h.past, h.advances⟩

/-- A worker moves on without taking a new session. -/
theorem setPhase (h : r.Exclusive taken) (worker : ℕ) {phase : Phase}
    (hholds : ∀ held, phase.holds = some held → (r.workers worker).holds = some held)
    (hpast : ∀ a ∈ r.admitted, phase.holds = some (a.peer, a.session) → phase.Past a.sequence)
    (hadvances : phase.Advances) : (r.setPhase worker phase).Exclusive taken := by
  have hkeep : ∀ other held, ((r.setPhase worker phase).workers other).holds = some held →
      (r.workers other).holds = some held := by
    intro other held hother
    rw [workers_setPhase] at hother
    split at hother
    · rename_i heq
      exact heq ▸ hholds held hother
    · exact hother
  refine ⟨h.distinct, ?_, ?_, h.bounded, ?_, ?_⟩
  · intro other held hother
    exact h.held other held (hkeep other held hother)
  · intro other other' held hother hother'
    exact h.unique other other' held (hkeep other _ hother) (hkeep other' _ hother')
  · intro a ha other hother
    rw [workers_setPhase] at hother ⊢
    split at hother
    · rename_i heq
      rw [if_pos heq]
      exact hpast a ha hother
    · rename_i hne
      rw [if_neg hne]
      exact h.past a ha other hother
  · intro other
    rw [workers_setPhase]
    split
    · exact hadvances
    · exact h.advances other

/-- A worker lets go of its session. -/
theorem setIdle (h : r.Exclusive taken) (worker : ℕ) : (r.setPhase worker .idle).Exclusive taken :=
  h.setPhase worker (fun _ hheld => by simp [Phase.holds] at hheld)
    (fun _ _ hheld => by simp [Phase.holds] at hheld) trivial

/-- A worker stops with its session still held. -/
theorem setStopping (h : r.Exclusive taken)
    (hworker : (r.workers worker).holds = some (peer, session)) :
    (r.setPhase worker (.stopping peer session)).Exclusive taken :=
  h.setPhase worker (fun held hheld => by rw [hworker, ← hheld, Phase.holds])
    (fun _ _ _ => trivial) trivial

/-- A worker takes a session that was not taken before. -/
theorem takeSession (h : r.Exclusive taken) (worker : ℕ) (hnew : ¬taken (peer, session))
    (htaken : taken' (peer, session)) (hkeep : ∀ held, taken held → taken' held) :
    (r.setPhase worker (.accepted peer session)).Exclusive taken' := by
  have hfree : ∀ other, (r.workers other).holds ≠ some (peer, session) :=
    fun other hother => hnew (h.held other _ hother)
  refine ⟨h.distinct, ?_, ?_, fun a ha => hkeep _ (h.bounded a ha), ?_, ?_⟩
  · intro other held hother
    rw [workers_setPhase] at hother
    split at hother
    · cases hother
      exact htaken
    · exact hkeep held (h.held other held hother)
  · intro other other' held hother hother'
    rw [workers_setPhase] at hother hother'
    split at hother
    · cases hother
      split at hother'
      · rename_i heq heq'
        rw [heq, heq']
      · exact absurd hother' (hfree other')
    · split at hother'
      · cases hother'
        exact absurd hother (hfree other)
      · exact h.unique other other' held hother hother'
  · intro a ha other hother
    rw [workers_setPhase] at hother ⊢
    split at hother
    · cases hother
      exact absurd (h.bounded a ha) hnew
    · rename_i hne
      rw [if_neg hne]
      exact h.past a ha other hother
  · intro other
    rw [workers_setPhase]
    split
    · trivial
    · exact h.advances other

theorem install (h : r.Exclusive taken) (hworker : r.workers worker = .accepted peer session) :
    (r.install worker peer session).Exclusive taken := by
  unfold Receivers.install
  cases r.epochs.install peer session with
  | none => exact h.setIdle worker
  | some epochs =>
    have hepochs : Exclusive taken
        { r with epochs := epochs, installed := (peer, session) :: r.installed } := h.congr rfl rfl
    refine hepochs.setPhase worker ?_ ?_ trivial
    · intro held hheld
      rw [show r.workers worker = .accepted peer session from hworker]
      exact hheld
    · intro a ha hheld
      have hpast := h.past a ha worker (by rw [hworker]; exact hheld)
      rw [hworker] at hpast
      exact hpast.elim

theorem receive (h : r.Exclusive taken)
    (hworker : r.workers worker = .established peer session expected) (sequence : ℕ)
    (verdict : FrameVerdict) :
    (r.receive worker peer session expected sequence verdict).Exclusive taken := by
  have hholds : (r.workers worker).holds = some (peer, session) := by rw [hworker, Phase.holds]
  unfold Receivers.receive
  cases haccept : expected.accept sequence with
  | error e => exact h.setStopping hholds
  | ok next =>
    cases expected with
    | none => cases haccept
    | some wanted =>
      rw [InboundSequence.accept] at haccept
      split at haccept
      · rename_i heq
        subst heq
        cases haccept
        have hnext : ∀ n ∈ checkedNext sequence, sequence < n := by
          intro n hn
          rw [checkedNext_eq_some hn]
          exact Nat.lt_succ_self sequence
        have hpast : ∀ a ∈ r.admitted, (peer, session) = (a.peer, a.session) →
            a.sequence < sequence := by
          intro a ha heq
          have hworkerPast := h.past a ha worker (by rw [hholds, heq])
          rw [hworker] at hworkerPast
          exact hworkerPast sequence rfl
        cases verdict with
        | routed =>
          refine h.setPhase worker (fun held hheld => by rw [hholds, ← hheld, Phase.holds])
            (fun a ha hheld => hpast a ha (Option.some.inj hheld)) hnext
        | skip =>
          refine h.setPhase worker (fun held hheld => by rw [hholds, ← hheld, Phase.holds])
            (fun a ha hheld n hn => ?_) trivial
          exact (hpast a ha (Option.some.inj hheld)).trans (hnext n hn)
        | stop => exact h.setStopping hholds
      · cases haccept

/-- The frame a worker is about to push is above every admitted frame of its session. -/
theorem past_routing (h : r.Exclusive taken)
    (hworker : r.workers worker = .routing peer session sequence expected) :
    ∀ a ∈ r.admitted, a.peer = peer → a.session = session → a.sequence < sequence := by
  rintro a ha rfl rfl
  have hworkerPast := h.past a ha worker (by rw [hworker, Phase.holds])
  rwa [hworker] at hworkerPast

theorem enqueue (h : r.Exclusive taken)
    (hworker : r.workers worker = .routing peer session sequence expected) (verdict : PushVerdict) :
    (r.enqueue worker peer session sequence expected verdict).Exclusive taken := by
  have hholds : (r.workers worker).holds = some (peer, session) := by rw [hworker, Phase.holds]
  have hnext : ∀ next ∈ expected, sequence < next := by
    have hadvances := h.advances worker
    rwa [hworker] at hadvances
  have hback : (r.setPhase worker (.established peer session expected)).Exclusive taken := by
    refine h.setPhase worker (fun held hheld => by rw [hholds, ← hheld, Phase.holds])
      (fun a ha hheld n hn => ?_) trivial
    obtain ⟨hpeer, hsession⟩ := Prod.mk.inj (Option.some.inj hheld)
    exact (h.past_routing hworker a ha hpeer.symm hsession.symm).trans (hnext n hn)
  unfold Receivers.enqueue
  split
  · cases verdict with
    | full => exact hback
    | closed => exact h.setStopping hholds
    | pushed =>
      refine ⟨?_, hback.held, hback.unique, ?_, ?_, hback.advances⟩
      · refine List.nodup_append.2 ⟨h.distinct, List.nodup_singleton _, ?_⟩
        rintro a ha b hb rfl
        obtain rfl := List.mem_singleton.1 hb
        exact lt_irrefl _ (h.past_routing hworker _ ha rfl rfl)
      · intro a ha
        rcases List.mem_append.1 ha with ha | ha
        · exact h.bounded a ha
        · obtain rfl := List.mem_singleton.1 ha
          exact h.held worker (peer, session) hholds
      · intro a ha other hother
        rcases List.mem_append.1 ha with ha | ha
        · exact hback.past a ha other hother
        · obtain rfl := List.mem_singleton.1 ha
          have hself : (r.setPhase worker (.established peer session expected)).workers worker =
              .established peer session expected := by simp [workers_setPhase]
          have hsame : other = worker :=
            hback.unique other worker (peer, session) hother (by rw [hself, Phase.holds])
          subst hsame
          show Phase.Past sequence
            ((r.setPhase other (.established peer session expected)).workers other)
          rw [hself]
          exact hnext
  · exact h.setStopping hholds

/-- Every event but the acceptance of a session, which takes a new one. -/
theorem step (h : r.Exclusive taken) {e : Event} (he : ∀ worker published,
    e ≠ .accept worker published) : (r.step e).Exclusive taken := by
  cases e with
  | hello worker peer session =>
    rw [Receivers.step]
    split
    · exact h.setPhase worker (fun held hheld => by simp [Phase.holds] at hheld)
        (fun a _ hheld => by simp [Phase.holds] at hheld) trivial
    · exact h
  | accept worker published => exact absurd rfl (he worker published)
  | install worker =>
    rw [Receivers.step]
    split
    · rename_i peer session hworker
      exact h.install hworker
    · exact h
  | receive worker sequence verdict =>
    rw [Receivers.step]
    split
    · rename_i peer session expected hworker
      exact h.receive hworker sequence verdict
    · exact h
  | enqueue worker verdict =>
    rw [Receivers.step]
    split
    · rename_i peer session sequence expected hworker
      exact h.enqueue hworker verdict
    · exact h
  | leave worker =>
    rw [Receivers.step]
    split
    · rename_i peer session expected hworker
      exact h.setStopping (by rw [hworker, Phase.holds])
    · exact h
  | drop worker =>
    rw [Receivers.step]
    split
    · have hepochs : ∀ epochs, Exclusive taken { r with epochs := epochs } :=
        fun _ => h.congr rfl rfl
      exact (hepochs _).setIdle worker
    · exact h

end Exclusive

variable {session worker : ℕ} {peer : PeerId}

/-! ### Order -/

/-- The session is at or below its peer's durable mark. -/
def Marked (r : Receivers) (held : PeerId × ℕ) : Prop :=
  ∃ mark, r.sessions.highestInbound held.1 = some mark ∧ held.2 ≤ mark

/-- Frames are admitted in order, a live epoch is at least as new as every admitted frame of its
peer, and both are of installed sessions. -/
structure Sequenced (r : Receivers) : Prop where
  inOrder : InOrder r.admitted
  current : ∀ a ∈ r.admitted, ∀ session, r.epochs.get? a.peer = some session → a.session ≤ session
  live : ∀ peer session, r.epochs.get? peer = some session → (peer, session) ∈ r.installed
  seated : ∀ a ∈ r.admitted, (a.peer, a.session) ∈ r.installed

/-- The invariant of the receivers: sessions belong to one worker each and stay at or below the
durable mark, and frames are admitted in sequence. -/
structure Ordered (r : Receivers) : Prop where
  exclusive : r.Exclusive r.Marked
  sequenced : r.Sequenced

theorem Sequenced.congr {r' : Receivers} (h : r.Sequenced) (hadmitted : r'.admitted = r.admitted)
    (hepochs : r'.epochs = r.epochs) (hinstalled : r'.installed = r.installed) :
    r'.Sequenced := by
  obtain ⟨inOrder, current, live, seated⟩ := h
  constructor <;> simp only [hadmitted, hepochs, hinstalled] <;> assumption

theorem start_exclusive (sessions : TransportSessionState) :
    (start sessions).Exclusive taken where
  distinct := List.nodup_nil
  held _ _ h := by cases h
  unique _ _ _ h := by cases h
  bounded _ h := absurd h List.not_mem_nil
  past _ h := absurd h List.not_mem_nil
  advances _ := trivial

theorem start_ordered (sessions : TransportSessionState) : (start sessions).Ordered where
  exclusive := start_exclusive sessions
  sequenced := ⟨List.Pairwise.nil, fun _ h => absurd h List.not_mem_nil, fun _ _ h => (by cases h),
    fun _ h => absurd h List.not_mem_nil⟩

/-! ### The critical sections -/

theorem accept_ordered (h : r.Ordered) (published : Bool) :
    (r.accept worker peer session published).Ordered := by
  have hidle : (r.setPhase worker .idle).Ordered :=
    ⟨h.exclusive.setIdle worker, h.sequenced.congr rfl rfl rfl⟩
  unfold accept
  split
  · rename_i previous sessions hmap
    obtain ⟨number, hnumber, haccept⟩ := Option.map_eq_some_iff.1 hmap
    obtain rfl := ConnectionSession.get_of_new hnumber
    split
    · obtain ⟨habove, hmarks⟩ := TransportSessionState.highestInbound_accepted haccept
      have hexclusive : Exclusive r.Marked { r with sessions := sessions } :=
        h.exclusive.congr rfl rfl
      refine ⟨hexclusive.takeSession worker ?_ ?_ ?_, h.sequenced.congr rfl rfl rfl⟩
      · rintro ⟨mark, hmark, hle⟩
        exact absurd (habove mark hmark) (not_lt.2 hle)
      · exact ⟨number.get, (hmarks peer).trans (if_pos rfl), le_rfl⟩
      · rintro ⟨other, held⟩ ⟨mark, hmark, hle⟩
        by_cases hother : other = peer
        · subst hother
          exact ⟨number.get, (hmarks other).trans (if_pos rfl), hle.trans (habove mark hmark).le⟩
        · exact ⟨mark, ((hmarks other).trans (if_neg hother)).trans hmark, hle⟩
    · exact hidle
  · exact hidle

/-- The condition on an installation: where the peer has no live epoch, no newer one of it was
installed before. -/
def Fresh (r : Receivers) : Event → Prop
  | .install worker => ∀ held ∈ (r.workers worker).awaiting, r.epochs.get? held.1 = none →
      ∀ old ∈ r.installed, old.1 = held.1 → old.2 ≤ held.2
  | _ => True

instance (r : Receivers) : (e : Event) → Decidable (r.Fresh e)
  | .install worker => inferInstanceAs (Decidable (∀ held ∈ (r.workers worker).awaiting, _))
  | .hello .. | .accept .. | .receive .. | .enqueue .. | .leave .. | .drop .. => .isTrue trivial

theorem install_sequenced (h : r.Sequenced) (hfresh : r.epochs.get? peer = none →
      ∀ old ∈ r.installed, old.1 = peer → old.2 ≤ session) :
    (r.install worker peer session).Sequenced := by
  unfold install InboundEpochs.install
  by_cases hlive : (r.epochs.get? peer).any (session ≤ ·) = true
  · rw [if_pos hlive]
    exact h.congr rfl rfl rfl
  rw [if_neg hlive]
  refine ⟨h.inOrder, ?_, ?_, fun a ha => List.mem_cons_of_mem _ (h.seated a ha)⟩
  · intro a ha live (hget : (r.epochs.insert peer session).get? a.peer = some live)
    rw [Table.get?_insert] at hget
    split at hget
    · rename_i hpeer
      cases hget
      -- an installed epoch is at least as new as every admitted frame of its peer
      cases hepoch : r.epochs.get? peer with
      | none => exact hfresh hepoch _ (h.seated a ha) hpeer
      | some old =>
        have hle := h.current a ha old (hpeer ▸ hepoch)
        simp only [hepoch, Option.any_some, decide_eq_true_eq, not_le] at hlive
        exact hle.trans hlive.le
    · exact h.current a ha live hget
  · intro other live (hget : (r.epochs.insert peer session).get? other = some live)
    rw [Table.get?_insert] at hget
    split at hget
    · rename_i hother
      cases hget
      rw [hother]
      exact List.mem_cons_self
    · exact List.mem_cons_of_mem _ (h.live other live hget)

variable {expected : InboundSequence}

theorem receive_sequenced (h : r.Sequenced) (sequence : ℕ) (verdict : FrameVerdict) :
    (r.receive worker peer session expected sequence verdict).Sequenced := by
  unfold receive
  cases expected.accept sequence with
  | error e => exact h.congr rfl rfl rfl
  | ok next => cases verdict <;> exact h.congr rfl rfl rfl

theorem enqueue_sequenced (h : r.Ordered) {sequence : ℕ}
    (hworker : r.workers worker = .routing peer session sequence expected) (verdict : PushVerdict) :
    (r.enqueue worker peer session sequence expected verdict).Sequenced := by
  have hsequenced := h.sequenced
  unfold enqueue
  by_cases hcurrent : r.epochs.isCurrent peer session = true
  · rw [if_pos hcurrent]
    cases verdict with
    | full | closed => exact hsequenced.congr rfl rfl rfl
    | pushed =>
      have hepoch : r.epochs.get? peer = some session := by
        simpa [InboundEpochs.isCurrent] using hcurrent
      -- the epoch is live, so every admitted frame of the peer is of this session or an older one
      refine ⟨List.pairwise_append.2 ⟨hsequenced.inOrder, List.pairwise_singleton .., ?_⟩, ?_,
        hsequenced.live, ?_⟩
      · intro a ha b hb hpeer
        obtain rfl := List.mem_singleton.1 hb
        refine ⟨hsequenced.current a ha session (hpeer ▸ hepoch), fun hsession => ?_⟩
        exact h.exclusive.past_routing hworker a ha hpeer hsession
      · intro a ha live hlive
        rcases List.mem_append.1 ha with ha | ha
        · exact hsequenced.current a ha live hlive
        · obtain rfl := List.mem_singleton.1 ha
          exact (Option.some.inj (hepoch.symm.trans hlive)).le
      · intro a ha
        rcases List.mem_append.1 ha with ha | ha
        · exact hsequenced.seated a ha
        · obtain rfl := List.mem_singleton.1 ha
          exact hsequenced.live peer session hepoch
  · rw [if_neg hcurrent]
    exact hsequenced.congr rfl rfl rfl

theorem get?_removeIfCurrent {epochs : InboundEpochs} {other : PeerId} {live : ℕ}
    (h : (epochs.removeIfCurrent peer session).get? other = some live) :
    epochs.get? other = some live := by
  rw [InboundEpochs.removeIfCurrent] at h
  split at h
  · rw [Table.get?_erase] at h
    split at h
    · cases h
    · exact h
  · exact h

/-! ### Runs -/

/-- Only the acceptance of a session touches the durable marks. -/
theorem sessions_step {e : Event} (he : ∀ worker published, e ≠ .accept worker published) :
    (r.step e).sessions = r.sessions := by
  cases e with
  | accept worker published => exact absurd rfl (he worker published)
  | hello | leave | drop =>
    rw [step]
    split <;> rfl
  | install worker =>
    rw [step]
    split
    · unfold install
      split <;> rfl
    · rfl
  | receive worker sequence verdict =>
    rw [step]
    split
    · unfold receive
      split
      · rfl
      · cases verdict <;> rfl
    · rfl
  | enqueue worker verdict =>
    rw [step]
    split
    · unfold enqueue
      split
      · cases verdict <;> rfl
      · rfl
    · rfl

theorem step_sequenced (h : r.Ordered) {e : Event} (hfresh : r.Fresh e) :
    (r.step e).Sequenced := by
  cases e with
  | hello | leave =>
    rw [step]
    split
    · exact h.sequenced.congr rfl rfl rfl
    · exact h.sequenced
  | accept worker published =>
    rw [step]
    split
    · exact (accept_ordered h published).sequenced
    · exact h.sequenced
  | install worker =>
    rw [step]
    split
    · rename_i peer session hworker
      rw [Fresh, hworker] at hfresh
      exact install_sequenced h.sequenced (hfresh (peer, session) rfl)
    · exact h.sequenced
  | receive worker sequence verdict =>
    rw [step]
    split
    · exact receive_sequenced h.sequenced sequence verdict
    · exact h.sequenced
  | enqueue worker verdict =>
    rw [step]
    split
    · rename_i hworker
      exact enqueue_sequenced h hworker verdict
    · exact h.sequenced
  | drop worker =>
    rw [step]
    split
    · exact ⟨h.sequenced.inOrder,
        fun a ha live hlive => h.sequenced.current a ha live (get?_removeIfCurrent hlive),
        fun other live hlive => h.sequenced.live other live (get?_removeIfCurrent hlive),
        h.sequenced.seated⟩
    · exact h.sequenced

theorem step_ordered (h : r.Ordered) {e : Event} (hfresh : r.Fresh e) : (r.step e).Ordered := by
  refine ⟨?_, step_sequenced h hfresh⟩
  by_cases he : ∀ worker published, e ≠ .accept worker published
  · refine (h.exclusive.step he).mono fun held hmarked => ?_
    rw [Marked, sessions_step he]
    exact hmarked
  · simp only [not_forall, ne_eq, not_not] at he
    obtain ⟨worker, published, rfl⟩ := he
    rw [step]
    split
    · exact (accept_ordered h published).exclusive
    · exact h.exclusive

/-- Every event of the run meets the condition in the state it finds. -/
def FreshRun (r : Receivers) : List Event → Prop
  | [] => True
  | e :: events => r.Fresh e ∧ FreshRun (r.step e) events

instance decidableFreshRun (r : Receivers) : (events : List Event) →
    Decidable (r.FreshRun events)
  | [] => .isTrue trivial
  | e :: events =>
    have := decidableFreshRun (r.step e) events
    inferInstanceAs (Decidable (r.Fresh e ∧ FreshRun (r.step e) events))

theorem run_ordered (h : r.Ordered) {events : List Event} (hfresh : r.FreshRun events) :
    (r.run events).Ordered := by
  induction events generalizing r with
  | nil => exact h
  | cons e events ih => exact ih (step_ordered h hfresh.1) hfresh.2

/-- For every interleaving of the workers in which no epoch goes into an empty slot after a newer
one of its peer, each peer's frames are admitted in session order and within a session in sequence
order. -/
theorem admitted_in_order (sessions : TransportSessionState) (events : List Event)
    (hfresh : (start sessions).FreshRun events) : InOrder ((start sessions).run events).admitted :=
  (run_ordered (start_ordered sessions) hfresh).sequenced.inOrder

/-- A store that knows no peer. -/
def emptySessions : TransportSessionState := .new ⟨8, by decide, by decide⟩

/-- The peer of the runs below. -/
def onePeer : PeerId := ⟨['p'], by decide, by decide, by decide⟩

/-- The session of worker 0 is still not installed when the newer one of worker 1 is accepted;
worker 1 then supersedes it. -/
def reconnection : List Event :=
  [.hello 0 onePeer 1, .accept 0 true, .hello 1 onePeer 2, .accept 1 true, .install 0,
    .receive 0 1 .routed, .enqueue 0 .pushed, .install 1, .receive 1 1 .routed,
    .receive 0 2 .routed, .enqueue 1 .pushed, .enqueue 0 .pushed, .drop 0]

theorem admitted_in_order_reconnection :
    ((start emptySessions).run reconnection).admitted = [⟨onePeer, 1, 1⟩, ⟨onePeer, 2, 1⟩] ∧
      InOrder ((start emptySessions).run reconnection).admitted :=
  ⟨by decide +kernel, admitted_in_order emptySessions reconnection (by decide +kernel)⟩

/-- Session 1 is accepted; session 2 is accepted, installed, admits a frame and ends; only then is
the epoch of session 1 installed. -/
def lateInstall : List Event :=
  [.hello 0 onePeer 1, .accept 0 true, .hello 1 onePeer 2, .accept 1 true, .install 1,
    .receive 1 1 .routed, .enqueue 1 .pushed, .leave 1, .drop 1, .install 0, .receive 0 1 .routed,
    .enqueue 0 .pushed]

/-- The frame of the older session is admitted after the frame of the newer one. -/
theorem superseded_session_admitted :
    ((start emptySessions).run lateInstall).admitted = [⟨onePeer, 2, 1⟩, ⟨onePeer, 1, 1⟩] ∧
      ¬ InOrder ((start emptySessions).run lateInstall).admitted := by
  decide +kernel

end Receivers

end Rafter.Transport
