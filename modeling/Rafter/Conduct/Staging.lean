import Rafter.Conduct.Step

/-!
# Snapshot reception

A snapshot reaches a node in chunks. The node tracks the transfer under way and tells its runtime
to stage each accepted chunk, and to apply the snapshot after the last one. `Stage` lists what a
transition does to the tracked transfer and the installed snapshot, with the outputs that concern
the snapshot store.

Results:

* `Node.step_stages`, `Node.stepBatch_stages`: every step and every batch of inputs is a
  path of such stages;
* `Node.Stages.unfinished`: the tracked transfer always lacks bytes.
-/

namespace Rafter

open Protocol

namespace StagedSnapshotChunk

/-- The transfer that the chunk belongs to, with `receivedLen` bytes received. -/
def transfer (staged : StagedSnapshotChunk) (receivedLen : ℕ) : PendingSnapshotTransfer where
  leaderId := staged.leaderId
  transferId := staged.transferId
  metadata := staged.metadata
  totalPayloadLen := staged.totalPayloadLen
  applicationPayloadCrc32 := staged.applicationPayloadCrc32
  receivedLen := receivedLen

/-- The descriptor of the snapshot that the chunk belongs to. -/
def snapshot (staged : StagedSnapshotChunk) : RaftSnapshot where
  metadata := staged.metadata
  applicationPayloadLen := staged.totalPayloadLen
  applicationPayloadCrc32 := staged.applicationPayloadCrc32

/-- The offset after the chunk. -/
def next (staged : StagedSnapshotChunk) : ℕ := staged.offset + staged.bytes.length

end StagedSnapshotChunk

namespace Node

variable {n m : Node} {o : Outcome}
variable {request : InstallSnapshotChunk} {v : NodeId}

/-- What a node verified of a chunk before it takes it: the leader and the author are authorised,
the boundary is new, and the bytes go on where the transfer stopped. -/
structure Accepts (n : Node) (staged : StagedSnapshotChunk) : Prop where
  role : n.role = .follower
  header : n.validateSnapshotTransferHeader staged.leaderId staged.metadata n.currentTerm = .ok ()
  transferId : staged.transferId = staged.snapshot.transferId
  covered : n.snapshotCoveredThrough < staged.metadata.lastIncludedIndex
  offset : staged.offset = 0 ∨
    n.volatile.incomingSnapshot = some (staged.transfer staged.offset)

/-- One stage of a reception, with the outputs for the snapshot store. -/
inductive Stage : Node → List Output → Node → Prop
  | idle {n m : Node} (htransfer : m.volatile.incomingSnapshot = n.volatile.incomingSnapshot ∨
      m.volatile.incomingSnapshot = none)
    (hsnapshot : m.persistent.snapshot = n.persistent.snapshot) : Stage n [] m
  | chunk {n m : Node} {staged : StagedSnapshotChunk} (haccepts : n.Accepts staged)
    (hdone : staged.done = false) (hbytes : 0 < staged.bytes.length)
    (hnext : staged.next < staged.totalPayloadLen)
    (htransfer : m.volatile.incomingSnapshot = some (staged.transfer staged.next))
    (hsnapshot : m.persistent.snapshot = n.persistent.snapshot) :
    Stage n [.stageSnapshotChunk staged] m
  | install {n m : Node} {staged : StagedSnapshotChunk} (haccepts : n.Accepts staged)
    (hdone : staged.done = true) (hnext : staged.next = staged.totalPayloadLen)
    (htransfer : m.volatile.incomingSnapshot = none)
    (hsnapshot : m.persistent.snapshot = some staged.snapshot) :
    Stage n [.stageSnapshotChunk staged, .applySnapshot staged.snapshot] m

/-- The transition is a path of stages. -/
def Stages (n : Node) (o : Outcome) : Prop :=
  Path Stage n (o.outputs.filter Output.isStaging) o.node

theorem Unstaged.stages (h : n.Unstaged o) : n.Stages o := by
  have hnone : o.outputs.filter Output.isStaging = [] := by
    rw [List.filter_eq_nil_iff]
    intro x hx
    simp [h.outputs x hx]
  unfold Stages
  rw [hnone]
  exact .single (.idle h.transfer h.snapshot)

theorem Stages.refl (n : Node) : n.Stages ⟨n, []⟩ := Protocol.Path.refl n

theorem Stages.then {f : Node → Outcome} (h : n.Stages o) (h' : o.node.Stages (f o.node)) :
    n.Stages (o.andThen f) := by
  unfold Stages at h h' ⊢
  rw [Outcome.andThen_outputs, List.filter_append]
  exact h.trans h'

theorem Unstaged.congr (h : m.Unstaged o)
    (htransfer : m.volatile.incomingSnapshot = n.volatile.incomingSnapshot)
    (hsnapshot : m.persistent.snapshot = n.persistent.snapshot) : n.Unstaged o :=
  ⟨htransfer ▸ h.transfer, hsnapshot ▸ h.snapshot, h.outputs⟩

/-! ## Chunks -/

/-- An answer to the leader. -/
theorem answer_unstaged (n : Node) (v : NodeId) (reply : SnapshotReply) :
    n.Unstaged ⟨n, [n.snapshotReply v reply]⟩ :=
  (n.answer_acts (c := ⟨n, none⟩) (b := false) v reply).unstaged rfl

theorem refuseChunk_unstaged (n : Node) (v : NodeId) (rejection : SnapshotChunkRejection)
    (reply : SnapshotReply) : n.Unstaged (n.refuseChunk v rejection reply) :=
  (n.refuseChunk_acts (c := ⟨n, none⟩) (b := false) v rejection reply).unstaged rfl

/-- The header check of a chunk. -/
theorem validateInstallSnapshotChunkHeader_ok
    (h : n.validateInstallSnapshotChunkHeader v request = .ok ()) :
    n.validateSnapshotTransferHeader v request.metadata request.term = .ok () ∧
      request.transferId = snapshotTransferIdFromParts request.metadata request.totalPayloadLen
        request.applicationPayloadCrc32 ∧ validateSnapshotChunkShape request = .ok () := by
  unfold validateInstallSnapshotChunkHeader at h
  cases hheader : n.validateSnapshotTransferHeader v request.metadata request.term with
  | error e => cases e <;> simp [hheader] at h
  | ok u =>
    rw [hheader] at h
    dsimp only at h
    split_ifs at h with hid
    exact ⟨rfl, not_not.1 hid, h⟩

/-- The shape of a chunk: the last one ends the payload, every other one has bytes and ends before
it. -/
theorem validateSnapshotChunkShape_ok (h : validateSnapshotChunkShape request = .ok ()) :
    (request.done = true ∧ request.offset + request.chunk.length = request.totalPayloadLen) ∨
      (request.done = false ∧ 0 < request.chunk.length ∧
        request.offset + request.chunk.length < request.totalPayloadLen) := by
  unfold validateSnapshotChunkShape at h
  dsimp only at h
  split_ifs at h with hmax hbounds hdone hend hmore
  · exact .inl ⟨hdone, hend⟩
  · exact .inr ⟨by simpa using hdone, hmore⟩

/-- The staged form of a chunk. -/
def stagedOf (v : NodeId) (request : InstallSnapshotChunk) : StagedSnapshotChunk where
  leaderId := v
  transferId := request.transferId
  metadata := request.metadata
  totalPayloadLen := request.totalPayloadLen
  applicationPayloadCrc32 := request.applicationPayloadCrc32
  offset := request.offset
  bytes := request.chunk
  done := request.done

/-- The transfer a chunk is taken into: the one under way, or a new one that starts at 0. -/
theorem prepared_transfer {k : ℕ} (h : n.prepareIncomingSnapshotTransfer v request = .ok (m, k)) :
    m = { n with volatile.incomingSnapshot := some ((stagedOf v request).transfer k) } ∧
      (n.volatile.incomingSnapshot = some ((stagedOf v request).transfer k) ∨
        request.offset = 0 ∧ k = 0) := by
  unfold prepareIncomingSnapshotTransfer at h
  by_cases hany : n.volatile.incomingSnapshot.any (transferMatches v request)
  · rw [if_pos hany] at h
    cases htr : n.volatile.incomingSnapshot with
    | none => simp [htr] at hany
    | some transfer =>
      simp only [htr] at h
      obtain ⟨rfl, rfl⟩ := Prod.mk.inj (Except.ok.inj h)
      rw [htr, Option.any_some] at hany
      unfold transferMatches at hany
      obtain ⟨hleader, hid, hmetadata, htotal, hcrc⟩ := of_decide_eq_true hany
      have heq : transfer = (stagedOf v request).transfer transfer.receivedLen := by
        obtain ⟨leader, tid, metadata, total, crc, len⟩ := transfer
        subst hleader hid hmetadata htotal hcrc
        rfl
      refine ⟨?_, .inl (by rw [← heq])⟩
      rw [← heq, ← htr]
  · rw [if_neg hany] at h
    unfold replaceOrRejectSnapshotTransfer at h
    by_cases h0 : request.offset = 0
    · rw [if_pos h0] at h
      obtain ⟨rfl, rfl⟩ := Prod.mk.inj (Except.ok.inj h)
      exact ⟨rfl, .inr ⟨h0, rfl⟩⟩
    · rw [if_neg h0] at h
      cases htr : n.volatile.incomingSnapshot with
      | none => simp [htr] at h
      | some transfer =>
        simp only [htr] at h
        split_ifs at h

theorem accepts_of_prepared (hrole : n.role = .follower) (hterm : n.currentTerm = request.term)
    (hheader : n.validateInstallSnapshotChunkHeader v request = .ok ())
    (hcovered : n.snapshotCoveredThrough < request.metadata.lastIncludedIndex)
    (htransfer : n.volatile.incomingSnapshot = some ((stagedOf v request).transfer request.offset) ∨
      request.offset = 0) :
    n.Accepts (stagedOf v request) := by
  obtain ⟨hvalid, hid, -⟩ := validateInstallSnapshotChunkHeader_ok hheader
  exact ⟨hrole, hterm ▸ hvalid, hid, hcovered, htransfer.symm⟩

/-- What an installation gives the snapshot store. -/
theorem filter_installed (m m' : Node) (v : NodeId) (staged : StagedSnapshotChunk)
    (snapshot : RaftSnapshot) (reply : SnapshotReply) :
    ((m.installSnapshotState snapshot).outputs ++ [.stageSnapshotChunk staged,
      .applySnapshot snapshot, m'.snapshotReply v reply]).filter Output.isStaging =
    [.stageSnapshotChunk staged, .applySnapshot snapshot] := by
  obtain ⟨tracker, dropped, hinstall, -⟩ := m.installSnapshotState_eq snapshot
  have hnone : (dropOutputs .logOverwritten dropped).filter Output.isStaging = [] := by
    rw [List.filter_eq_nil_iff]
    intro x hx
    obtain ⟨p, -, rfl⟩ := List.mem_map.1 hx
    simp [Output.isStaging]
  rw [hinstall, List.filter_append, hnone, List.nil_append]
  rfl

/-- A chunk that goes on where the transfer stopped is staged, and the last one installs. -/
theorem acceptCurrentSnapshotChunk_stages (haccepts : n.Accepts (stagedOf v request))
    (hshape : validateSnapshotChunkShape request = .ok ())
    (htransfer : m.volatile.incomingSnapshot = some ((stagedOf v request).transfer request.offset))
    (hsnapshot : m.persistent.snapshot = n.persistent.snapshot) :
    n.Stages (m.acceptCurrentSnapshotChunk v request request.offset) := by
  unfold acceptCurrentSnapshotChunk installFinalSnapshotChunk
  rw [htransfer]
  dsimp only
  rcases validateSnapshotChunkShape_ok hshape with ⟨hdone, hend⟩ | ⟨hdone, hbytes, hend⟩
  · rw [if_pos hdone, if_neg (not_not.2 hend)]
    have hsnap : (stagedOf v request).snapshot = RaftSnapshot.mk
      ((stagedOf v request).transfer request.offset).metadata request.totalPayloadLen
      request.applicationPayloadCrc32 := rfl
    have hstaged : stageSnapshotChunk v request = .stageSnapshotChunk (stagedOf v request) := rfl
    rw [← hsnap, hstaged]
    unfold Stages
    rw [Outcome.andThen_outputs, filter_installed]
    exact .single (.install haccepts hdone hend rfl rfl)
  · rw [if_neg (by simp [hdone])]
    exact Protocol.Path.single (Stage.chunk haccepts hdone hbytes hend rfl hsnapshot)

theorem snapshotChunkAsFollower_stages (hrole : n.role = .follower)
    (hterm : n.currentTerm = request.term) : n.Stages (n.snapshotChunkAsFollower v request) := by
  unfold snapshotChunkAsFollower
  cases hheader : n.validateInstallSnapshotChunkHeader v request with
  | error rejection => exact (n.refuseChunk_unstaged _ _ _).stages
  | ok u =>
    obtain ⟨-, -, hshape⟩ := validateInstallSnapshotChunkHeader_ok hheader
    dsimp only
    unfold classifySnapshotChunk
    by_cases hcovered : request.metadata.lastIncludedIndex ≤
        (n.recordAcceptedSnapshotLeader v).snapshotCoveredThrough
    · rw [if_pos hcovered]
      refine Unstaged.stages ⟨?_, rfl, by
        simp [acknowledgeCoveredSnapshotChunk, snapshotReply, Output.isStaging]⟩
      show n.volatile.incomingSnapshot.filter _ = _ ∨ n.volatile.incomingSnapshot.filter _ = none
      cases n.volatile.incomingSnapshot with
      | none => exact .inl rfl
      | some transfer =>
        rw [Option.filter_some]
        split
        · exact .inl rfl
        · exact .inr rfl
    · rw [if_neg hcovered]
      cases hprepare : (n.recordAcceptedSnapshotLeader v).prepareIncomingSnapshotTransfer v
          request with
      | error rejection =>
        refine Unstaged.stages (.congr (m := n.recordAcceptedSnapshotLeader v) ?_ rfl rfl)
        exact refuseChunk_unstaged _ v rejection _
      | ok p =>
        obtain ⟨n₁, k⟩ := p
        obtain ⟨hn₁, htransfer⟩ := prepared_transfer hprepare
        -- A transfer that was replaced starts at the offset of the chunk, which is taken at once.
        have hkept : k ≠ request.offset → n₁.volatile.incomingSnapshot =
            n.volatile.incomingSnapshot := by
          intro hk
          rcases htransfer with h | ⟨h0, hk0⟩
          · rw [hn₁]
            exact h.symm
          · exact absurd (hk0.trans h0.symm) hk
        have hsnapshot : n₁.persistent.snapshot = n.persistent.snapshot := by rw [hn₁]; rfl
        dsimp only
        split_ifs with hless hgreater
        · exact ((answer_unstaged n₁ v _).congr (hkept (by omega)) hsnapshot).stages
        · exact ((refuseChunk_unstaged n₁ v _ _).congr (hkept (by omega)) hsnapshot).stages
        · have hk : k = request.offset := by omega
          subst hk
          have haccepts := accepts_of_prepared hrole hterm hheader (not_le.1 hcovered)
            (htransfer.imp_right And.left)
          exact acceptCurrentSnapshotChunk_stages haccepts hshape (by rw [hn₁]) hsnapshot

theorem adopt_stages {term : ℕ} (hle : n.currentTerm ≤ term) {f : Node → Outcome}
    (hf : ∀ m : Node, m.role = .follower → m.currentTerm = term → m.Stages (f m)) :
    n.Stages ((n.adoptSnapshotTerm term).andThen f) := by
  unfold adoptSnapshotTerm
  by_cases h : n.currentTerm < term ∨ n.role ≠ .follower
  · rw [if_pos h]
    have hfollow : n.Unstaged (n.becomeFollower term) := by
      refine ⟨.inl rfl, rfl, fun x hx => ?_⟩
      exact Output.isStaging_of_licit (c := ⟨n, none⟩) rfl
        (Output.licit_of_isPlain (n := n)
          (Output.isPlain_of_isIdle (n.isIdle_becomeFollower term x hx)))
    exact hfollow.stages.then (hf _ rfl (max_eq_right hle))
  · rw [if_neg h]
    push Not at h
    exact (Stages.refl n).then (hf n h.2 (hle.antisymm h.1))

theorem handleInstallSnapshotChunk_stages (n : Node) (v : NodeId)
    (request : InstallSnapshotChunk) : n.Stages (n.handleInstallSnapshotChunk v request) := by
  unfold handleInstallSnapshotChunk
  by_cases hstale : request.term < n.currentTerm
  · rw [if_pos hstale]
    exact (n.refuseChunk_unstaged v _ _).stages
  · rw [if_neg hstale]
    exact adopt_stages (not_lt.1 hstale) fun _ hrole hterm =>
      snapshotChunkAsFollower_stages hrole hterm

/-! ## Whole snapshots -/

/-- The staged form of a whole snapshot. -/
def stagedWhole (v : NodeId) (request : InstallSnapshot) : StagedSnapshotChunk where
  leaderId := v
  transferId := (RaftSnapshot.fromPayload request.metadata request.applicationPayload).transferId
  metadata := request.metadata
  totalPayloadLen := request.applicationPayload.length
  applicationPayloadCrc32 := crc32 request.applicationPayload
  offset := 0
  bytes := request.applicationPayload
  done := true

theorem wholeSnapshotAsFollower_stages {request : InstallSnapshot} (hrole : n.role = .follower)
    (hterm : n.currentTerm = request.term) : n.Stages (n.wholeSnapshotAsFollower v request) := by
  unfold wholeSnapshotAsFollower
  dsimp only
  cases hheader : n.validateSnapshotTransferHeader v
      (RaftSnapshot.fromPayload request.metadata request.applicationPayload).metadata
      request.term with
  | error rejection => exact (n.answer_unstaged v _).stages
  | ok u =>
    dsimp only
    split_ifs with hcovered
    · exact Unstaged.stages ⟨.inr rfl, rfl, by simp [snapshotReply, Output.isStaging]⟩
    · have haccepts : n.Accepts (stagedWhole v request) :=
        ⟨hrole, hterm ▸ hheader, rfl, not_le.1 hcovered, .inl rfl⟩
      have hnext : (stagedWhole v request).next = request.applicationPayload.length :=
        Nat.zero_add _
      unfold Stages
      rw [Outcome.andThen_outputs, filter_installed]
      exact .single (.install haccepts rfl hnext rfl rfl)

theorem handleInstallSnapshot_stages (n : Node) (v : NodeId) (request : InstallSnapshot) :
    n.Stages (n.handleInstallSnapshot v request) := by
  unfold handleInstallSnapshot
  by_cases hstale : request.term < n.currentTerm
  · rw [if_pos hstale]
    exact (n.answer_unstaged v _).stages
  · rw [if_neg hstale]
    exact adopt_stages (not_lt.1 hstale) fun _ hrole hterm =>
      wholeSnapshotAsFollower_stages hrole hterm

theorem emitCommittedOutputs_unstaged (n : Node) : n.Unstaged n.emitCommittedOutputs :=
  (n.emitCommittedOutputs_acts (c := ⟨n, none⟩) (b := false)).unstaged rfl

/-! ## Steps and batches -/

theorem receive_stages {message : Message} (h : Occasion.stages ⟨n, some (.message v message)⟩) :
    n.Stages (n.receive v message) := by
  unfold receive
  split_ifs
  · cases message with
    | installSnapshot request => exact n.handleInstallSnapshot_stages v request
    | installSnapshotChunk request => exact n.handleInstallSnapshotChunk_stages v request
    | appendEntries | appendEntriesResponse | installSnapshotResponse | preVote | preVoteResponse
    | timeoutNow | requestVote | requestVoteResponse => cases h
  · exact .refl n

/-- All other inputs leave the snapshot and its reception alone. -/
theorem step_stages (n : Node) (input : Input) : n.Stages (n.step input) := by
  by_cases hstages : Occasion.stages ⟨n, some input⟩
  · cases input with
    | message v message => exact receive_stages hstages
    | tick | clientProposal | trackedClientProposal | addLearner | promoteLearner | removeVoter
    | enterJoint | leaveJoint | changeMembership | dangerousRawConfigurationProposal
    | transferLeadership | readIndex => cases hstages
  · exact ((n.step_acts input).unstaged (by simpa using hstages)).stages

end Node

namespace PendingBatch

theorem flush_stages (n : Node) (batch : PendingBatch) : n.Stages (batch.flush n) :=
  ((flush_performs n batch).unstaged rfl).stages

theorem accept_stages (n : Node) (batch : PendingBatch) (input : Input) :
    n.Stages (batch.accept n input).1 := by
  rcases batch.accept_cases n input with h | h | h
  · rw [h]
    exact .refl n
  · rw [h]
    exact flush_stages n batch
  · rw [h]
    exact (flush_stages n batch).then (Node.step_stages _ input)

theorem run_stages (n : Node) (batch : PendingBatch) (inputs : List Input) :
    n.Stages (batch.run n inputs) := by
  induction inputs generalizing n batch with
  | nil => exact flush_stages n batch
  | cons input rest ih =>
    exact (accept_stages n batch input).then (f := fun n' => (batch.accept n input).2.run n' rest)
      (ih _ _)

end PendingBatch

namespace Node

variable {n m : Node} {o : Outcome}

theorem stepBatch_stages (n : Node) (inputs : List Input) : n.Stages (n.stepBatch inputs) := by
  match inputs with
  | [] => exact .refl n
  | [input] => exact n.step_stages input
  | i₁ :: i₂ :: rest => exact PendingBatch.run_stages n .empty (i₁ :: i₂ :: rest)

/-! ## The transfer under way -/

/-- The transfer under way still lacks bytes. -/
def Unfinished (n : Node) : Prop :=
  ∀ transfer, n.volatile.incomingSnapshot = some transfer →
    transfer.receivedLen < transfer.totalPayloadLen

theorem Stage.unfinished {l : List Output} (h : Stage n l m) (hn : n.Unfinished) :
    m.Unfinished := by
  intro transfer htransfer
  cases h with
  | idle hkept =>
    rcases hkept with hkept | hkept
    · exact hn transfer (hkept ▸ htransfer)
    · rw [hkept] at htransfer
      cases htransfer
  | chunk _ _ _ hnext hchunk =>
    obtain rfl := Option.some_inj.1 (hchunk.symm.trans htransfer)
    exact hnext
  | install _ _ _ hnone =>
    rw [hnone] at htransfer
    cases htransfer

theorem Stages.unfinished (h : n.Stages o) (hn : n.Unfinished) : o.node.Unfinished :=
  Protocol.Path.invariant (R := Stage) (fun hstage hs => hstage.unfinished hs) h hn

end Node

end Rafter
