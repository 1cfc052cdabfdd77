import Rafter.Conduct.Commitment

/-!
# Leading

Read requests, leadership transfers and the responses to a leader.

Results:

* `Node.readIndexBatch_performs`, `Node.transferLeadership_performs`;
* `Node.raise_performs`: a row moves to what its follower acknowledged;
* `Node.handleAppendEntriesResponse_performs`, `Node.handleInstallSnapshotResponse_performs`.
-/

namespace Rafter

open Protocol

namespace Node

variable {c : Occasion} {n n' : Node} {b : Bool}
variable {k : ℕ} {response : InstallSnapshotResponse} {f : Progress → Progress} {v : NodeId}

/-! ## Reads -/

theorem rejectReads_performs (n : Node) (ids : List ReadId) (reason : ReadIndexRejection) :
    n.Performs c b (ids.map .read) ⟨n, rejectReads ids reason⟩ := by
  have hacts := Acts.single (c := c) (b := b) (.reject n ids reason) rfl
    (by simp [rejectReads, Output.isPlain])
  exact Acts.performs_of_core (by simpa using hacts) rfl (by simp [rejectReads, Output.isIdle])

theorem grantReads_performs {ids : List ReadId} (hrole : n.role = .leader)
    (hcommitted : n.hasCommittedInCurrentTerm)
    (hwhy : n.leaseGrantAvailable ∨ n.effectiveMembership.hasQuorum [n.id]) :
    n.Performs c b (ids.map .read) ⟨n, grantReads ids n.commitIndex⟩ := by
  have hacts := Acts.single (c := c) (b := b) (.grant n ids hrole hcommitted hwhy) rfl
    (by simp [grantReads, Output.isPlain])
  exact Acts.performs_of_core (by simpa using hacts) rfl (by simp [grantReads, Output.isIdle])

theorem registerReads_performs {ids : List ReadId} {acks : AcknowledgementSet}
    (hr : n.role = .leader) (ht : n.leader.pendingTransfer = none) (hne : ids ≠ [])
    (hcommitted : n.hasCommittedInCurrentTerm) (hacks : acks.nodes = []) :
    n.Performs c true (ids.map .read) (n.registerReads ids acks) := by
  unfold registerReads
  dsimp only
  split_ifs with havail
  · exact n.rejectReads_performs ids _
  · generalize hk : maxPendingReads - n.pendingReadCount = k at havail
    have hne' : ids.take k ≠ [] := by
      simp [List.take_eq_nil_iff, havail, hne]
    have hlen : n.pendingReadCount + (ids.take k).length ≤ maxPendingReads := by
      have := List.length_take_le k ids
      omega
    have hregister := Acts.single (c := c) (b := false)
      (.register n _ acks hr ht hne' hlen hcommitted hacks) rfl (by simp)
    rw [filterMap_getLeft_asked, filterMap_getRight_asked] at hregister
    have hsend := (hregister.quietly rfl).then (f := fun _ => _)
      (broadcastRows_performs _ .ensureContact)
    -- the rejections come after the frames, and change nothing
    have hall := hsend.compose
      (f := fun n' => ⟨n', rejectReads (ids.drop k) .tooManyPendingReads⟩)
      (rejectReads_performs (b := true) _ (ids.drop k) .tooManyPendingReads) hsend.describes
    rw [← List.map_append, List.take_append_drop] at hall
    exact hall

theorem nodes_new (m : MembershipConfig) (self : NodeId) :
    (AcknowledgementSet.new m self).nodes = [] :=
  List.eq_nil_iff_forall_not_mem.2 fun _ => AcknowledgementSet.mem_nodes_of_slots_empty

/-- A new round has no acknowledgements, and its quorum test is that of the node alone. -/
theorem hasQuorumWithSelf_new (m : MembershipConfig) (self : NodeId) :
    ((AcknowledgementSet.new m self).hasQuorumWithSelf m self).1 = m.hasQuorum [self] ∧
      ((AcknowledgementSet.new m self).hasQuorumWithSelf m self).2.nodes = [] := by
  refine ⟨by rw [AcknowledgementSet.hasQuorumWithSelf_eq, nodes_new], ?_⟩
  refine List.eq_nil_iff_forall_not_mem.2 fun v hv => ?_
  have hmem := (AcknowledgementSet.mem_nodes_refresh).1 hv
  simp at hmem

theorem readIndexBatch_performs (n : Node) (ids : List ReadId) :
    n.Performs c true (ids.map .read) (n.readIndexBatch ids) := by
  unfold readIndexBatch
  by_cases hempty : ids.isEmpty
  · rw [if_pos hempty, List.isEmpty_iff.1 hempty]
    exact .refl n
  rw [if_neg hempty]
  by_cases hrole : n.role = .leader
  · rw [if_neg (not_not.2 hrole)]
    obtain ⟨hself, hnodes⟩ := hasQuorumWithSelf_new n.effectiveMembership n.id
    cases ht : n.leader.pendingTransfer with
    | some transfer => exact n.rejectReads_performs ids _
    | none =>
      dsimp only
      split_ifs with hcommitted hlease hconfirmed
      · exact n.rejectReads_performs ids _
      · exact grantReads_performs hrole (by simpa using hcommitted) (.inl hlease)
      · exact grantReads_performs hrole (by simpa using hcommitted) (.inr (hself ▸ hconfirmed))
      · exact registerReads_performs hrole ht (by simpa using hempty)
          (by simpa using hcommitted) hnodes
  · rw [if_pos hrole]
    exact n.rejectReads_performs ids _

/-! ## Leadership transfer -/

theorem sendTimeoutNow_performs (hrole : n.role = .leader) (target : NodeId) :
    n.Performs c b [] (n.sendTimeoutNow target) := by
  have hwaive : n.Performs c false [] ⟨(n.sendTimeoutNow target).node, []⟩ :=
    quiet_performs rfl rfl (fun h => by simpa [sendTimeoutNow] using h) (fun _ => rfl) (.inr rfl)
      (.inr (.of_eq rfl rfl))
  exact .of_left hwaive (emit_performs _ rfl ⟨hrole, rfl, rfl⟩ trivial)

theorem transferLeadership_performs (n : Node) (target : NodeId) :
    n.Performs c true [] (n.transferLeadership target) := by
  have hreject : ∀ reason, n.Performs c true [] ⟨n, [.leadershipTransferRejected target reason]⟩ :=
    fun reason => n.emit_performs rfl trivial trivial
  unfold transferLeadership
  dsimp only
  split_ifs with hrole
  · exact hreject _
  · exact hreject _
  · exact hreject _
  · exact hreject _
  · have hdrain : n.Performs c false [] ⟨_, (n.drainPendingReads _).outputs⟩ :=
      (Act.transfer n ⟨target, n.config.electionTimeoutTicks, false⟩
        (.leadershipTransfer target)).performs rfl rfl (n.isIdle_drainPendingReads _)
    refine hdrain.then (f := fun n' => if n'.targetIsCaughtUp target then n'.sendTimeoutNow target
      else n'.replicateToFollower target .ensureContact) ?_
    split_ifs
    · have hleads : n.role = .leader := not_not.1 hrole
      exact sendTimeoutNow_performs (by exact hleads) target
    · exact replicateToFollower_performs _ target _

theorem maybeCompleteLeadershipTransfer_performs (hrole : n.role = .leader) (v : NodeId) :
    n.Performs c b [] (n.maybeCompleteLeadershipTransfer v) := by
  unfold maybeCompleteLeadershipTransfer
  cases n.leader.pendingTransfer with
  | none => exact .refl n
  | some transfer =>
    dsimp only
    split_ifs
    · exact .refl n
    · exact sendTimeoutNow_performs hrole v

theorem maybeCompleteLeadershipTransfer_core (n : Node) (v : NodeId) :
    (n.maybeCompleteLeadershipTransfer v).node.core = n.core := by
  unfold maybeCompleteLeadershipTransfer
  split
  · rfl
  · split_ifs
    · rfl
    · rfl

/-! ## Responses -/

theorem lastLogIndex_reconcile (n : Node) :
    n.reconcileReplicationProgress.lastLogIndex = n.lastLogIndex := by
  obtain ⟨progress, hn⟩ := n.reconcileReplicationProgress_node
  rw [hn]
  rfl

theorem role_reconcile (n : Node) : n.reconcileReplicationProgress.role = n.role := by
  obtain ⟨progress, hn⟩ := n.reconcileReplicationProgress_node
  rw [hn]
  rfl

theorem currentTerm_reconcile (n : Node) :
    n.reconcileReplicationProgress.currentTerm = n.currentTerm := by
  obtain ⟨progress, hn⟩ := n.reconcileReplicationProgress_node
  rw [hn]
  rfl

/-- A commit attempt settles a leader that was settled before its rows moved. -/
theorem advanceCommitIndex_settled_of_standing (hs : n.Settled) (hrole : n.role = .leader)
    (hstanding : n'.standing = n.standing) (hn' : n'.Bounded) :
    n'.advanceCommitIndex.node.Settled := by
  have hrole' := (eq_of_standing (f := role) hstanding fun _ => rfl).trans hrole
  refine advanceCommitIndex_settled hn' hrole' fun halone => .inl ?_
  rw [Alone, eq_of_standing (f := effectiveMembership) hstanding fun _ => rfl,
    eq_of_standing (f := Node.id) hstanding fun _ => rfl] at halone
  rw [eq_of_standing (f := dispatchedIndex) hstanding fun _ => rfl,
    eq_of_standing (f := lastLogIndex) hstanding fun _ => rfl]
  exact (hs hrole).2 halone

/-- The row of a follower moves to what the follower acknowledged, a transfer to it may complete,
and the leader tries to commit unless the row stays where that is of no use. -/
theorem raise_acts (hrole : n.role = .leader) (hrow : Act c n [] (n.modifyProgress v f))
    (attempt : Bool) (demand : ReplicationDemand) :
    n.Acts c true [] ((((n.modifyProgress v f).maybeCompleteLeadershipTransfer v).andThen fun n =>
      if attempt then n.advanceCommitIndex else ⟨n, []⟩).andThen
        (·.replicateToFollower v demand)) := by
  refine .of_act hrow rfl ?_
  have hcomplete := maybeCompleteLeadershipTransfer_performs (c := c) (b := false)
    (n := n.modifyProgress v f) hrole v
  refine (hcomplete.toActs.then ?_).then (replicateToFollower_performs _ v _).toActs
  split_ifs
  · exact advanceCommitIndex_acts _
  · exact .refl _

theorem raise_performs {j : ℕ} (hrole : n.role = .leader) (hrow : Act c n [] (n.modifyProgress v f))
    (hmatch : ∀ row, (f row).matchIndex = max row.matchIndex k) (hk : k ≤ n.lastLogIndex)
    (hkj : k ≤ j) (hack : ∀ ⦃initial i s⦄, c.Genuine initial i s → s.acks v n.currentTerm j)
    (attempt : Bool) (hstill : attempt = false → n.Still (n.modifyProgress v f))
    (demand : ReplicationDemand) :
    n.Performs c true [] ((((n.modifyProgress v f).maybeCompleteLeadershipTransfer
      v).andThen fun n =>
      if attempt then n.advanceCommitIndex else ⟨n, []⟩).andThen
        (·.replicateToFollower v demand)) := by
  have hcomplete := maybeCompleteLeadershipTransfer_performs (c := c) (b := false)
    (n := n.modifyProgress v f) hrole v
  have hcore := maybeCompleteLeadershipTransfer_core (n.modifyProgress v f) v
  have hrole' : ((n.modifyProgress v f).maybeCompleteLeadershipTransfer v).node.role = .leader :=
    (congrArg (fun m => m.volatile.role) hcore).trans hrole
  refine ⟨raise_acts hrole hrow attempt demand, ?_, fun hn hs => ?_⟩
  · have hraise : n.Refines c ⟨n.modifyProgress v f, []⟩ := fun _ _ _ _ hc hn =>
      .of_node (hn.raiseRow hmatch (hk.trans hn.rep.lastLogIndex_eq.le) hkj (hack hc)) (by simp)
    refine hraise.of_left ?_
    refine (hcomplete.refines.andThen ?_).andThen (replicateToFollower_performs _ v _).refines
    split_ifs
    · exact (advanceCommitIndex_performs (b := false) hrole').refines
    · exact .refl _
  · have hn' := hcomplete.bounded (hrow.bounded hn)
    have hstanding := (Still.of_core hcore).standing
    rw [Outcome.andThen_node, Outcome.andThen_node]
    cases attempt with
    | true =>
      have hbounded := (advanceCommitIndex_acts (c := c) (b := false) _).bounded hn'
      exact (replicateToFollower_performs (c := c) _ v _).rests hbounded
        (advanceCommitIndex_settled_of_standing hs hrole hstanding hn')
    | false =>
      exact (replicateToFollower_performs (c := c) _ v _).rests hn'
        (((hstill rfl).trans (Still.of_core hcore)).settled hs)

/-- An acknowledgement that cannot advance the commit index moves no row above it. -/
theorem still_acceptRow {row : Progress} (hrow : n.leader.progress.get v = some row) {s : ℕ}
    (h : successfulAckCanAdvanceCommit row.matchIndex
      (max row.matchIndex k) n.commitIndex = false) :
    n.Still (n.modifyProgress v (acceptRow k s)) := by
  refine ⟨rfl, fun w _ _ i hi => ?_⟩
  unfold modifyProgress ProgressSet.matchIndexOf
  dsimp only
  rw [ProgressSet.get_modify]
  split_ifs with hw
  · rw [hw, hrow]
    show i ≤ (acceptRow k s row).matchIndex ↔ i ≤ row.matchIndex
    rw [matchIndex_acceptRow]
    simp only [successfulAckCanAdvanceCommit, Bool.and_eq_false_iff, decide_eq_false_iff_not] at h
    omega
  · rfl

theorem acceptAppendResponse_acts (hrole : n.role = .leader) (v : NodeId) (k : ℕ) :
    n.Acts c true [] (n.acceptAppendResponse v k) := by
  have hlast : min k n.lastLogIndex ≤ n.reconcileReplicationProgress.lastLogIndex := by
    rw [lastLogIndex_reconcile]
    exact min_le_right _ _
  refine .of_left n.reconcile_performs.toActs ?_
  rw [← role_reconcile] at hrole
  unfold acceptAppendResponse
  dsimp only
  generalize n.reconcileReplicationProgress = n' at hlast hrole
  cases n'.leader.progress.get v with
  | none => exact .refl n'
  | some row => exact raise_acts hrole (.row n' v _ fun row _ => .accept row _ hlast) _ _

theorem acceptAppendResponse_performs (hrole : n.role = .leader)
    (hack : ∀ ⦃initial i s⦄, c.Genuine initial i s → s.acks v n.currentTerm k) :
    n.Performs c true [] (n.acceptAppendResponse v k) := by
  have hlast : min k n.lastLogIndex ≤ n.reconcileReplicationProgress.lastLogIndex := by
    rw [lastLogIndex_reconcile]
    exact min_le_right _ _
  have hcommit := eq_of_standing (f := commitIndex) n.still_reconcile.standing fun _ => rfl
  refine .of_left n.reconcile_performs ?_
  rw [← role_reconcile] at hrole
  rw [← currentTerm_reconcile] at hack
  unfold acceptAppendResponse
  dsimp only
  rw [← hcommit]
  generalize n.reconcileReplicationProgress = n' at hlast hrole hack
  cases hrow : n'.leader.progress.get v with
  | none => exact .refl n'
  | some row =>
    exact raise_performs hrole (.row n' v _ fun row _ => .accept row _ hlast)
      (matchIndex_acceptRow _ _) hlast (min_le_left _ _) hack _ (still_acceptRow hrow) _

/-- Updates of a row that leave its match index. -/
theorem row_performs (hact : Act c n [] (n.modifyProgress v f))
    (hf : ∀ row, (f row).matchIndex = row.matchIndex) :
    n.Performs c b [] ⟨n.modifyProgress v f, []⟩ :=
  ⟨hact.idle rfl, fun _ _ _ _ _ hn => .of_node (hn.modifyProgress_of_eq hf) (by simp),
    fun _ hs => (still_modifyProgress hf).settled hs⟩

theorem rejectAppendResponse_performs (n : Node) (v : NodeId) :
    n.Performs c true [] (n.rejectAppendResponse v) := by
  refine .of_left n.reconcile_performs ?_
  unfold rejectAppendResponse
  dsimp only
  generalize n.reconcileReplicationProgress = n'
  cases n'.leader.progress.get v with
  | none => exact .refl n'
  | some row =>
    dsimp only
    split
    · exact n'.replicateToFollower_performs v _
    · exact .of_left (row_performs (.row n' v _ fun row _ => .collapse row) fun _ => rfl)
        (replicateToFollower_performs _ v _)

theorem recordQuorumAck_performs (h : Answers c n.currentTerm v) :
    n.Performs c b [] ⟨n.recordQuorumAck v, []⟩ :=
  quiet_performs rfl rfl (fun h => h) (fun h => h) (.inr rfl) (.inr (heeds_recordQuorumAck h))

/-- What every response of the leader's own term does first. -/
theorem acknowledge_performs {response : AppendEntriesResponse}
    (hinput : c.input = some (.message v (.appendEntriesResponse response)))
    (hrole : n.role = .leader) (hterm : response.term = n.currentTerm) :
    n.Performs c b [] (((n.recordQuorumAck v).acknowledgeReadLease v response.sequence
      ).acknowledgeReadBarriers v response.sequence) := by
  obtain ⟨lease, hlease⟩ := (n.recordQuorumAck v).acknowledgeReadLease_node v response.sequence
  refine .of_left (recordQuorumAck_performs ⟨_, hinput, rfl, hterm⟩) ?_
  refine .of_act (.renew _ v response hinput hrole hterm) (by rw [hlease]; rfl)
    (by rw [hlease]; rfl) ?_
  have hrole' : ((n.recordQuorumAck v).acknowledgeReadLease v response.sequence).role
    = .leader := by
    rw [hlease]
    exact hrole
  have hterm' : response.term =
      ((n.recordQuorumAck v).acknowledgeReadLease v response.sequence).currentTerm := by
    rw [hlease]
    exact hterm
  generalize (n.recordQuorumAck v).acknowledgeReadLease v response.sequence = n' at hrole' hterm'
  obtain ⟨kept, hkept⟩ := n'.acknowledgeReadBarriers_node v response.sequence
  refine (Act.acknowledge n' v response hinput hrole' hterm').performs (by rw [hkept]; rfl)
    (by rw [hkept]; rfl) ?_
  intro x hx
  obtain ⟨id, k, rfl⟩ := mem_acknowledgeReadBarriers hx
  rfl

theorem handleAppendEntriesResponse_performs (n : Node) {response : AppendEntriesResponse}
    (hinput : c.input = some (.message v (.appendEntriesResponse response))) :
    n.Performs c true [] (n.handleAppendEntriesResponse v response) := by
  unfold handleAppendEntriesResponse
  by_cases hlt : n.currentTerm < response.term
  · rw [if_pos hlt]
    exact catchUp_performs hinput rfl hlt
  rw [if_neg hlt]
  by_cases hother : n.role ≠ .leader ∨ response.term ≠ n.currentTerm
  · rw [if_pos hother]
    exact .refl n
  rw [if_neg hother]
  push Not at hother
  refine (acknowledge_performs hinput hother.1 hother.2).then ?_
  obtain ⟨lease, hlease⟩ := (n.recordQuorumAck v).acknowledgeReadLease_node v response.sequence
  obtain ⟨kept, hkept⟩ := ((n.recordQuorumAck v).acknowledgeReadLease v
    response.sequence).acknowledgeReadBarriers_node v response.sequence
  split_ifs with hsuccess
  · refine acceptAppendResponse_performs ?_ fun initial i s hc => ?_
    · rw [hkept, hlease]
      exact hother.1
    · have hack : s.acks v response.term response.matchIndex := hc _ hinput hsuccess
      rw [hother.2] at hack
      rw [hkept, hlease]
      exact hack
  · exact rejectAppendResponse_performs _ v

theorem withReconciledRow_performs {continuation : Node → Outcome}
    (h : n.reconcileReplicationProgress.Performs c true []
      (continuation (n.reconcileReplicationProgress.modifyProgress v f))) :
    n.Performs c true [] (n.withReconciledRow v f continuation) := by
  refine .of_left n.reconcile_performs ?_
  unfold withReconciledRow
  dsimp only
  split_ifs
  · exact h
  · exact .refl _

variable (hinput : c.input = some (.message v (.installSnapshotResponse response)))

include hinput

/-- Taking up a transfer again sends the row back to the boundary. -/
theorem resume_performs
    (hresumes : c.node.resumes response) (hnode : n = c.node.recordQuorumAck v)
    (hf : ∀ row, (f row).matchIndex = row.matchIndex ∧ (f row).nextIndex = n.snapshotIndex)
    (demand : ReplicationDemand) :
    n.Performs c true [] (n.withReconciledRow v f (·.replicateToFollower v demand)) := by
  obtain ⟨progress, hp⟩ := n.reconcileReplicationProgress_node
  have hsnapshot : n.reconcileReplicationProgress.snapshotIndex = n.snapshotIndex := by
    rw [hp]
    rfl
  have hid : n.reconcileReplicationProgress.id = n.id := by
    rw [hp]
    rfl
  refine withReconciledRow_performs (.of_left (row_performs ?_ fun row => (hf row).1)
    (replicateToFollower_performs _ v _))
  refine .resume _ v response f hinput hresumes ?_ ?_ ?_ ?_
  · rw [hsnapshot, hnode]
    rfl
  · rw [hid, hnode]
    rfl
  · intro row hv hrow
    rw [matchIndex_reconcile (hid ▸ hv) hrow, hnode]
    rfl
  · rw [hsnapshot]
    exact hf

theorem applySnapshotResponse_performs
    (hrole : n.role = .leader) (hterm : response.term = n.currentTerm)
    (hnode : n = c.node.recordQuorumAck v)
    (hresumes : (response.success = false ∨ (c.node.transferUnfinished response).isSome) →
      c.node.resumes response) :
    n.Performs c true [] (n.applySnapshotResponse v response) := by
  have hunfinished : n.transferUnfinished response = c.node.transferUnfinished response := by
    rw [hnode]
    rfl
  unfold applySnapshotResponse
  by_cases hsuccess : response.success
  · rw [if_pos hsuccess]
    cases hsome : n.transferUnfinished response with
    | some snapshot =>
      have hsnapshot : n.snapshotIndex = snapshot.metadata.lastIncludedIndex := by
        have hfilter := (Option.filter_eq_some_iff.1 hsome).1
        rw [snapshotIndex, hfilter]
      refine resume_performs (f := continueTransferRow (acknowledgedOffset snapshot response)
        snapshot.metadata.lastIncludedIndex) hinput (hresumes (.inr ?_)) hnode
        (fun row => ⟨rfl, hsnapshot.symm⟩) _
      rw [← hunfinished, hsome]
      rfl
    | none =>
      have hlast : min response.lastIncludedIndex n.lastLogIndex ≤
          n.reconcileReplicationProgress.lastLogIndex := by
        rw [lastLogIndex_reconcile]
        exact min_le_right _ _
      rw [← role_reconcile] at hrole
      refine withReconciledRow_performs (raise_performs hrole
        (.row _ v _ fun row _ => .installed row _ hlast) (matchIndex_installedRow _) hlast
        (min_le_left _ _) (fun initial i s hc => ?_) true (fun h => (by cases h)) _)
      have hack : s.acks v response.term response.lastIncludedIndex := hc _ hinput hsuccess
      rwa [hterm, ← currentTerm_reconcile] at hack
  · rw [if_neg hsuccess]
    refine resume_performs hinput (hresumes (.inl (by simpa using hsuccess))) hnode
      (fun row => ?_) _
    unfold rewoundRow
    cases n.persistent.snapshot.map (acknowledgedOffset · response) <;> exact ⟨rfl, rfl⟩

theorem handleInstallSnapshotResponse_performs (hnode : c.node = n) :
    n.Performs c true [] (n.handleInstallSnapshotResponse v response) := by
  unfold handleInstallSnapshotResponse
  by_cases hlt : n.currentTerm < response.term
  · rw [if_pos hlt]
    exact catchUp_performs hinput rfl hlt
  rw [if_neg hlt]
  by_cases hother : n.role ≠ .leader ∨ response.term ≠ n.currentTerm
  · rw [if_pos hother]
    exact .refl n
  rw [if_neg hother]
  push Not at hother
  refine .of_left (recordQuorumAck_performs ⟨_, hinput, rfl, hother.2⟩) ?_
  dsimp only
  split_ifs with hforeign
  · exact .refl _
  · refine applySnapshotResponse_performs hinput hother.1 hother.2 (by rw [hnode]) fun hkind => ?_
    push Not at hforeign
    have hpresent : response.transferId = none ∨
        n.persistent.snapshot.map RaftSnapshot.transferId = response.transferId := by
      cases htransfer : response.transferId with
      | none => exact .inl rfl
      | some id => exact .inr (htransfer ▸ hforeign (by simp [htransfer]))
    rw [hnode] at hkind ⊢
    simpa [resumes, hother.1, hother.2] using ⟨hpresent, hkind⟩

omit hinput

end Node

end Rafter
