import Rafter.Cluster.Safety

/-!
# Snapshot transfers between nodes

What `validate_install_snapshot_chunk_header` answers to a chunk of a genuine leader: metadata,
transfer id and bounds always pass, and the sender is accepted where the receiver finds it in its
effective membership or in the membership at the snapshot's boundary.

A leader that joined after the boundary is in neither for a receiver that has not seen the
configuration it joined with: `Cluster.snapshot_refused` is a run to such a chunk.

Main results:

* `Cluster.snapshot_header_verdict`;
* `Cluster.snapshot_refused`;
* `Cluster.snapshots_agree`: snapshots of one boundary are of one history.
-/

namespace Rafter

variable {cfg : ClusterConfig} {c : Cluster} {s : Ghost} {initial : MembershipConfig} {i : NodeId}

/-! ## What a directive guarantees -/

variable {d : SnapshotChunkSend} {bytes : Payload} {m : InstallSnapshotChunk}

theorem ChunkOk.shape (h : ChunkOk initial i s d) (hres : d.resolve bytes = some m) :
    Node.validateSnapshotChunkShape m = .ok () := by
  obtain ⟨hlen, rfl⟩ := SnapshotChunkSend.resolve_eq_some hres
  have hb := h.bounds
  have ht := h.total_le
  have hdone := h.done_iff
  unfold Node.validateSnapshotChunkShape
  dsimp only
  rw [hlen, if_neg (by omega), if_neg (by omega)]
  by_cases hd : d.done
  · rw [if_pos hd, if_pos (by simpa [hd] using hdone)]
  · have hpos := h.len_pos (by simpa using hd)
    have hne : d.offset + d.len ≠ d.totalPayloadLen := by simpa [hd] using hdone
    rw [if_neg hd, if_pos ⟨hpos, by omega⟩]

theorem ChunkOk.metadata (h : ChunkOk initial i s d) (n : Node) :
    n.validSnapshotMetadata d.metadata d.term := by
  obtain ⟨l, -, -, hdesc, -⟩ := h.describes
  simp [Node.validSnapshotMetadata, h.hardState, Node.validSnapshotAuthor,
    RaftSnapshotMetadata.committedMembership, hdesc.configuration, hdesc.writer]

/-- The header check of a genuine chunk is the check of its sender. -/
theorem ChunkOk.header (h : ChunkOk initial i s d) (hres : d.resolve bytes = some m) (n : Node)
    (leader : NodeId) :
    n.validateInstallSnapshotChunkHeader leader m =
      if n.validSnapshotTransferLeader leader m.metadata then .ok ()
      else .error .leaderNotAuthorized := by
  have hshape := h.shape hres
  obtain ⟨-, rfl⟩ := SnapshotChunkSend.resolve_eq_some hres
  unfold Node.validateInstallSnapshotChunkHeader Node.validateSnapshotTransferHeader
  dsimp only
  rw [h.metadata n, Bool.not_true, if_neg (by simp)]
  by_cases hleader : n.validSnapshotTransferLeader leader d.metadata
  · rw [hleader, Bool.not_true, if_neg (by simp), if_pos rfl]
    dsimp only
    rw [if_neg (not_not.2 h.transferId), hshape]
  · rw [if_pos (by simpa using hleader), if_neg hleader]

/-- Taking over a term changes nothing the check of a sender reads. -/
theorem Node.validSnapshotTransferLeader_adoptSnapshotTerm (n : Node) (term : ℕ)
    (leader : NodeId) (metadata : RaftSnapshotMetadata) :
    (n.adoptSnapshotTerm term).node.validSnapshotTransferLeader leader metadata =
      n.validSnapshotTransferLeader leader metadata := by
  unfold Node.adoptSnapshotTerm
  split_ifs <;> rfl

/-! ## A leader that joined after the boundary

The voter set is {1}. Node 1 compacts at index 2, where the membership is {1}, and takes in node 2,
which catches up by that snapshot. A joint configuration with voters 1 and 2 and learner 3 reaches
node 2, which is elected in term 2 and relays the snapshot to node 3. Node 3 knows its static
membership {1} only. -/

/-- A name for the snapshots below. -/
def demoSnapshotId : SnapshotId := ⟨['g'], by simp, by simp, by simp [snapshotIdCharacter]⟩

/-- The snapshot of node 1 at index 2, with an empty payload. -/
def earlySnapshot : RaftSnapshot where
  metadata :=
    { groupId := demoSnapshotId
      writerId := 1
      lastIncludedIndex := 2
      lastIncludedTerm := 1
      hardStateTerm := 1
      application := ⟨demoSnapshotId, ⟨1, Nat.one_ne_zero, Nat.one_lt_two_pow (by simp)⟩⟩
      committedConfiguration := some ⟨none, .stable oneVoter⟩ }
  applicationPayloadLen := 0
  applicationPayloadCrc32 := 0

/-- Voters 1 and 2 with learner 3. -/
def grownMembership : MembershipSet := ⟨[1, 2], [3], by decide, by decide, by decide, by decide⟩

/-- Node 1 compacts and brings learner 2 up to date by snapshot and log. -/
def takeInTwo : List Event :=
  [.input 1 .tick, .input 1 (.clientProposal [7]), .localSnapshot 1 earlySnapshot,
    .input 1 (.addLearner 2), .deliver 2, .deliver 3, .deliverChunk 4 [], .deliver 7, .deliver 8,
    .deliver 10]

/-- The joint configuration reaches node 2, which is elected in term 2. -/
def electJoined : List Event :=
  [.input 1 (.changeMembership grownMembership [⟨2, 3⟩]), .deliver 11, .input 2 .tick, .deliver 14,
    .deliver 15]

/-- Node 3 rejects the probes of node 2 down to its snapshot. -/
def probeThree : List Event :=
  [.deliver 17, .deliver 18, .deliver 19, .deliver 20, .deliver 21, .deliver 22]

/-- The directive for the snapshot in a term of a leader. -/
def earlyChunk (term : ℕ) (leaderId : NodeId) : SnapshotChunkSend where
  term := term
  leaderId := leaderId
  transferId := snapshotTransferIdFromParts earlySnapshot.metadata 0 0
  metadata := earlySnapshot.metadata
  totalPayloadLen := 0
  applicationPayloadCrc32 := 0
  offset := 0
  len := 0
  done := true

/-! ## The verdict -/

/-- A chunk of a genuine leader passes the header check of a node of no later term exactly where
its sender is a replica of the boundary membership or of the node's effective membership;
otherwise the sender is not authorized. -/
theorem Cluster.snapshot_header_verdict (hc : Cluster.Reachable cfg c) {x : Emission}
    (hx : x ∈ c.emitted) {r : NodeId} {d : SnapshotChunkSend}
    (hd : x.output = .sendSnapshotChunk r d) {bytes : Payload} {m : InstallSnapshotChunk}
    (hres : d.resolve bytes = some m) (i : NodeId) :
    ((c.nodes i).adoptSnapshotTerm m.term).node.validateInstallSnapshotChunkHeader x.node m =
      if m.metadata.committedMembership.any (·.containsReplica x.node) ∨
          (c.nodes i).effectiveMembership.containsReplica x.node then .ok ()
      else .error .leaderNotAuthorized := by
  obtain ⟨s, hs⟩ := hc.sim
  have hok := hs.emitted x hx
  rw [hd] at hok
  rw [ChunkOk.header hok hres, Node.validSnapshotTransferLeader_adoptSnapshotTerm,
    Node.validSnapshotTransferLeader]
  simp only [Bool.or_eq_true]

/-- The chunk that node 1 sends to learner 2 passes. -/
theorem Cluster.snapshot_header_verdict_takeInTwo :
    (((Cluster.after growingCluster (takeInTwo.take 6)).nodes 2).adoptSnapshotTerm
        1).node.validateInstallSnapshotChunkHeader 1
      { term := 1, leaderId := 1, transferId := (earlyChunk 1 1).transferId
        metadata := earlySnapshot.metadata, totalPayloadLen := 0, applicationPayloadCrc32 := 0
        offset := 0, chunk := [], done := true } = .ok () := by
  have hres : (earlyChunk 1 1).resolve [] = some
      { term := 1, leaderId := 1, transferId := (earlyChunk 1 1).transferId
        metadata := earlySnapshot.metadata, totalPayloadLen := 0, applicationPayloadCrc32 := 0
        offset := 0, chunk := [], done := true } := rfl
  have hreach : Cluster.Reachable growingCluster
      (Cluster.after growingCluster (takeInTwo.take 6)) :=
    Cluster.reachable_after (by decide +kernel)
  have hx : (⟨1, some (.message 2 (.appendEntriesResponse
      { term := 1, followerId := 2, success := false, matchIndex := 0, sequence := 2 })),
      .sendSnapshotChunk 2 (earlyChunk 1 1)⟩ : Emission) ∈
      (Cluster.after growingCluster (takeInTwo.take 6)).emitted := by decide +kernel
  rw [Cluster.snapshot_header_verdict hreach hx rfl hres 2]
  exact if_pos (by decide +kernel)

/-- A genuine leader's snapshot is refused: the chunk that the leader of term 2 sends to node 3 is
not authorized there. -/
theorem Cluster.snapshot_refused : ∃ (cfg : ClusterConfig) (c : Cluster) (x : Emission)
    (r : NodeId) (d : SnapshotChunkSend) (bytes : Payload) (m : InstallSnapshotChunk),
    Cluster.Reachable cfg c ∧ x ∈ c.emitted ∧ x.output = .sendSnapshotChunk r d ∧
      (c.nodes x.node).role = .leader ∧ (c.nodes x.node).currentTerm = d.term ∧
      d.resolve bytes = some m ∧ (c.nodes r).currentTerm ≤ m.term ∧
      ((c.nodes r).adoptSnapshotTerm m.term).node.validateInstallSnapshotChunkHeader x.node m =
        .error .leaderNotAuthorized := by
  refine ⟨growingCluster, Cluster.after growingCluster (takeInTwo ++ electJoined ++ probeThree),
    ⟨2, some (.message 3 (.appendEntriesResponse
      { term := 2, followerId := 3, success := false, matchIndex := 0, sequence := 1 })),
      .sendSnapshotChunk 3 (earlyChunk 2 2)⟩, 3, earlyChunk 2 2, [], _,
    Cluster.reachable_after (by decide +kernel), by decide +kernel, rfl, by decide +kernel,
    by decide +kernel, rfl, by decide +kernel, by decide +kernel⟩

/-! ## One snapshot for a boundary -/

variable {m m' : RaftSnapshotMetadata}

/-- A node holds a snapshot with this metadata, or a leader transferred one. -/
def Cluster.Describes (c : Cluster) (m : RaftSnapshotMetadata) : Prop :=
  (∃ i x, (c.nodes i).persistent.snapshot = some x ∧ x.metadata = m) ∨
    ∃ x ∈ c.emitted, ∃ r d, x.output = .sendSnapshotChunk r d ∧ d.metadata = m

theorem Sim.describes (h : Sim cfg c s) (hm : c.Describes m) :
    ∃ l t, CommittedPrefix s t (l.take m.lastIncludedIndex) ∧
      SnapshotDescribes cfg.membership l m := by
  rcases hm with ⟨i, x, hx, rfl⟩ | ⟨x, hx, r, d, hsend, rfl⟩
  · have hnode := h.nodes i
    have hle := hnode.rep.snapshot_le.trans hnode.rep.dispatched_le
    rw [Node.snapshotIndex_eq hx] at hle
    exact ⟨_, _, hnode.commit.of_isPrefix (List.take_prefix_take_left hle),
      (hnode.rep.snapshot x hx).1⟩
  · have hok := h.emitted x hx
    rw [hsend] at hok
    obtain ⟨_, -, -, hdesc, hcommit⟩ := hok.describes
    exact ⟨_, _, hcommit, hdesc⟩

/-- Two committed prefixes of one length are equal. -/
theorem CommittedPrefix.eq_of_length (hI : (raftScheme initial).Inv s) {t t' : ℕ}
    {l l' : List LogEntry} (h : CommittedPrefix s t l) (h' : CommittedPrefix s t' l')
    (hlen : l.length = l'.length) : l = l' := by
  refine List.ext_getElem hlen fun j hj hj' => ?_
  exact (h.entry j.succ_pos (List.getElem?_eq_getElem hj)).unique hI
    (h'.entry j.succ_pos (List.getElem?_eq_getElem hj'))

/-- Snapshots and transfers of one boundary, at any two moments of a run, carry one term and one
committed configuration. -/
theorem Cluster.snapshots_agree {c' : Cluster} {later : List Event} (hc : Cluster.Reachable cfg c)
    (hlater : c.run later = some c') (hm : c.Describes m) (hm' : c'.Describes m')
    (hb : m.lastIncludedIndex = m'.lastIncludedIndex) :
    m.lastIncludedTerm = m'.lastIncludedTerm ∧
      m.committedConfiguration = m'.committedConfiguration := by
  obtain ⟨s, hs⟩ := hc.sim
  obtain ⟨s', hs', hext⟩ := hs.run hlater
  obtain ⟨l, t, hcommit, hdesc⟩ := hs.describes hm
  obtain ⟨l', t', hcommit', hdesc'⟩ := hs'.describes hm'
  have htake := (hcommit.mono hs.inv hext le_rfl).eq_of_length hs'.inv hcommit' (by
    rw [List.length_take_of_le hdesc.le, List.length_take_of_le hdesc'.le, hb])
  have hdesc := hdesc.of_take (hb ▸ hdesc'.le) (by rw [htake, hb])
  exact ⟨Option.some_inj.1 (by rw [← hdesc.term, ← hdesc'.term, hb]),
    by rw [hdesc.configuration, hdesc'.configuration, hb]⟩

/-- The snapshot of node 1, and later the one that node 2 received. -/
theorem Cluster.snapshots_agree_takeInTwo : ∃ x,
    ((Cluster.after growingCluster takeInTwo).nodes 2).persistent.snapshot = some x ∧
      earlySnapshot.metadata.committedConfiguration = x.metadata.committedConfiguration := by
  have hrun := Cluster.run_after_append growingCluster (takeInTwo.take 3) (takeInTwo.drop 3)
    (by decide +kernel)
  exact ⟨earlySnapshot, by decide +kernel, (Cluster.snapshots_agree ⟨_, hrun.1⟩ hrun.2
    (.inl ⟨1, earlySnapshot, by decide +kernel, rfl⟩)
    (.inl ⟨2, earlySnapshot, by decide +kernel, rfl⟩) rfl).2⟩

end Rafter
