import Rafter.Node.SnapshotReceive
import Rafter.Refinement.Receive

/-!
# Receiving snapshots refines the protocol

The functions of `Node/SnapshotReceive.lean`. A snapshot above the commit index stands for a
committed prefix of the leader's log: installing it is the protocol's `adopt` of that prefix, or
nothing when the node's own log already has it. Every successful reply reports an index at or
below the commit index, which the node shares with the leader.

Results:

* `NodeOk.ack_committed`, `NodeOk.installSnapshotState`.
-/

namespace Rafter

open Protocol

variable {initial : MembershipConfig} {s : Ghost} {i : NodeId} {n : Node}

/-! ## Replies -/

variable {d : Leadership NodeId LogEntry}

/-- A node acknowledges any committed index to the leader of its term. -/
theorem NodeOk.ack_committed (hI : (raftScheme initial).Inv s) (h : NodeOk initial i s n) {k : ℕ}
    (hd : s.lead n.currentTerm = some d) (hk : k ≤ n.commitIndex) :
    ∃ s', (raftScheme initial).Steps i s s' ∧ NodeOk initial i s' n ∧
      s'.acks i n.currentTerm k := by
  have hpre := h.commit.prefix_lead hI hd
  have hlen : ((s.log i).take n.commitIndex).length = n.commitIndex := by
    rw [List.length_take, min_eq_left h.rep.commit_le]
  have hkd : k ≤ d.log.length := hk.trans (hlen ▸ hpre.length_le)
  have htake : d.log.take k = (s.log i).take k := by
    rw [take_eq_of_isPrefix hpre (by omega), List.take_take, min_eq_left hk]
  obtain ⟨s', hs, -, -, h', hack⟩ := h.ack hI hd hkd (by rw [htake]; exact List.take_prefix ..)
  exact ⟨s', hs, h', hack⟩

/-! ## Installation -/

/-- The snapshot stands for a committed prefix of the leader's log. -/
theorem NodeOk.installSnapshotState (hI : (raftScheme initial).Inv s) (h : NodeOk initial i s n)
    (hr : n.role = .follower) (snapshot : RaftSnapshot) (hd : s.lead n.currentTerm = some d)
    (hdesc : SnapshotDescribes initial d.log snapshot.metadata)
    (hcp : CommittedPrefix s n.currentTerm (d.log.take snapshot.metadata.lastIncludedIndex))
    (hhard : snapshot.metadata.hardStateTerm ≤ n.currentTerm)
    (hlen : snapshot.applicationPayloadLen ≤ u64Max)
    (hb : n.commitIndex < snapshot.metadata.lastIncludedIndex) :
    ∃ s', (raftScheme initial).Steps i s s' ∧ s'.lead = s.lead ∧
      NodeOk initial i s' (n.installSnapshotState snapshot).node := by
  set b := snapshot.metadata.lastIncludedIndex with hbdef
  have hvg := hI.log_valid i
  have hvl := (hI.lead hd).valid
  have hmatch : termOf (s.log i) b = some snapshot.metadata.lastIncludedTerm →
      (s.log i).take b = d.log.take b := fun hm => take_eq_of_termOf_eq hvg hvl hm hdesc.term
  have hrep := h.rep.installSnapshotState hdesc hhard hlen hb hmatch
  -- in either case some state has the represented log, agreeing with the leader up to the boundary
  obtain ⟨s', hs, hlog, hlead, hterm, hvotes, hcommits⟩ : ∃ s',
      (raftScheme initial).Steps i s s' ∧
      s'.log i = (if termOf (s.log i) b = some snapshot.metadata.lastIncludedTerm then s.log i
        else d.log.take b) ∧ s'.lead = s.lead ∧ s'.term = s.term ∧ s'.votes = s.votes ∧
      s'.commits = s.commits := by
    by_cases hm : termOf (s.log i) b = some snapshot.metadata.lastIncludedTerm
    · exact ⟨s, .refl, by rw [if_pos hm], rfl, rfl, rfl, rfl⟩
    · have hnp : ¬ d.log.take b <+: s.log i := by
        intro hp
        refine hm (termOf_of_isPrefix hp ?_)
        rw [termOf_take le_rfl, hdesc.term]
      have hstep := Scheme.Step.adopt (S := raftScheme initial) i n.currentTerm d b hd h.term hnp
      exact ⟨_, .single hstep, by simp [if_neg hm], rfl, rfl, rfl, rfl⟩
  have hex := (hI.steps hs).2.1
  have htake : (s'.log i).take b = d.log.take b := by
    rw [hlog]
    split_ifs with hm
    · exact hmatch hm
    · rw [List.take_take, min_self]
  have hcommit : (n.installSnapshotState snapshot).node.commitIndex = b := max_eq_right hb.le
  have hrole : (n.installSnapshotState snapshot).node.role = .follower := hr
  refine ⟨s', hs, hlead, h.id, by rw [hterm]; exact h.term, by rw [hlog]; exact hrep, ?_, ?_,
    fun hr' => absurd (hrole.symm.trans hr') (by simp),
    fun hr' => absurd (hrole.symm.trans hr') (by simp),
    fun _ => h.progress (by rw [hr]; simp)⟩
  · rw [hcommit, htake]
    exact hcp.mono hI hex le_rfl
  · rw [hvotes]
    exact h.vote

/-! ## One chunk -/

/-- What a directive resolves to. -/
theorem SnapshotChunkSend.resolve_eq_some {c : SnapshotChunkSend} {bytes : Payload}
    {m : InstallSnapshotChunk} (h : c.resolve bytes = some m) :
    bytes.length = c.len ∧ m =
      { term := c.term, leaderId := c.leaderId, transferId := c.transferId, metadata := c.metadata
        totalPayloadLen := c.totalPayloadLen, applicationPayloadCrc32 := c.applicationPayloadCrc32
        offset := c.offset, chunk := bytes, done := c.done } := by
  unfold SnapshotChunkSend.resolve at h
  split_ifs at h with hlen
  exact ⟨not_not.1 hlen, (Option.some_inj.1 h).symm⟩

end Rafter
