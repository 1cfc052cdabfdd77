import Rafter.Conduct.Pushes
import Rafter.Refinement.Lifecycle

/-!
# Sending refines the protocol

The functions of `Node/Send.lean`. A push takes no protocol action: it changes progress rows, but
never a match index, and every frame and chunk directive it emits is true of the leader's log.

Results:

* `NodeOk.pushes`.
-/

namespace Rafter

open Protocol

variable {initial : MembershipConfig} {s : Ghost} {i : NodeId} {n : Node}
variable (hI : (raftScheme initial).Inv s) (h : NodeOk initial i s n)

/-! ## Frames and chunks -/

include hI h in
theorem NodeOk.frame_ok (hr : n.role = .leader) (r : NodeId) {next : ℕ} {entries : List LogEntry}
    (hentries : entries <+: (s.log i).drop (next - 1)) :
    OutputOk initial i s (n.appendEntriesMessage r next entries) := by
  obtain ⟨d, hd, hn, hlog⟩ := h.exists_lead hI hr
  refine ⟨d, hd, hn, ?_⟩
  dsimp only
  have hframe : ∀ t, termOf (s.log i) (next - 1) = some t → FrameOk s d.log
      { term := n.currentTerm, leaderId := n.id, prevLogIndex := next - 1, prevLogTerm := t
        sequence := n.leader.heartbeatSequence, entries := entries
        leaderCommit := n.commitIndex } := by
    intro t ht
    rw [hlog]
    have hle : next - 1 + entries.length ≤ (s.log i).length := by
      have hprev := le_of_termOf_eq_some ht
      have hlength := hentries.length_le
      rw [List.length_drop] at hlength
      omega
    exact ⟨hle, ht, List.prefix_iff_eq_take.1 hentries, h.rep.commit_le, h.commit,
      fun q p e e' hqp hp => (h.leader hr).discipline q p e e' hqp (hp.trans_le hle)⟩
  cases ht : n.termAt (next - 1) with
  | some t => exact .inr (hframe t (h.rep.termOf_of_termAt ht))
  | none =>
    rcases Nat.eq_zero_or_pos (next - 1) with h0 | hpos
    · exact .inr (hframe 0 (by rw [h0, termOf_zero]))
    · exact .inl ⟨rfl, hpos⟩

include hI h in
theorem NodeOk.chunk_ok (hr : n.role = .leader) (r : NodeId) {snapshot : RaftSnapshot}
    (hs : n.persistent.snapshot = some snapshot) :
    OutputOk initial i s (n.installSnapshotChunkTo r snapshot) := by
  obtain ⟨d, hd, hn, hlog⟩ := h.exists_lead hI hr
  obtain ⟨hdesc, hhard, htotal⟩ := h.rep.snapshot snapshot hs
  have hoff : n.snapshotSendOffset r snapshot.applicationPayloadLen ≤
      snapshot.applicationPayloadLen := min_le_right _ _
  set off := n.snapshotSendOffset r snapshot.applicationPayloadLen
  have hlen : Node.snapshotChunkLen snapshot.applicationPayloadLen off ≤
      snapshot.applicationPayloadLen - off := min_le_left _ _
  refine ⟨h.id, ⟨d, hd, hn, by rw [hlog]; exact hdesc, ?_⟩, hhard, htotal, rfl, ?_, rfl, ?_⟩
  · rw [hlog]
    refine h.commit.of_isPrefix (List.take_prefix_take_left ?_)
    rw [← Node.snapshotIndex_eq hs]
    exact h.rep.snapshot_le.trans h.rep.dispatched_le
  · show off + Node.snapshotChunkLen snapshot.applicationPayloadLen off ≤
      snapshot.applicationPayloadLen
    omega
  · -- an empty chunk ends the payload
    intro hdone
    have hne : off + Node.snapshotChunkLen snapshot.applicationPayloadLen off ≠
        snapshot.applicationPayloadLen := by simpa using hdone
    show 0 < Node.snapshotChunkLen snapshot.applicationPayloadLen off
    rw [Node.snapshotChunkLen] at hne ⊢
    have : 0 < Node.installSnapshotChunkBytes := by decide
    omega

/-- A node with a progress row leads. -/
theorem NodeOk.role_of_get (h : NodeOk initial i s n) {v : NodeId} {row : Progress}
    (hrow : n.leader.progress.get v = some row) : n.role = .leader := by
  by_contra hr
  rw [h.progress hr] at hrow
  exact absurd hrow (by
    simp [ProgressSet.get, show (default : ProgressSet).index.slot v = none from rfl])

/-! ## Pushes -/

include hI h in
/-- A push takes no protocol action, and what it emits is true. -/
theorem NodeOk.push {l : List Output} {m : Node} (hpush : Node.Push n l m) :
    NodeOk initial i s m ∧ ∀ x ∈ l, OutputOk initial i s x := by
  cases hpush with
  | row v f _ hmatch => exact ⟨h.modifyProgress_of_eq hmatch, by simp⟩
  | @frame v row entries hrow hlow hentries =>
    refine ⟨h, fun x hx => ?_⟩
    obtain rfl := List.mem_singleton.1 hx
    have hdrop : n.persistent.log.drop (row.nextIndex - 1 - n.snapshotIndex) =
        (s.log i).drop (row.nextIndex - 1) := by
      rw [h.rep.log, List.drop_drop]
      congr 1
      omega
    rw [hdrop] at hentries
    exact h.frame_ok hI (h.role_of_get hrow) v hentries
  | @chunk v row snapshot hrow hsnapshot =>
    refine ⟨h, fun x hx => ?_⟩
    obtain rfl := List.mem_singleton.1 hx
    exact h.chunk_ok hI (h.role_of_get hrow) v hsnapshot

include hI h in
theorem NodeOk.pushes {o : Outcome} (hpushes : n.Pushes o) : Reaches initial i s o := by
  have hall := Path.history
    (P := fun past m => NodeOk initial i s m ∧ ∀ x ∈ past, OutputOk initial i s x) ?_ hpushes
    (p := []) ⟨h, by simp⟩
  · exact ⟨s, .refl, hall.1, hall.2⟩
  · intro m l m' hpush past hm
    obtain ⟨hm', hl⟩ := hm.1.push hI hpush
    refine ⟨hm', fun x hx => ?_⟩
    rcases List.mem_append.1 hx with hx | hx
    · exact hm.2 x hx
    · exact hl x hx

end Rafter
