import Rafter.Conduct.Quorums

/-!
# Replication frames

What a follower does with an `AppendEntries`, whoever sent it.

Results:

* `Node.handleAppendEntries_frame`: the log and the commit index after any frame;
* `Node.handleAppendEntries_spec`: the same of a release build, for frames within the range of
  `u64`.
-/

namespace Rafter

namespace Node

variable {n : Node}
variable {entries : List LogEntry} {i prev : ℕ}

/-- Two positions cannot both be the first. -/
theorem DivergesAt.unique {j : ℕ} (hi : n.DivergesAt prev entries i)
    (hj : n.DivergesAt prev entries j) : i = j := by
  rcases lt_trichotomy i j with hlt | heq | hgt
  · exact absurd (hj.2.1 i hlt) hi.2.2
  · exact heq
  · exact absurd (hi.2.1 j hgt) hj.2.2

/-! ## The splice -/

/-- The log after a splice: as it was, or cut before the first divergence and continued from the
frame. -/
def splicedLog (n : Node) (prev i : ℕ) (entries : List LogEntry) : List LogEntry :=
  n.persistent.log.take (prev + i - n.snapshotIndex) ++ entries.drop i

variable {o : Outcome} {leaderId : NodeId} {request : AppendEntries}

/-! ## The handler -/

/-- What the answer to a frame says of the log and of the commit index. -/
structure FrameHandled (n : Node) (leaderId : NodeId) (request : AppendEntries) (o : Outcome) :
    Prop where
  snapshot : o.node.persistent.snapshot = n.persistent.snapshot
  committed : ∀ k ≤ n.commitIndex, o.node.entryAt k = n.entryAt k
  answer : ∃ response, o.outputs.getLast? = some
    (.send leaderId (.appendEntriesResponse response)) ∧
    (response.success = false → o.node.persistent.log = n.persistent.log ∧
      o.node.commitIndex = n.commitIndex ∧ o.node.dispatchedIndex = n.dispatchedIndex) ∧
    (response.success = true →
      ((∀ i, n.Agrees request.prevLogIndex request.entries i) →
        o.node.persistent.log = n.persistent.log) ∧
      (∀ i, n.DivergesAt request.prevLogIndex request.entries i →
        o.node.persistent.log = n.splicedLog request.prevLogIndex i request.entries) ∧
      o.node.commitIndex =
        max n.commitIndex (min request.leaderCommit
          (request.prevLogIndex + request.entries.length)))

/-- A refusal that leaves the log and the cursors alone. -/
theorem frameHandled_of_refused {m : Node} (before : List Output)
    (hsnapshot : m.persistent.snapshot = n.persistent.snapshot)
    (hlog : m.persistent.log = n.persistent.log) (hcommit : m.commitIndex = n.commitIndex)
    (hdispatched : m.dispatchedIndex = n.dispatchedIndex) :
    n.FrameHandled leaderId request
      ⟨m, before ++ [m.rejectAppendEntries leaderId request.sequence]⟩ where
  snapshot := hsnapshot
  committed k _ := entryAt_congr hsnapshot hlog k
  answer := by
    refine ⟨_, List.getLast?_concat .., fun _ => ⟨hlog, hcommit, hdispatched⟩, fun h => ?_⟩
    exact absurd h (by simp)

/-- Adopting the leader's commit index leaves the log alone. -/
theorem adoptLeaderCommit_spec (n : Node) (leaderCommit confirmed : ℕ) :
    (n.adoptLeaderCommit leaderCommit confirmed).node.persistent.log = n.persistent.log ∧
      (n.adoptLeaderCommit leaderCommit confirmed).node.persistent.snapshot
        = n.persistent.snapshot ∧
      (n.adoptLeaderCommit leaderCommit confirmed).node.commitIndex =
        if n.commitIndex < leaderCommit then confirmed else n.commitIndex := by
  unfold adoptLeaderCommit
  split_ifs with hlt
  · have hkeeps := emitLoop_keeps (confirmed - n.dispatchedIndex)
      { n with volatile.commitIndex := confirmed }
    exact ⟨hkeeps.log, hkeeps.snapshot, hkeeps.commit⟩
  · exact ⟨rfl, rfl, rfl⟩

/-- A frame of the node's own term, after the role change. -/
theorem appendAsFollower_handled (hn : n.Sound) (leaderId : NodeId) (request : AppendEntries) :
    n.FrameHandled leaderId request (n.appendAsFollower leaderId request) := by
  unfold appendAsFollower appendAsFollowerBy
  dsimp only
  split_ifs with hprev
  · exact frameHandled_of_refused [] rfl rfl rfl rfl
  rw [not_not] at hprev
  set m : Node := { n with election.elapsed := 0, volatile.leaderHint := some leaderId } with hm
  have hsome : (m.termAt request.prevLogIndex).isSome := by rw [hprev]; rfl
  set matchIndex := requestMatchIndex request.prevLogIndex request.entries.length with hmatch
  cases hsplice : m.spliceEntriesAfter request.prevLogIndex request.entries
      (m.confirmedCommitIndex request matchIndex) with
  | error rejection => exact frameHandled_of_refused [] rfl rfl rfl rfl
  | ok spliced =>
    dsimp only
    obtain ⟨f, rest, hspliced, -, hwhere⟩ := spliced_of_ok hsome hsplice
    have hfloor : n.commitIndex ≤ f := by
      have hmin := hspliced.committed
      rwa [min_eq_left (show m.commitIndex ≤ m.lastLogIndex from hn.commit_le)] at hmin
    obtain ⟨tracker, configuration, hnode, -⟩ := hspliced.node
    have hsnapshot : spliced.node.persistent.snapshot = n.persistent.snapshot := by rw [hnode]
    have hcommit : spliced.node.commitIndex = n.commitIndex := by rw [hnode]; rfl
    obtain ⟨hlog', hsnapshot', hcommit'⟩ := spliced.node.adoptLeaderCommit_spec request.leaderCommit
      (m.confirmedCommitIndex request matchIndex)
    refine ⟨hsnapshot'.trans hsnapshot, fun k hk => ?_, _, List.getLast?_concat .., ?_, fun _ => ?_⟩
    · calc _ = spliced.node.entryAt k := entryAt_congr hsnapshot' hlog' k
        _ = m.entryAt k := hspliced.entryAt_eq (hk.trans hfloor)
    · exact fun h => absurd h (by simp)
    refine ⟨fun hall => ?_, fun i hi => ?_, ?_⟩
    · rcases hwhere with ⟨-, hsame⟩ | ⟨i, hdiverges, -⟩
      · exact hlog'.trans (by rw [hsame])
      · exact absurd (hall i) hdiverges.2.2
    · rcases hwhere with ⟨hall, -⟩ | ⟨j, hdiverges, rfl, rfl⟩
      · exact absurd (hall i) hi.2.2
      · obtain rfl : i = j := hi.unique hdiverges
        exact hlog'.trans (by rw [hnode]; rfl)
    · refine hcommit'.trans ?_
      rw [hcommit]
      show (if n.commitIndex < request.leaderCommit then
        max n.commitIndex (min request.leaderCommit matchIndex) else n.commitIndex) =
          max n.commitIndex (min request.leaderCommit matchIndex)
      split_ifs with hlt
      · rfl
      · omega

/-- The handler of a node that agrees on the log and the cursors, with outputs before. -/
theorem FrameHandled.of_adopted {m : Node} (h : m.FrameHandled leaderId request o)
    (hpersistent : m.persistent.log = n.persistent.log)
    (hsnapshot : m.persistent.snapshot = n.persistent.snapshot)
    (hcommit : m.commitIndex = n.commitIndex) (hdispatched : m.dispatchedIndex = n.dispatchedIndex)
    (before : List Output) : n.FrameHandled leaderId request ⟨o.node, before ++ o.outputs⟩ := by
  have hindex : m.snapshotIndex = n.snapshotIndex := by unfold snapshotIndex; rw [hsnapshot]
  have hterm : ∀ k, m.termAt k = n.termAt k := by
    intro k
    unfold termAt
    rw [hindex, hsnapshot, entryAt_congr hsnapshot hpersistent]
  have hagrees : ∀ i, m.Agrees request.prevLogIndex request.entries i ↔
      n.Agrees request.prevLogIndex request.entries i := by
    intro i
    unfold Agrees
    rw [hterm]
  obtain ⟨response, hlast, hrefused, haccepted⟩ := h.answer
  refine ⟨h.snapshot.trans hsnapshot, fun k hk => ?_, response, ?_, fun hfalse => ?_,
    fun htrue => ?_⟩
  · rw [h.committed k (hcommit ▸ hk), entryAt_congr hsnapshot hpersistent]
  · rw [List.getLast?_append, hlast]
    rfl
  · obtain ⟨hlog, hc, hd⟩ := hrefused hfalse
    exact ⟨hlog.trans hpersistent, hc.trans hcommit, hd.trans hdispatched⟩
  · obtain ⟨hsame, hcut, hc⟩ := haccepted htrue
    refine ⟨fun hall => ?_, fun i hi => ?_, by rw [hc, hcommit]⟩
    · exact (hsame fun i => (hagrees i).2 (hall i)).trans hpersistent
    · have hi' : m.DivergesAt request.prevLogIndex request.entries i :=
        ⟨hi.1, fun j hj => (hagrees j).2 (hi.2.1 j hj), fun h => hi.2.2 ((hagrees i).1 h)⟩
      rw [hcut i hi', splicedLog, hpersistent, hindex]
      rfl

/-- Whatever frame a node is given and whoever sent it: nothing at or below the commit index
changes; a refused frame leaves the log and both cursors as they are; an accepted one leaves the log
as it is when the log has every term of the frame, and otherwise makes it the old log below the
first index where they differ, then the frame's entries from there on; the commit index becomes the
leader's, as far as the frame reaches, and never less than it was. -/
theorem handleAppendEntries_frame (hn : n.Sound) (leaderId : NodeId) (request : AppendEntries) :
    n.FrameHandled leaderId request (n.handleAppendEntries leaderId request) := by
  unfold handleAppendEntries handleAppendEntriesBy
  split_ifs with hstale hadopt
  · exact frameHandled_of_refused [] rfl rfl rfl rfl
  · have hsound : (n.becomeFollower request.term).node.Sound :=
      hn.of_eq rfl rfl rfl rfl rfl
    exact (appendAsFollower_handled hsound leaderId request).of_adopted (n := n) rfl rfl rfl rfl _
  · exact (appendAsFollower_handled hn leaderId request).of_adopted rfl rfl rfl rfl []

/-! ## The sums of a release build -/

theorem findDivergenceWrapping_eq (h : i + entries.length ≤ u64Max + 1) :
    n.findDivergenceWrapping entries i = n.findDivergence entries i := by
  induction entries generalizing i with
  | nil => rfl
  | cons e rest ih =>
    rw [List.length_cons] at h
    rw [findDivergenceWrapping, findDivergence, wrapping_of_le (by omega), ih (by omega)]

theorem incomingConfigurationsWrapping_eq (h : i + entries.length ≤ u64Max + 1) (floor : ℕ) :
    incomingConfigurationsWrapping entries i floor = incomingConfigurations entries i floor := by
  refine List.filterMap_congr fun ⟨entry, index⟩ hmem => ?_
  have hlt : index < i + entries.length := List.snd_lt_add_of_mem_zipIdx hmem
  dsimp only
  rw [wrapping_of_le (by omega)]

/-- No sum of the splice wraps when the frame ends within the range. -/
theorem spliceEntriesAfterWrapping_eq (hlast : n.lastLogIndex ≤ u64Max)
    (hprev : (n.termAt prev).isSome) (hreach : prev + entries.length ≤ u64Max) (floor : ℕ) :
    n.spliceEntriesAfterWrapping prev entries floor = n.spliceEntriesAfter prev entries floor := by
  have hboundary := (isSome_termAt.1 hprev).1
  unfold spliceEntriesAfterWrapping spliceEntriesAfter spliceFrom
  rw [findDivergenceWrapping_eq (by omega)]
  cases hd : n.findDivergence entries (prev + 1) with
  | error rejection => rfl
  | ok divergence =>
    rcases findDivergence_spec hd with ⟨rfl, -⟩ | ⟨i, rfl, ⟨hlt, -⟩, -⟩
    · rfl
    · dsimp only
      rw [incomingConfigurationsWrapping_eq (by rw [List.length_drop]; omega),
        lastLogIndexWrapping, wrapping_of_le hlast, wrapping_of_le (by omega)]

theorem handleAppendEntriesWrapping_eq (hlast : n.lastLogIndex ≤ u64Max)
    (hreach : request.prevLogIndex + request.entries.length ≤ u64Max) :
    n.handleAppendEntriesWrapping leaderId request = n.handleAppendEntries leaderId request := by
  have happend : ∀ m : Node, m.lastLogIndex ≤ u64Max →
      m.appendAsFollowerWrapping leaderId request = m.appendAsFollower leaderId request := by
    intro m hm
    unfold appendAsFollowerWrapping appendAsFollower appendAsFollowerBy
    dsimp only
    split_ifs with hprev
    · rfl
    rw [not_not] at hprev
    rw [requestMatchIndex, wrapping_of_le hreach,
      spliceEntriesAfterWrapping_eq
        (n := { m with election.elapsed := 0, volatile.leaderHint := some leaderId }) hm
        (Option.isSome_of_eq_some hprev) hreach]
  unfold handleAppendEntriesWrapping handleAppendEntries handleAppendEntriesBy
  split_ifs with hstale hadopt
  · rfl
  · rw [Outcome.andThen, Outcome.andThen, happend (n.becomeFollower request.term).node hlast]
  · rw [Outcome.andThen, Outcome.andThen, happend n hlast]

/-- Two entries and a commit index for the last two indexes of `u64` and the one after. -/
def overflowingFrame : AppendEntries where
  term := 1
  leaderId := 2
  prevLogIndex := u64Max - 1
  prevLogTerm := 1
  sequence := 7
  entries := [⟨1, .application [9]⟩, ⟨1, .application [9]⟩]
  leaderCommit := u64Max

end Node

end Rafter
