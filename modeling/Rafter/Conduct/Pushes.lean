import Rafter.Node.Response
import Rafter.Protocol.Trace

/-!
# Pushes

A leader that replicates to a follower changes nothing but the follower's row, and never its match
index. A frame follows the row's next index and carries entries of the log from there: batches are
parts of the log, whether they come from the cache of a broadcast or not.

Results:

* `Node.replicateToFollowerFresh_sends`, `Node.broadcastLoop_pushes`: what goes to one follower, and
  to all of them, is a path of pushes.
-/

namespace Rafter

open Protocol

/-! ## Progress rows -/

/-- An update of a follower's row by a leader with snapshot boundary `s` and last index `last`. -/
inductive RowStep (s last : ℕ) : Progress → Progress → Prop
  | probe (row : Progress) : RowStep s last row
      { row with nextIndex := max row.nextIndex (s + 1), mode := .probe true }
  | fill (row : Progress) (k bytes : ℕ) (hnext : row.nextIndex ≤ k) (hlast : k ≤ last) :
    RowStep s last row
      { row with inflights := row.inflights.record k bytes, nextIndex := k + 1 }
  | enter (row : Progress) : RowStep s last row (Node.enterSnapshotMode s row)
  | accept (row : Progress) (k : ℕ) (hk : k ≤ last) : RowStep s last row (Node.acceptRow k s row)
  | collapse (row : Progress) : RowStep s last row (row.collapseIntoProbe s)
  | installed (row : Progress) (k : ℕ) (hk : k ≤ last) :
    RowStep s last row (Node.installedRow k row)

namespace Node

variable {n m : Node} {cache : LogBatchCache}
variable {o : Outcome} {v : NodeId}

/-! ## Batches -/

/-- The batch asked for at `first` is a part of the log from there. -/
structure Slice (n : Node) (first : ℕ) (batch : LogBatch) : Prop where
  first : batch.firstIndex = max first (n.snapshotIndex + 1)
  last : batch.firstIndex ≤ batch.lastIndex
  le : batch.lastIndex ≤ n.lastLogIndex
  entries : batch.entries <+: n.persistent.log.drop (batch.firstIndex - 1 - n.snapshotIndex)

theorem slice_of_logBatch {first maxBytes : ℕ} {batch : LogBatch}
    (h : n.logBatchFromBounded first maxBytes = some batch) : n.Slice first batch := by
  unfold logBatchFromBounded at h
  dsimp only at h
  split_ifs at h with hbound hempty
  obtain rfl := Option.some_inj.1 h
  obtain ⟨k, hk, hle⟩ := takeBatch_eq maxBytes (n.persistent.log.drop
    (max first n.firstRetainedLogIndex - n.firstRetainedLogIndex)) [] 0
  have hlength := congrArg List.length hk
  rw [List.nil_append, List.length_take_of_le hle] at hlength
  rw [List.length_drop] at hle
  refine ⟨rfl, Nat.le_add_right _ _, ?_, ?_⟩
  · unfold lastLogIndex
    unfold firstRetainedLogIndex at *
    dsimp only
    omega
  · have hoffset : max first n.firstRetainedLogIndex - 1 - n.snapshotIndex =
        max first n.firstRetainedLogIndex - n.firstRetainedLogIndex := by
      rw [firstRetainedLogIndex, Nat.sub_sub, Nat.add_comm]
    dsimp only
    rw [hk, List.nil_append, hoffset]
    exact List.take_prefix k _

/-- The cached batches are parts of the log. -/
def Slices (n : Node) (cache : LogBatchCache) : Prop :=
  ∀ cached ∈ cache, n.Slice cached.firstIndex cached.batch

theorem slices_nil (n : Node) : n.Slices [] := by
  intro cached hmem
  cases hmem

theorem Slices.of_progress (h : n.Slices cache)
    (hnode : ∃ progress, m = { n with leader.progress := progress }) : m.Slices cache := by
  obtain ⟨progress, rfl⟩ := hnode
  intro cached hmem
  have hslice := h cached hmem
  exact ⟨hslice.first, hslice.last, hslice.le, hslice.entries⟩

theorem Slices.cached (h : n.Slices cache) (first maxBytes : ℕ) :
    n.Slices (n.logBatchFromBoundedCached first maxBytes cache).2 ∧
      ∀ batch, (n.logBatchFromBoundedCached first maxBytes cache).1 = some batch →
        n.Slice first batch :=
  logBatchFromBoundedCached_forall (P := n.Slice) h fun _ hbatch => slice_of_logBatch hbatch

/-! ## Pushes -/

/-- One part of replicating: the update of a row, a frame or a chunk of the snapshot. -/
inductive Push : Node → List Output → Node → Prop
  | row (n : Node) (v : NodeId) (f : Progress → Progress)
    (hf : ∀ row, n.leader.progress.get v = some row →
      RowStep n.snapshotIndex n.lastLogIndex row (f row))
    (hmatch : ∀ row, (f row).matchIndex = row.matchIndex) : Push n [] (n.modifyProgress v f)
  | frame {n : Node} {v : NodeId} {row : Progress} {entries : List LogEntry}
    (hrow : n.leader.progress.get v = some row) (hlow : n.snapshotIndex < row.nextIndex)
    (hentries : entries <+: n.persistent.log.drop (row.nextIndex - 1 - n.snapshotIndex)) :
    Push n [n.appendEntriesMessage v row.nextIndex entries] n
  | chunk {n : Node} {v : NodeId} {row : Progress} {snapshot : RaftSnapshot}
    (hrow : n.leader.progress.get v = some row)
    (hsnapshot : n.persistent.snapshot = some snapshot) :
    Push n [n.installSnapshotChunkTo v snapshot] n

/-- A transition that only replicates. -/
def Pushes (n : Node) (o : Outcome) : Prop := Path Push n o.outputs o.node

theorem Pushes.refl (n : Node) : n.Pushes ⟨n, []⟩ := Protocol.Path.refl n

theorem Pushes.andThen {f : Node → Outcome} (h : n.Pushes o) (hf : o.node.Pushes (f o.node)) :
    n.Pushes (o.andThen f) :=
  Protocol.Path.trans h hf

variable {f : Progress → Progress} {l : List Output}

theorem Push.pushes (h : Push n l m) : n.Pushes ⟨m, l⟩ := Protocol.Path.single h

theorem Push.node (h : Push n l m) :
    ∃ progress, m = { n with leader.progress := progress } := by
  cases h with
  | row => exact ⟨_, rfl⟩
  | frame | chunk => exact ⟨n.leader.progress, rfl⟩

/-- Pushes change nothing but rows. -/
theorem Pushes.node (h : n.Pushes o) :
    ∃ progress, o.node = { n with leader.progress := progress } := by
  refine Protocol.Path.invariant (I := fun m => ∃ progress,
    m = { n with leader.progress := progress })
    ?_ h ⟨n.leader.progress, rfl⟩
  rintro _ _ _ hpush ⟨progress, rfl⟩
  exact hpush.node

theorem matchIndexOf_modify (s : ProgressSet) (v w : NodeId)
    (hf : ∀ row, (f row).matchIndex = row.matchIndex) :
    (s.modify v f).matchIndexOf w = s.matchIndexOf w := by
  unfold ProgressSet.matchIndexOf
  rw [ProgressSet.get_modify]
  split_ifs with hw
  · subst hw
    cases s.get w with
    | none => rfl
    | some row => exact hf row
  · rfl

/-- Pushes move no match index. -/
theorem Pushes.matchIndexOf (h : n.Pushes o) (w : NodeId) :
    o.node.leader.progress.matchIndexOf w = n.leader.progress.matchIndexOf w := by
  refine Protocol.Path.invariant (I := fun m => m.leader.progress.matchIndexOf w =
    n.leader.progress.matchIndexOf w) ?_ h rfl
  intro _ _ _ hpush hm
  cases hpush with
  | row v f _ hmatch => exact (matchIndexOf_modify _ v w hmatch).trans hm
  | frame => exact hm
  | chunk => exact hm

/-! ## One follower -/

/-- A transition that only replicates, and leaves a cache of parts of the log. -/
structure Sends (n : Node) (o : CachedOutcome) : Prop where
  pushes : n.Pushes o.outcome
  cache : n.Slices o.cache

theorem Sends.refl (h : n.Slices cache) : n.Sends ⟨⟨n, []⟩, cache⟩ := ⟨.refl n, h⟩

/-- The row of `v` is above the snapshot boundary. -/
def Above (n : Node) (v : NodeId) : Prop :=
  ∀ row, n.leader.progress.get v = some row → n.snapshotIndex < row.nextIndex

theorem forall_get_modifyProgress {P : Progress → Prop} (hf : ∀ row, P (f row)) :
    ∀ row, (n.modifyProgress v f).leader.progress.get v = some row →
      P row := by
  intro row hrow
  rw [modifyProgress, ProgressSet.get_modify, if_pos rfl] at hrow
  obtain ⟨row₀, -, rfl⟩ := Option.map_eq_some_iff.1 hrow
  exact hf row₀

theorem sendEmptyAppendToProgressNext_pushes (h : n.Above v) :
    n.Pushes (n.sendEmptyAppendToProgressNext v) := by
  unfold sendEmptyAppendToProgressNext
  cases hrow : n.leader.progress.get v with
  | none => exact .refl n
  | some row => exact (Push.frame hrow (h row hrow) List.nil_prefix).pushes

theorem replicateSnapshotToFollower_pushes {row : Progress}
    (hrow : n.leader.progress.get v = some row) : n.Pushes (n.replicateSnapshotToFollower v) := by
  unfold replicateSnapshotToFollower
  cases hsnapshot : n.persistent.snapshot with
  | none => exact .refl n
  | some snapshot => exact (Push.chunk hrow hsnapshot).pushes

theorem replicateProbeToFollower_sends (h : n.Above v) (awaiting : Bool)
    (demand : ReplicationDemand) (hcache : n.Slices cache) :
    n.Sends (n.replicateProbeToFollower v awaiting demand n.snapshotIndex cache) := by
  unfold replicateProbeToFollower
  split_ifs
  · exact ⟨sendEmptyAppendToProgressNext_pushes h, hcache⟩
  · exact .refl hcache
  · cases hrow : n.leader.progress.get v with
    | none => exact .refl hcache
    | some row =>
      dsimp only
      have hmax : max row.nextIndex (n.snapshotIndex + 1) = row.nextIndex :=
        max_eq_left (h row hrow)
      obtain ⟨hcache', hbatch⟩ := hcache.cached (max row.nextIndex (n.snapshotIndex + 1))
        n.config.maxAppendEntriesBytes
      refine ⟨?_, hcache'⟩
      have hprobe : Push n [] (n.modifyProgress v fun row' => { row' with
          nextIndex := max row.nextIndex (n.snapshotIndex + 1), mode := .probe true }) := by
        refine .row n v _ (fun row' hrow' => ?_) fun _ => rfl
        obtain rfl := Option.some_inj.1 (hrow.symm.trans hrow')
        exact .probe row
      refine Pushes.andThen (o := ⟨n, [_]⟩) (f := fun _ => ⟨_, []⟩) ?_ hprobe.pushes
      rw [hmax] at hbatch ⊢
      refine (Push.frame hrow (h row hrow) ?_).pushes
      split
      · rename_i batch hb
        have hslice := hbatch batch hb
        rw [← hmax, ← hslice.first]
        exact hslice.entries
      · exact List.nil_prefix

/-- The loop sends the log from the next index on, batch by batch. By induction on its turns. -/
theorem fillLoop_sends (last fuel : ℕ) (h : n.Above v) (hcache : n.Slices cache) :
    n.Sends (fillLoop v last fuel n cache).1 ∧
      (fillLoop v last fuel n cache).1.outcome.node.Above v := by
  induction fuel generalizing n cache with
  | zero => exact ⟨.refl hcache, h⟩
  | succ fuel ih =>
    rw [fillLoop]
    cases hrow : n.leader.progress.get v with
    | none => exact ⟨.refl hcache, h⟩
    | some row =>
      dsimp only
      split_ifs
      · exact ⟨.refl hcache, h⟩
      · obtain ⟨hcache', hbatch⟩ := hcache.cached row.nextIndex n.config.maxAppendEntriesBytes
        rcases hb : n.logBatchFromBoundedCached row.nextIndex n.config.maxAppendEntriesBytes cache
          with ⟨_ | b, cache'⟩
        · rw [hb] at hcache'
          exact ⟨.refl hcache', h⟩
        · rw [hb] at hcache' hbatch
          dsimp only
          have hslice := hbatch b rfl
          have hfirst : b.firstIndex = row.nextIndex := hslice.first.trans
            (max_eq_left (h row hrow))
          have hlast := hslice.last
          have hpast : n.snapshotIndex < b.lastIndex + 1 := by
            have := h row hrow
            omega
          have hfill : Push n [] (n.modifyProgress v fun row => { row with
              inflights := row.inflights.record b.lastIndex b.replicationBytes
              nextIndex := b.lastIndex + 1 }) := by
            refine .row n v _ (fun row' hrow' => ?_) fun _ => rfl
            obtain rfl := Option.some_inj.1 (hrow.symm.trans hrow')
            exact .fill row b.lastIndex b.replicationBytes (by omega) hslice.le
          obtain ⟨hrest, habove⟩ := ih
            (forall_get_modifyProgress (P := (n.snapshotIndex < ·.nextIndex)) fun _ => hpast)
            (hcache'.of_progress hfill.node)
          have hframe : Push n [n.appendEntriesMessage v b.firstIndex b.entries] n := by
            have hentries := hslice.entries
            rw [hfirst] at hentries ⊢
            exact .frame hrow (h row hrow) hentries
          refine ⟨⟨?_, hrest.cache.of_progress ⟨n.leader.progress, rfl⟩⟩, habove⟩
          exact hframe.pushes.andThen (f := fun _ => _) (Path.head hfill hrest.pushes)

theorem fillReplicationWindow_sends (h : n.Above v) (demand : ReplicationDemand) (last : ℕ)
    (hcache : n.Slices cache) : n.Sends (n.fillReplicationWindow v demand last cache) := by
  obtain ⟨hfill, habove⟩ := fillLoop_sends last (last + 1) h hcache
  unfold fillReplicationWindow
  dsimp only
  split_ifs
  · exact ⟨hfill.pushes.andThen (sendEmptyAppendToProgressNext_pushes habove), hfill.cache⟩
  · exact hfill

/-- A row outside snapshot mode is above the boundary. -/
theorem enterSnapshotMode_cases (s : ℕ) (row : Progress) :
    (∃ offset, (enterSnapshotMode s row).mode = .snapshot offset) ∨
      s < (enterSnapshotMode s row).nextIndex := by
  unfold enterSnapshotMode
  split
  · rename_i offset hmode
    exact .inl ⟨offset, hmode⟩
  · split_ifs with hle
    · exact .inl ⟨0, rfl⟩
    · exact .inr (not_le.1 hle)

theorem replicateToFollowerFresh_sends (v : NodeId) (demand : ReplicationDemand)
    (hcache : n.Slices cache) : n.Sends (n.replicateToFollowerFresh v demand cache) := by
  unfold replicateToFollowerFresh
  split_ifs
  · exact .refl hcache
  dsimp only
  have henter : Push n [] (n.modifyProgress v (enterSnapshotMode n.snapshotIndex)) :=
    .row n v _ (fun row _ => .enter row) (matchIndex_enterSnapshotMode _)
  have hentered := forall_get_modifyProgress (n := n) (v := v)
    (P := fun row => (∃ offset, row.mode = .snapshot offset) ∨ n.snapshotIndex < row.nextIndex)
    (enterSnapshotMode_cases n.snapshotIndex)
  have hcache' := hcache.of_progress henter.node
  -- a result about the updated node is one about the node
  have hback : ∀ {o}, (n.modifyProgress v (enterSnapshotMode n.snapshotIndex)).Sends o →
      n.Sends o := fun h => ⟨Path.head henter h.pushes, h.cache.of_progress ⟨_, rfl⟩⟩
  cases hrow : (n.modifyProgress v (enterSnapshotMode n.snapshotIndex)).leader.progress.get v with
  | none => exact hback (.refl hcache')
  | some row =>
    dsimp only
    have habove : (∀ offset, row.mode ≠ .snapshot offset) →
        (n.modifyProgress v (enterSnapshotMode n.snapshotIndex)).Above v := by
      intro hne row' hrow'
      obtain rfl := Option.some_inj.1 (hrow.symm.trans hrow')
      rcases hentered row hrow with ⟨offset, hoffset⟩ | hlt
      · exact absurd hoffset (hne offset)
      · exact hlt
    split
    · exact hback ⟨replicateSnapshotToFollower_pushes hrow, hcache'⟩
    · rename_i awaiting hmode
      exact hback (replicateProbeToFollower_sends
        (habove (by simp [hmode])) awaiting demand hcache')
    · rename_i hmode
      exact hback (fillReplicationWindow_sends (habove (by simp [hmode])) demand _ hcache')

/-! ## All followers -/

/-- By induction on the replicas still to be served. -/
theorem broadcastLoop_pushes (demand : ReplicationDemand) (vs : List NodeId)
    (hcache : n.Slices cache) : n.Pushes (broadcastLoop demand vs n cache) := by
  induction vs generalizing n cache with
  | nil => exact .refl n
  | cons v vs ih =>
    rw [broadcastLoop]
    split_ifs
    · exact ih hcache
    · have hsends := replicateToFollowerFresh_sends v demand hcache
      exact hsends.pushes.andThen (ih (hsends.cache.of_progress hsends.pushes.node))

/-- After its rows are reconciled, a leader sends by pushes alone. -/
theorem replicateToFollower_pushes (n : Node) (v : NodeId) (demand : ReplicationDemand) :
    n.reconcileReplicationProgress.Pushes (n.replicateToFollower v demand) :=
  (replicateToFollowerFresh_sends v demand (slices_nil _)).pushes

end Node

end Rafter
