import Rafter.Conduct.Acts

/-!
# The order of a leader's rows

In every row of a follower the match index is below the next index, and the next index is at most
one past the leader's last index. All updates of a row keep this, stale acknowledgements and
rejections of frames included, but one: a snapshot response that refuses a transfer or leaves it
unfinished sends the row back to the boundary, whatever the follower has matched.

Results:

* `RowStep.ordered`: one update of a row;
* `Node.Act.rowsIn`: an act keeps what every update of a row keeps;
* `Node.Act.rowsOrdered`: so it keeps the order, if it does not take up a transfer to a follower
  that has matched the boundary.
-/

namespace Rafter

open Protocol

/-- A row of a leader with snapshot boundary `s` and last index `last`. A follower in snapshot mode
has not matched the boundary. -/
structure RowOrdered (s last : ℕ) (row : Progress) : Prop where
  lt : row.matchIndex < row.nextIndex
  le : row.nextIndex ≤ last + 1
  mode : ∀ offset, row.mode = .snapshot offset → row.matchIndex < s

variable {s last : ℕ} {row row' : Progress} {k : ℕ}

theorem RowOrdered.mono {s' last' : ℕ} (h : RowOrdered s last row) (hs : s ≤ s')
    (hlast : last ≤ last') : RowOrdered s' last' row where
  lt := h.lt
  le := h.le.trans (Nat.succ_le_succ hlast)
  mode offset hmode := (h.mode offset hmode).trans_le hs

theorem rowOrdered_probing (hpos : 0 < k) (hle : k ≤ last + 1) :
    RowOrdered s last (.probing k) where
  lt := hpos
  le := hle
  mode offset hmode := by simp [Progress.probing] at hmode

theorem RowOrdered.enterSnapshotMode (h : RowOrdered s last row) :
    RowOrdered s last (Node.enterSnapshotMode s row) := by
  unfold Node.enterSnapshotMode
  split
  · exact h
  · split_ifs with hle
    · exact ⟨h.lt, h.le, fun _ _ => h.lt.trans_le hle⟩
    · exact h

theorem confirmReplicating_spec (row : Progress) :
    row.confirmReplicating.matchIndex = row.matchIndex ∧
      row.confirmReplicating.mode = .replicate ∧
      row.nextIndex ≤ row.confirmReplicating.nextIndex ∧
      row.confirmReplicating.nextIndex ≤ max row.nextIndex (row.matchIndex + 1) := by
  unfold Progress.confirmReplicating
  split
  · rename_i hmode
    exact ⟨rfl, hmode, le_rfl, le_max_left _ _⟩
  · exact ⟨rfl, rfl, le_max_left _ _, le_rfl⟩

/-- A row confirmed at `k`, with the next index raised past it. -/
theorem rowOrdered_confirmed (hnext : row.nextIndex ≤ last + 1) (hk : k ≤ last)
    (hmatch : row.matchIndex = k) : RowOrdered s last { row.confirmReplicating with
      nextIndex := max row.confirmReplicating.nextIndex (k + 1) } := by
  obtain ⟨hm, hmode, -, hle⟩ := confirmReplicating_spec row
  refine ⟨?_, ?_, fun offset hsnapshot => ?_⟩
  · show row.confirmReplicating.matchIndex < max row.confirmReplicating.nextIndex (k + 1)
    omega
  · show max row.confirmReplicating.nextIndex (k + 1) ≤ last + 1
    omega
  · rw [show row.confirmReplicating.mode = .snapshot offset from hsnapshot] at hmode
    cases hmode

theorem RowOrdered.acceptRow (h : RowOrdered s last row) (hk : k ≤ last) :
    RowOrdered s last (Node.acceptRow k s row) := by
  have hlt := h.lt
  have hle := h.le
  have hack : max row.matchIndex k ≤ last := by omega
  unfold Node.acceptRow
  dsimp only
  split
  · rename_i offset hmode
    split_ifs with hcovered
    · exact rowOrdered_confirmed hle hack rfl
    · -- still below the boundary
      refine ⟨?_, ?_, fun _ _ => not_le.1 hcovered⟩
      · show max row.matchIndex k < max row.nextIndex (max row.matchIndex k + 1)
        omega
      · show max row.nextIndex (max row.matchIndex k + 1) ≤ last + 1
        omega
  · exact rowOrdered_confirmed hle hack rfl

theorem RowStep.ordered (h : RowStep s last row row') (hs : s ≤ last)
    (hrow : RowOrdered s last row) : RowOrdered s last row' := by
  have hlt := hrow.lt
  have hle := hrow.le
  cases h with
  | probe =>
    refine ⟨?_, ?_, fun offset hmode => by cases hmode⟩
    · show row.matchIndex < max row.nextIndex (s + 1)
      omega
    · show max row.nextIndex (s + 1) ≤ last + 1
      omega
  | fill k bytes hnext hlast =>
    refine ⟨?_, ?_, hrow.mode⟩
    · show row.matchIndex < k + 1
      omega
    · show k + 1 ≤ last + 1
      omega
  | enter => exact hrow.enterSnapshotMode
  | accept k hk => exact hrow.acceptRow hk
  | collapse =>
    refine ⟨?_, ?_, fun offset hmode => by cases hmode⟩
    · show row.matchIndex < max (row.nextIndex - 1) (max (row.matchIndex + 1) s)
      omega
    · show max (row.nextIndex - 1) (max (row.matchIndex + 1) s) ≤ last + 1
      omega
  | installed k hk =>
    have hack : max row.matchIndex k ≤ last := by omega
    have hnext : { row with matchIndex := max row.matchIndex k }.nextIndex ≤ last + 1 := hle
    exact rowOrdered_confirmed hnext hack rfl

/-- A property of a row of a leader with boundary `s` and last index `last`, which may tell the
leader's own row from the others, that rows start with and that every update but a resumed transfer
keeps. -/
structure RowRule (P : Prop → ℕ → ℕ → Progress → Prop) : Prop where
  mono : ∀ {own : Prop} {s s' last last' : ℕ} {row : Progress}, s ≤ s' → last ≤ last' →
    P own s last row → P own s' last' row
  probing : ∀ {own : Prop} {s last k : ℕ}, 0 < k → k ≤ last + 1 → P own s last (.probing k)
  ofLocal : ∀ {own : Prop} {s last : ℕ}, own → P own s last (.ofLocal last)
  floor : ∀ {own : Prop} {s last : ℕ} {row : Progress}, own → P own s last row →
    P own s last (row.applyLocalFloor last)
  record : ∀ {own : Prop} {s last : ℕ} (row : Progress), own →
    P own s last { row with matchIndex := last, nextIndex := last + 1 }
  step : ∀ {own : Prop} {s last : ℕ} {row row' : Progress}, s ≤ last → RowStep s last row row' →
    P own s last row → P own s last row'

/-- Followers have rows in order. -/
def FollowerOrdered (own : Prop) (s last : ℕ) (row : Progress) : Prop :=
  ¬ own → RowOrdered s last row

theorem rowRule_ordered : RowRule FollowerOrdered where
  mono hs hlast h hown := (h hown).mono hs hlast
  probing hpos hle _ := rowOrdered_probing hpos hle
  ofLocal hown hother := absurd hown hother
  floor hown _ hother := absurd hown hother
  record _ hown hother := absurd hown hother
  step hs hstep hrow hown := hstep.ordered hs (hrow hown)

namespace Node

variable {c : Occasion} {n n' : Node}

/-- The rows satisfy `P`, and only a leader has rows. -/
structure RowsIn (P : Prop → ℕ → ℕ → Progress → Prop) (n : Node) : Prop where
  rows : ∀ v row, n.leader.progress.get v = some row →
    P (v = n.id) n.snapshotIndex n.lastLogIndex row
  idle : n.role ≠ .leader → ∀ v, n.leader.progress.get v = none

variable {P : Prop → ℕ → ℕ → Progress → Prop}

theorem rowsIn_of_idle (h : ∀ v, n.leader.progress.get v = none) : n.RowsIn P where
  rows v row hrow := by
    rw [h v] at hrow
    cases hrow
  idle _ := h

theorem get_default (v : NodeId) : (default : ProgressSet).get v = none :=
  ProgressSet.get_eq_none fun h => by cases h

/-- The parts a property of rows is about. -/
theorem RowsIn.of_eq (hP : RowRule P) (h : n.RowsIn P) (hconfig : n'.config = n.config)
    (hsnapshot : n.snapshotIndex ≤ n'.snapshotIndex) (hlast : n.lastLogIndex ≤ n'.lastLogIndex)
    (hrole : n'.role = n.role) (hprogress : n'.leader.progress = n.leader.progress) :
    n'.RowsIn P where
  rows v row hrow := by
    rw [hprogress] at hrow
    have hid : n'.id = n.id := congrArg NodeConfig.id hconfig
    rw [hid]
    exact hP.mono hsnapshot hlast (h.rows v row hrow)
  idle hidle v := by
    rw [hprogress]
    exact h.idle (hrole ▸ hidle) v

/-- Rows may change one by one. -/
theorem rowsIn_of_rows {progress : ProgressSet}
    (hrows : ∀ v row, progress.get v = some row → P (v = n.id) n.snapshotIndex n.lastLogIndex row)
    (hidle : n.role ≠ .leader → ∀ v, progress.get v = none) :
    RowsIn P { n with leader.progress := progress } where
  rows := hrows
  idle := hidle

theorem RowsIn.modifyProgress (h : n.RowsIn P) {v : NodeId} {f : Progress → Progress}
    (hf : ∀ row, n.leader.progress.get v = some row →
      P (v = n.id) n.snapshotIndex n.lastLogIndex (f row)) : (n.modifyProgress v f).RowsIn P := by
  refine rowsIn_of_rows (fun w row hrow => ?_) fun hrole w => ?_
  · rw [ProgressSet.get_modify] at hrow
    split_ifs at hrow with hwv
    · subst hwv
      obtain ⟨row₀, hrow₀, rfl⟩ := Option.map_eq_some_iff.1 hrow
      exact hf row₀ hrow₀
    · exact h.rows w row hrow
  · rw [ProgressSet.get_modify, h.idle hrole w]
    simp

theorem RowsIn.reconcile (hP : RowRule P) (h : n.RowsIn P)
    (hs : n.snapshotIndex ≤ n.lastLogIndex) : n.reconcileReplicationProgress.RowsIn P := by
  unfold reconcileReplicationProgress
  split_ifs with hrole
  · exact h
  · refine rowsIn_of_rows (fun v row hrow => ?_) fun hidle => absurd (not_not.1 hrole) hidle
    rw [ProgressSet.get_reconcileMembership] at hrow
    split_ifs at hrow
    obtain rfl := Option.some_inj.1 hrow
    unfold ProgressSet.reconciledRow
    dsimp only
    by_cases hv : v = n.id
    · rw [if_pos hv, if_pos hv]
      refine hP.floor hv ?_
      cases hget : n.leader.progress.get v with
      | some row => exact h.rows v row hget
      | none => exact hP.ofLocal hv
    · rw [if_neg hv, if_neg hv]
      cases hget : n.leader.progress.get v with
      | some row => exact h.rows v row hget
      | none => exact hP.probing (Nat.succ_pos _) (Nat.succ_le_succ hs)

theorem lastLogIndex_le_appendLogEntry (n : Node) (e : LogEntry) :
    n.lastLogIndex ≤ (n.appendLogEntry e).lastLogIndex := by
  show n.snapshotIndex + n.persistent.log.length ≤
    n.snapshotIndex + (n.persistent.log ++ [e]).length
  rw [List.length_append]
  omega

theorem rowsIn_leaderState (hP : RowRule P) (n : Node) : n.leaderState.RowsIn P where
  rows v row hrow := by
    have hlast : 0 < n.leaderState.lastLogIndex := by
      show 0 < n.snapshotIndex + (n.persistent.log ++ [_]).length
      rw [List.length_append]
      exact Nat.succ_pos _
    unfold Node.leaderState at hrow
    dsimp only at hrow
    rw [ProgressSet.get_reset] at hrow
    split_ifs at hrow with hmem hself
    · obtain rfl := Option.some_inj.1 hrow
      exact hP.ofLocal hself
    · obtain rfl := Option.some_inj.1 hrow
      exact hP.probing hlast (Nat.le_succ _)
  idle hrole := absurd rfl hrole

/-- What a resumed transfer does to the row of its follower keeps `P`. -/
def ResumesIn (P : Prop → ℕ → ℕ → Progress → Prop) (c : Occasion) : Prop :=
  ∀ v response, c.input = some (.message v (.installSnapshotResponse response)) →
    c.node.resumes response → ∀ last row row', c.node.snapshotIndex ≤ last →
      (v ≠ c.node.id → row.matchIndex = c.node.leader.progress.matchIndexOf v) →
      row'.matchIndex = row.matchIndex → row'.nextIndex = c.node.snapshotIndex →
      P (v = c.node.id) c.node.snapshotIndex last row →
      P (v = c.node.id) c.node.snapshotIndex last row'

theorem Act.rowsIn (hP : RowRule P) {l : List Observation} (h : Act c n l n')
    (hresumesIn : ResumesIn P c) (hsound : n.Sound) (hn : n.RowsIn P) : n'.RowsIn P := by
  have hs : n.snapshotIndex ≤ n.lastLogIndex :=
    (hsound.snapshot_le.trans hsound.dispatched_le).trans hsound.commit_le
  cases h with
  | quiet hspine =>
    exact hn.of_eq hP (eq_of_spine (f := config) hspine fun _ => rfl)
      (eq_of_spine (f := snapshotIndex) hspine fun _ => rfl).ge
      (eq_of_spine (f := lastLogIndex) hspine fun _ => rfl).ge
      (eq_of_spine (f := role) hspine fun _ => rfl)
      (eq_of_spine (f := (·.leader.progress)) hspine fun _ => rfl)
  | follow term => exact rowsIn_of_idle get_default
  | poll _ hrole | campaign _ _ hrole => exact rowsIn_of_idle (hn.idle hrole)
  | lead => exact rowsIn_leaderState hP n
  | configure => exact hn.of_eq hP rfl le_rfl (lastLogIndex_le_appendLogEntry n _) rfl rfl
  | propose proposal =>
    rcases proposal with ⟨_ | id, payload⟩
    · exact hn.of_eq hP rfl le_rfl (lastLogIndex_le_appendLogEntry n _) rfl rfl
    · exact hn.of_eq hP rfl le_rfl (lastLogIndex_le_appendLogEntry n _) rfl rfl
  | dispatch entry =>
    rw [dispatchEntry_node]
    exact hn.of_eq hP rfl le_rfl le_rfl rfl rfl
  | splice hrole hprev hsplice =>
    obtain ⟨f, rest, hspliced, -⟩ := spliced_of_ok hprev hsplice
    obtain ⟨tracker, configuration, hnode, -⟩ := hspliced.node
    rw [hnode]
    exact rowsIn_of_idle (hn.idle hrole)
  | install snapshot staged hrole =>
    obtain ⟨tracker, dropped, heq, -⟩ := n.installSnapshotState_eq snapshot
    rw [heq]
    exact rowsIn_of_idle (hn.idle hrole)
  | reconcile => exact hn.reconcile hP hs
  | record =>
    have hreconciled := hn.reconcile hP hs
    exact hreconciled.modifyProgress fun row _ => hP.record row rfl
  | row v f hf =>
    exact hn.modifyProgress fun row hrow => hP.step hs (hf row hrow) (hn.rows v row hrow)
  | resume v response f hinput hresumes hsnapshot hid hrow hf =>
    refine hn.modifyProgress fun row hget => ?_
    obtain ⟨hmatch, hnext⟩ := hf row
    have hkept := hn.rows v row hget
    rw [hsnapshot] at hnext hs hkept ⊢
    rw [hid] at hrow hkept ⊢
    exact hresumesIn v response hinput hresumes _ row _ hs (fun hv => hrow row hv hget) hmatch hnext
      hkept
  | rearm =>
    obtain ⟨lease, hlease⟩ := n.tickReadLease_node
    rw [hlease]
    exact hn.of_eq hP rfl le_rfl le_rfl rfl rfl
  | renew v response =>
    obtain ⟨lease, hlease⟩ := n.acknowledgeReadLease_node v response.sequence
    rw [hlease]
    exact hn.of_eq hP rfl le_rfl le_rfl rfl rfl
  | acknowledge v response =>
    obtain ⟨kept, hkept⟩ := n.acknowledgeReadBarriers_node v response.sequence
    rw [hkept]
    exact hn.of_eq hP rfl le_rfl le_rfl rfl rfl
  | emit | refuse | reply | answer | frame | grant | reject => exact hn
  | clock | elapse | rest | forget | vote | commit | hear | beat | register | transfer =>
    exact hn.of_eq hP rfl le_rfl le_rfl rfl rfl

theorem RowsIn.compacted (hP : RowRule P) (hn : n.RowsIn P) {snapshot : RaftSnapshot} {o : Outcome}
    (h : n.installLocalSnapshot snapshot = .ok o) : o.node.RowsIn P := by
  have hcompacted := compacted_of_ok h
  have hboundary : n.snapshotIndex ≤ o.node.snapshotIndex := by
    rw [hcompacted.snapshotIndex_eq]
    exact hcompacted.accepts.installed
  have hlast : n.lastLogIndex ≤ o.node.lastLogIndex := by
    have hinstalled := hcompacted.accepts.installed
    rw [lastLogIndex, lastLogIndex, hcompacted.snapshotIndex_eq, hcompacted.log, List.length_drop]
    omega
  exact hn.of_eq hP hcompacted.config hboundary hlast hcompacted.role (by rw [hcompacted.leader])

/-! ## Rows in order -/

/-- The rows of followers are in order, and only a leader has rows. -/
structure RowsOrdered (n : Node) : Prop where
  rows : ∀ v row, v ≠ n.id → n.leader.progress.get v = some row →
    RowOrdered n.snapshotIndex n.lastLogIndex row
  idle : n.role ≠ .leader → ∀ v, n.leader.progress.get v = none

theorem rowsOrdered_iff : n.RowsOrdered ↔ n.RowsIn FollowerOrdered :=
  ⟨fun h => ⟨fun v row hrow hv => h.rows v row hv hrow, h.idle⟩,
    fun h => ⟨fun v row hv hrow => h.rows v row hrow hv, h.idle⟩⟩

/-- The input does not make a leader take up its transfer to a follower that has matched the
boundary. -/
def timely (n : Node) : Input → Bool
  | .message v (.installSnapshotResponse response) =>
    !n.resumes response || decide (n.leader.progress.matchIndexOf v < n.snapshotIndex)
  | _ => true

theorem resumesIn_of_timely (h : ∀ input, c.input = some input → c.node.timely input) :
    ResumesIn FollowerOrdered c := by
  intro v response hinput hresumes last row row' hs hrow hmatch hnext hordered hv
  have hbelow : c.node.leader.progress.matchIndexOf v < c.node.snapshotIndex := by
    have := h _ hinput
    simpa [timely, hresumes] using this
  have hlt : row'.matchIndex < c.node.snapshotIndex := by
    rw [hmatch, hrow hv]
    exact hbelow
  exact ⟨hnext ▸ hlt, by rw [hnext]; exact hs.trans (Nat.le_succ _), fun _ _ => hlt⟩

theorem Act.rowsOrdered {l : List Observation} (h : Act c n l n')
    (htimely : ∀ input, c.input = some input → c.node.timely input) (hsound : n.Sound)
    (hn : n.RowsOrdered) : n'.RowsOrdered :=
  rowsOrdered_iff.2
    (h.rowsIn rowRule_ordered (resumesIn_of_timely htimely) hsound (rowsOrdered_iff.1 hn))

/-- A sound node whose rows are in order. -/
structure Ordered (n : Node) : Prop where
  sound : n.Sound
  rows : n.RowsOrdered

end Node

/-! ## Rows within the log -/

/-- A row that does not leave the log. -/
structure RowWithin (own : Prop) (s last : ℕ) (row : Progress) : Prop where
  matched : row.matchIndex ≤ last
  next : row.nextIndex ≤ last + 1

theorem rowWithin_confirmed {own : Prop} {s last k : ℕ} {row : Progress}
    (hnext : row.nextIndex ≤ last + 1) (hk : k ≤ last) (hmatch : row.matchIndex = k) :
    RowWithin own s last { row.confirmReplicating with
      nextIndex := max row.confirmReplicating.nextIndex (k + 1) } := by
  have hordered := rowOrdered_confirmed (s := s) hnext hk hmatch
  exact ⟨Nat.le_of_lt_succ (hordered.lt.trans_le hordered.le), hordered.le⟩

theorem RowStep.within {own : Prop} {s last : ℕ} {row row' : Progress} (h : RowStep s last row row')
    (hs : s ≤ last) (hrow : RowWithin own s last row) : RowWithin own s last row' := by
  have hmatched := hrow.matched
  have hnext := hrow.next
  cases h with
  | probe =>
    refine ⟨hmatched, ?_⟩
    show max row.nextIndex (s + 1) ≤ last + 1
    omega
  | fill k bytes hle hlast => exact ⟨hmatched, Nat.succ_le_succ hlast⟩
  | enter =>
    unfold Node.enterSnapshotMode
    split
    · exact hrow
    · split_ifs
      · exact ⟨hmatched, hnext⟩
      · exact hrow
  | accept k hk =>
    have hack : max row.matchIndex k ≤ last := by omega
    unfold Node.acceptRow
    dsimp only
    split
    · split_ifs
      · exact rowWithin_confirmed hnext hack rfl
      · refine ⟨hack, ?_⟩
        show max row.nextIndex (max row.matchIndex k + 1) ≤ last + 1
        omega
    · exact rowWithin_confirmed hnext hack rfl
  | collapse =>
    refine ⟨hmatched, ?_⟩
    show max (row.nextIndex - 1) (max (row.matchIndex + 1) s) ≤ last + 1
    omega
  | installed k hk =>
    have hack : max row.matchIndex k ≤ last := by omega
    have hkept : { row with matchIndex := max row.matchIndex k }.nextIndex ≤ last + 1 := hnext
    exact rowWithin_confirmed hkept hack rfl

theorem rowRule_within : RowRule RowWithin where
  mono _ hlast h := ⟨h.matched.trans hlast, h.next.trans (Nat.succ_le_succ hlast)⟩
  probing _ hle := ⟨Nat.zero_le _, hle⟩
  ofLocal _ := ⟨le_rfl, le_rfl⟩
  floor _ h := ⟨max_le h.matched le_rfl, max_le h.next le_rfl⟩
  record _ _ := ⟨le_rfl, le_rfl⟩
  step hs hstep hrow := hstep.within hs hrow

namespace Node

variable {c : Occasion} {n n' : Node}

/-- A resumed transfer takes its row to the boundary, which is within the log. -/
theorem resumesIn_within (c : Occasion) : ResumesIn RowWithin c := by
  intro v response _ _ last row row' hs _ hmatch hnext hrow
  exact ⟨hmatch ▸ hrow.matched, hnext ▸ hs.trans (Nat.le_succ _)⟩

/-- A sound node whose rows are within its log. -/
structure Bounded (n : Node) : Prop where
  sound : n.Sound
  rows : n.RowsIn RowWithin

theorem Act.bounded {l : List Observation} (h : Act c n l n') (hn : n.Bounded) : n'.Bounded :=
  ⟨h.move.sound hn.sound, h.rowsIn rowRule_within (resumesIn_within c) hn.sound hn.rows⟩

/-- Only a leader has rows. -/
theorem Bounded.role_of_get (h : n.Bounded) {v : NodeId} {row : Progress}
    (hrow : n.leader.progress.get v = some row) : n.role = .leader := by
  by_contra hrole
  rw [h.rows.idle hrole v] at hrow
  cases hrow

end Node

end Rafter
