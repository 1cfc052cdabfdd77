import Rafter.Node.Receive
import Rafter.Refinement.FullLog

/-!
# Log edits of an arbitrary node

What the splice of a frame does to a log, whoever sent the frame.

Results:

* `Node.isSome_termAt`, `Node.isSome_entryAt`: where a node knows terms and entries;
* `Node.findDivergence_spec`: the scan finds the first entry whose term differs;
* `Node.spliced_of_ok`: a splice keeps the log up to some index at or above the commit index,
  replaces what follows, and reaches the end of the frame;
* `Node.installSnapshotState_eq`, `Node.compacted_of_ok`: what an installed and what a local
  snapshot change.
-/

namespace Rafter

namespace Node

variable {n : Node}
variable {snapshot : RaftSnapshot} {f k : ℕ} {o : Outcome}

/-! ## Reading -/

theorem isSome_entryAt : (n.entryAt k).isSome ↔ n.snapshotIndex < k ∧ k ≤ n.lastLogIndex := by
  unfold entryAt firstRetainedLogIndex lastLogIndex
  split_ifs with hk
  · simp only [Option.isSome_none, Bool.false_eq_true, false_iff]
    omega
  · rw [Option.isSome_iff_exists]
    simp only [List.getElem?_eq_some_iff, exists_comm, exists_eq']
    simp only [exists_prop, and_true]
    omega

theorem termAt_of_lt (hk : n.snapshotIndex < k) : n.termAt k = (n.entryAt k).map (·.term) := by
  rw [termAt, if_neg (by omega), if_neg (by omega), if_neg (by omega)]

theorem isSome_termAt : (n.termAt k).isSome ↔ n.snapshotIndex ≤ k ∧ k ≤ n.lastLogIndex := by
  unfold termAt
  split_ifs with h₀ h₁ h₂
  · simp [h₀.1, h₀.2]
  · have hsome : n.persistent.snapshot.isSome := by
      by_contra hnone
      rw [Bool.not_eq_true, Option.isSome_eq_false_iff, Option.isNone_iff_eq_none] at hnone
      have hzero : n.snapshotIndex = 0 := by rw [snapshotIndex, hnone]
      exact h₀ ⟨h₁.trans hzero, hzero⟩
    simp [hsome, h₁, lastLogIndex]
  · simp only [Option.isSome_none, Bool.false_eq_true, false_iff]
    omega
  · rw [Option.isSome_map, isSome_entryAt]
    omega

/-! ## Appending -/

theorem foldl_appendLogEntry_eq (entries : List LogEntry) :
    ∃ configuration, entries.foldl appendLogEntry n =
        { n with configuration := configuration, persistent.log := n.persistent.log ++ entries } ∧
      (n.configuration = .fromLog n.persistent.log →
        configuration = .fromLog (n.persistent.log ++ entries)) := by
  induction entries generalizing n with
  | nil => exact ⟨n.configuration, by simp, by simp⟩
  | cons e rest ih =>
    obtain ⟨configuration, h, hindex⟩ := ih (n := n.appendLogEntry e)
    refine ⟨configuration, ?_, fun hn => ?_⟩
    · rw [List.foldl_cons, h]
      simp [appendLogEntry]
    have hone : (n.appendLogEntry e).configuration = .fromLog
      (n.appendLogEntry e).persistent.log := by
      rw [appendLogEntry, hn, ConfigurationIndex.fromLog_append_singleton]
    simpa [appendLogEntry] using hindex hone

/-! ## Splicing -/

/-- The outcome of keeping the log up to `f` and appending `rest`. Proposals above `f` are
dropped from the tracker. -/
structure Spliced (n : Node) (f : ℕ) (rest : List LogEntry) (o : Outcome) : Prop where
  lower : n.snapshotIndex ≤ f
  upper : f ≤ n.lastLogIndex
  committed : min n.commitIndex n.lastLogIndex ≤ f
  node : ∃ tracker configuration,
    o.node = { n with
      volatile.localProposals := tracker
      persistent.log := n.persistent.log.take (f - n.snapshotIndex) ++ rest
      configuration := configuration } ∧
    (n.configuration = .fromLog n.persistent.log →
      configuration = .fromLog (n.persistent.log.take (f - n.snapshotIndex) ++ rest)) ∧
    (n.volatile.localProposals = [] → tracker = [])
  outputs : ∃ reason dropped, o.outputs = dropOutputs reason dropped ∧
    (n.volatile.localProposals = [] → dropped = [])

variable {rest entries : List LogEntry} {n' : Node}

theorem Spliced.lastLogIndex_eq (h : n.Spliced f rest o) :
    o.node.lastLogIndex = f + rest.length := by
  obtain ⟨tracker, configuration, hnode, -⟩ := h.node
  have hlower := h.lower
  have hupper : f - n.snapshotIndex ≤ n.persistent.log.length := by
    have := h.upper
    unfold lastLogIndex at this
    omega
  rw [hnode]
  show n.snapshotIndex + _ = _
  simp only [List.length_append, List.length_take]
  omega

variable {e : LogEntry} {i prev : ℕ}

/-- The entry at position `i` of a frame has the term the log has at its index. -/
def Agrees (n : Node) (prev : ℕ) (entries : List LogEntry) (i : ℕ) : Prop :=
  ∀ e, entries[i]? = some e → n.termAt (prev + 1 + i) = some e.term

/-- Position `i` is the first of the frame whose entry the log does not have. -/
def DivergesAt (n : Node) (prev : ℕ) (entries : List LogEntry) (i : ℕ) : Prop :=
  i < entries.length ∧ (∀ j < i, n.Agrees prev entries j) ∧ ¬ n.Agrees prev entries i

theorem agrees_cons_succ : n.Agrees prev (e :: rest) (i + 1) ↔ n.Agrees (prev + 1) rest i := by
  have hindex : prev + 1 + (i + 1) = prev + 1 + 1 + i := by omega
  unfold Agrees
  rw [List.getElem?_cons_succ, hindex]

theorem agrees_cons_zero : n.Agrees prev (e :: rest) 0 ↔ n.termAt (prev + 1) = some e.term := by
  unfold Agrees
  simp

theorem divergesAt_cons_succ (he : n.termAt (prev + 1) = some e.term)
    (h : n.DivergesAt (prev + 1) rest i) : n.DivergesAt prev (e :: rest) (i + 1) := by
  obtain ⟨hlt, hbefore, hat⟩ := h
  refine ⟨by simpa using hlt, fun j hj => ?_, fun h => hat (agrees_cons_succ.1 h)⟩
  cases j with
  | zero => exact agrees_cons_zero.2 he
  | succ j => exact agrees_cons_succ.2 (hbefore j (by omega))

/-- The scan ends with a frame the log has, or at the first entry it does not have, which is not
committed. -/
theorem findDivergence_spec {divergence : Option (List LogEntry × ℕ)}
    (h : n.findDivergence entries (prev + 1) = .ok divergence) :
    (divergence = none ∧ ∀ i, n.Agrees prev entries i) ∨
      ∃ i, divergence = some (entries.drop i, prev + i + 1) ∧ n.DivergesAt prev entries i ∧
        ((n.termAt (prev + i + 1)).isSome → n.commitIndex ≤ prev + i) := by
  induction entries generalizing prev with
  | nil =>
    rw [findDivergence] at h
    exact .inl ⟨(Except.ok.inj h).symm, fun i e he => by simp at he⟩
  | cons e rest ih =>
    rw [findDivergence] at h
    have hhere : n.termAt (prev + 1) ≠ some e.term → n.DivergesAt prev (e :: rest) 0 :=
      fun hne => ⟨by simp, by simp, fun h => hne (agrees_cons_zero.1 h)⟩
    cases hterm : n.termAt (prev + 1) with
    | none =>
      rw [hterm] at h
      exact .inr ⟨0, (Except.ok.inj h).symm, hhere (by simp [hterm]), by simp [hterm]⟩
    | some existingTerm =>
      simp only [hterm] at h
      split_ifs at h with heq hcommit
      · have he : n.termAt (prev + 1) = some e.term := by rw [hterm, heq]
        rcases ih h with ⟨rfl, hall⟩ | ⟨i, rfl, hdiverges, hfree⟩
        · refine .inl ⟨rfl, fun i => ?_⟩
          cases i with
          | zero => exact agrees_cons_zero.2 he
          | succ i => exact agrees_cons_succ.2 (hall i)
        · rw [show prev + 1 + i = prev + (i + 1) by omega] at hfree ⊢
          exact .inr ⟨i + 1, by rw [List.drop_succ_cons], divergesAt_cons_succ he hdiverges, hfree⟩
      · refine .inr ⟨0, (Except.ok.inj h).symm, hhere ?_, fun _ => by omega⟩
        rw [hterm]
        exact fun h => heq (Option.some_inj.1 h)

/-- As far as the log agrees with a frame it has terms. -/
theorem isSome_termAt_of_agrees (hprev : (n.termAt prev).isSome)
    (h : ∀ j < i, n.Agrees prev entries j) (hi : i ≤ entries.length) :
    (n.termAt (prev + i)).isSome := by
  cases i with
  | zero => exact hprev
  | succ i =>
    have hterm := h i i.lt_succ_self entries[i] (List.getElem?_eq_getElem hi)
    rw [show prev + (i + 1) = prev + 1 + i by omega, hterm]
    rfl

theorem truncateFrom_eq (hf : n.snapshotIndex ≤ f) (reason : LocalProposalDropReason) :
    ∃ tracker configuration, (n.truncateFrom (f + 1) reason).node = { n with
        volatile.localProposals := tracker
        persistent.log := n.persistent.log.take (f - n.snapshotIndex)
        configuration := configuration } ∧
      (n.configuration = .fromLog n.persistent.log →
        configuration = .fromLog (n.persistent.log.take (f - n.snapshotIndex))) ∧
      (n.volatile.localProposals = [] → tracker = []) := by
  have hlen : (if f + 1 ≤ n.firstRetainedLogIndex then 0 else f + 1 - n.firstRetainedLogIndex) =
      f - n.snapshotIndex := by
    unfold firstRetainedLogIndex
    split_ifs <;> omega
  refine ⟨_, _, by rw [truncateFrom, hlen], fun hn => ?_, fun hn => ?_⟩
  · rw [hn, ConfigurationIndex.fromLog_take]
  · rw [hn]
    rfl

/-- Cutting the log above `f`, if it goes on there, and appending `rest`. -/
theorem spliced_at (hlower : n.snapshotIndex ≤ f) (hupper : f ≤ n.lastLogIndex)
    (hmin : min n.commitIndex n.lastLogIndex ≤ f) (rest : List LogEntry) :
    let cut : Outcome := if f + 1 ≤ n.lastLogIndex then n.truncateFrom (f + 1) .logOverwritten
      else ⟨n, []⟩
    n.Spliced f rest { cut with node := rest.foldl appendLogEntry cut.node } := by
  dsimp only
  split_ifs with hlast
  · obtain ⟨tracker, index, hcut, hindex, htracker⟩ := n.truncateFrom_eq hlower .logOverwritten
    obtain ⟨configuration, happend, hconfiguration⟩ :=
      foldl_appendLogEntry_eq (n := (n.truncateFrom (f + 1) .logOverwritten).node) rest
    refine ⟨hlower, hupper, hmin, ⟨tracker, configuration, ?_, fun hn => ?_, htracker⟩,
      ⟨.logOverwritten, _, rfl, fun hn => by rw [hn]; rfl⟩⟩
    · rw [happend, hcut]
    · rw [hcut] at hconfiguration
      exact hconfiguration (hindex hn)
  · obtain ⟨configuration, happend, hconfiguration⟩ := foldl_appendLogEntry_eq (n := n) rest
    have htake : n.persistent.log.take (f - n.snapshotIndex) = n.persistent.log := by
      rw [List.take_of_length_le]
      unfold lastLogIndex at hlast
      omega
    refine ⟨hlower, hupper, hmin, ⟨n.volatile.localProposals, configuration, ?_⟩,
      ⟨.logOverwritten, [], rfl, by simp⟩⟩
    rw [htake]
    exact ⟨happend, hconfiguration, fun h => h⟩

theorem spliced_of_ok {floor : ℕ} (hprev : (n.termAt prev).isSome)
    (h : n.spliceEntriesAfter prev entries floor = .ok o) :
    ∃ f rest, n.Spliced f rest o ∧ prev + entries.length ≤ f + rest.length ∧
      ((∀ i, n.Agrees prev entries i) ∧ o.node = n ∨
        ∃ i, n.DivergesAt prev entries i ∧ f = prev + i ∧ rest = entries.drop i) := by
  unfold spliceEntriesAfter spliceFrom at h
  cases hd : n.findDivergence entries (prev + 1) with
  | error e => simp [hd] at h
  | ok divergence =>
    rcases findDivergence_spec hd with ⟨rfl, hall⟩ | ⟨i, rfl, hdiverges, hfree⟩
    · simp only [hd, Except.ok.injEq] at h
      subst h
      have hle := (isSome_termAt.1 (isSome_termAt_of_agrees hprev (fun j _ => hall j) le_rfl)).2
      have hspliced := n.spliced_at (by simp [lastLogIndex]) le_rfl (min_le_right _ _) []
      rw [if_neg (by simp)] at hspliced
      exact ⟨n.lastLogIndex, [], hspliced, by simpa using hle, .inl ⟨hall, rfl⟩⟩
    · simp only [hd] at h
      obtain ⟨hlower, hupper⟩ :=
        isSome_termAt.1 (isSome_termAt_of_agrees hprev hdiverges.2.1 hdiverges.1.le)
      have hmin : min n.commitIndex n.lastLogIndex ≤ prev + i := by
        rcases hupper.lt_or_eq with hlt | heq
        · exact (min_le_left ..).trans (hfree (isSome_termAt.2 ⟨by omega, hlt⟩))
        · exact (min_le_right ..).trans heq.ge
      split at h
      · simp at h
      · obtain rfl := Except.ok.inj h
        refine ⟨prev + i, _, spliced_at hlower hupper hmin (entries.drop i), ?_,
          .inr ⟨i, hdiverges, rfl, rfl⟩⟩
        rw [List.length_drop]
        omega

/-! ## Snapshots -/

/-- The suffix above a boundary that an installed snapshot keeps. -/
def suffixAbove (n : Node) (metadata : RaftSnapshotMetadata) : List LogEntry :=
  if n.termAt metadata.lastIncludedIndex = some metadata.lastIncludedTerm then
    n.logEntriesFrom (metadata.lastIncludedIndex + 1)
  else []

theorem foldl_insert_filter_nil (p : ℕ × LocalProposal → Bool) {t : LocalProposalTracker}
    (h : t = []) : ((t.filter p).foldl (fun t e => LocalProposalTracker.insert t e.1 e.2) [])
    = [] := by
  rw [h]
  rfl

theorem installSnapshotState_eq (n : Node) (snapshot : RaftSnapshot) :
    ∃ tracker dropped, n.installSnapshotState snapshot =
      ⟨{ n with
          volatile.localProposals := tracker
          volatile.commitIndex := max n.commitIndex snapshot.metadata.lastIncludedIndex
          volatile.dispatchedIndex := max n.dispatchedIndex snapshot.metadata.lastIncludedIndex
          persistent.snapshot := some snapshot
          persistent.committedConfiguration := snapshot.metadata.committedConfigurationState
          persistent.log := n.suffixAbove snapshot.metadata
          configuration := .fromLog (n.suffixAbove snapshot.metadata) },
        dropOutputs .logOverwritten dropped⟩ ∧
      (n.volatile.localProposals = [] → tracker = [] ∧ dropped = []) := by
  refine ⟨_, _, rfl, fun h => ⟨?_, ?_⟩⟩
  · exact foldl_insert_filter_nil _ h
  · simp [h]

/-- What a local snapshot changes: the boundary moves up within the dispatched part of the log. -/
structure Compacted (n : Node) (snapshot : RaftSnapshot) (o : Outcome) : Prop where
  accepts : n.AcceptsLocalSnapshot snapshot
  config : o.node.config = n.config
  snapshot_eq : o.node.persistent.snapshot = some snapshot
  log : o.node.persistent.log =
    n.persistent.log.drop (snapshot.metadata.lastIncludedIndex - n.snapshotIndex)
  configuration : o.node.configuration =
    n.configuration.compactPrefix (snapshot.metadata.lastIncludedIndex - n.snapshotIndex)
  committedConfiguration : o.node.persistent.committedConfiguration =
    n.committedConfigurationStateAt snapshot.metadata.lastIncludedIndex
  term : o.node.currentTerm = n.currentTerm
  vote : o.node.persistent.votedFor = n.persistent.votedFor
  role : o.node.role = n.role
  commit : o.node.commitIndex = n.commitIndex
  dispatched : o.node.dispatchedIndex = n.dispatchedIndex
  leader : o.node.leader = n.leader
  outputs : ∃ dropped, o.outputs = dropOutputs .logOverwritten dropped

theorem compacted_of_ok (h : n.installLocalSnapshot snapshot = .ok o) : n.Compacted snapshot o := by
  obtain ⟨haccepts, rfl⟩ := installLocalSnapshot_ok h
  exact ⟨haccepts, rfl, rfl, rfl, rfl, rfl, rfl, rfl, rfl, rfl, rfl, rfl, _, rfl⟩

theorem Compacted.snapshotIndex_eq (h : n.Compacted snapshot o) :
    o.node.snapshotIndex = snapshot.metadata.lastIncludedIndex := by
  rw [snapshotIndex, h.snapshot_eq]

/-! ## Entries that stay -/

theorem entryAt_congr (hsnapshot : n'.persistent.snapshot = n.persistent.snapshot)
    (hlog : n'.persistent.log = n.persistent.log) (k : ℕ) : n'.entryAt k = n.entryAt k := by
  unfold entryAt firstRetainedLogIndex snapshotIndex
  rw [hsnapshot, hlog]

theorem entryAt_append (hsnapshot : n'.persistent.snapshot = n.persistent.snapshot)
    (hlog : n'.persistent.log = n.persistent.log ++ rest) (hk : k ≤ n.lastLogIndex) :
    n'.entryAt k = n.entryAt k := by
  have hindex : n'.snapshotIndex = n.snapshotIndex := by rw [snapshotIndex, hsnapshot]; rfl
  unfold entryAt firstRetainedLogIndex
  rw [hindex, hlog]
  split_ifs with hlow
  · rfl
  · unfold lastLogIndex at hk
    rw [List.getElem?_append_left (by omega)]

theorem entryAt_appendLogEntry (e : LogEntry) (hk : k ≤ n.lastLogIndex) :
    (n.appendLogEntry e).entryAt k = n.entryAt k :=
  entryAt_append rfl rfl hk

theorem Spliced.entryAt_eq (h : n.Spliced f rest o) (hk : k ≤ f) :
    o.node.entryAt k = n.entryAt k := by
  obtain ⟨tracker, configuration, hnode, -⟩ := h.node
  have hupper := h.upper
  unfold lastLogIndex at hupper
  rw [hnode]
  show (if k ≤ n.snapshotIndex then none
    else (n.persistent.log.take (f - n.snapshotIndex) ++ rest)[k - n.firstRetainedLogIndex]?) = _
  unfold entryAt
  split_ifs with hlow
  · rfl
  · have hlt : k - n.firstRetainedLogIndex < f - n.snapshotIndex := by
      unfold firstRetainedLogIndex
      omega
    rw [List.getElem?_append_left (by rw [List.length_take]; omega), List.getElem?_take_of_lt hlt]

theorem entryAt_installSnapshotState (hk : k ≤ snapshot.metadata.lastIncludedIndex) :
    (n.installSnapshotState snapshot).node.entryAt k = none := if_pos hk

theorem Compacted.entryAt_eq (h : n.Compacted snapshot o) (k : ℕ) :
    o.node.entryAt k = if k ≤ snapshot.metadata.lastIncludedIndex then none else n.entryAt k := by
  have hinstalled := h.accepts.installed
  rw [entryAt, h.snapshotIndex_eq, firstRetainedLogIndex, h.snapshotIndex_eq, h.log]
  split_ifs with hk
  · rfl
  · rw [List.getElem?_drop, entryAt, if_neg (by omega)]
    congr 1
    unfold firstRetainedLogIndex
    omega

end Node

end Rafter
