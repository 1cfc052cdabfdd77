import Rafter.Conduct.Step
import Rafter.Protocol.Delivery

/-!
# Dispatch of committed entries

A node delivers its committed entries as `Protocol/Delivery.lean` has it: the dispatch cursor is
what it delivered, the commit index what is settled, an installed snapshot a jump, a local snapshot
drops what was delivered.

Results:

* `Node.committed_entries_dispatched_once`: over any calls, committed entries are output once, in
  order and without gaps.
-/

namespace Rafter

variable {e : LogEntry} {k : ℕ} {outputs : List Output} {x : Output} {l : List Observation}

open Protocol

/-! ## What is observed of a dispatch -/

/-- The log index an output moves the application to. -/
def Output.position : Output → Option ℕ
  | .apply index _ _ _ | .configurationCommitted index _ _ _ => some index
  | .applySnapshot snapshot => some snapshot.metadata.lastIncludedIndex
  | _ => none

/-- The output is a snapshot for the application. -/
def Output.isApplySnapshot : Output → Bool
  | .applySnapshot _ => true
  | _ => false

/-- The request records a local snapshot. -/
def Request.isCompact : Request → Bool
  | .compact _ => true
  | _ => false

/-- The outputs of the dispatch of an entry at index `k`: one, or none for a leader's first
entry. -/
def LogEntry.DispatchedAs (e : LogEntry) (k : ℕ) (outputs : List Output) : Prop :=
  match e.kind with
  | .noop => outputs = []
  | .application payload => ∃ proposalId, outputs = [.apply k e.term payload proposalId]
  | .configuration configuration =>
    ∃ previous, outputs = [.configurationCommitted k e.term previous configuration]

theorem LogEntry.DispatchedAs.length_le (h : e.DispatchedAs k outputs) : outputs.length ≤ 1 := by
  unfold LogEntry.DispatchedAs at h
  split at h
  · simp [h]
  · obtain ⟨_, rfl⟩ := h
    simp
  · obtain ⟨_, rfl⟩ := h
    simp

theorem LogEntry.DispatchedAs.position (h : e.DispatchedAs k outputs) (hx : x ∈ outputs) :
    x.position = some k := by
  unfold LogEntry.DispatchedAs at h
  split at h
  · simp [h] at hx
  · obtain ⟨_, rfl⟩ := h
    rw [List.mem_singleton.1 hx]
    rfl
  · obtain ⟨_, rfl⟩ := h
    rw [List.mem_singleton.1 hx]
    rfl

/-- How the observations of a node tell of its deliveries. -/
def dispatchMedium : Medium LogEntry Observation where
  position := Sum.elim (fun _ => none) Output.position
  jumps := Sum.elim (fun _ => false) Output.isApplySnapshot
  drops := Sum.elim Request.isCompact fun _ => false
  report k e l := ∃ outputs, l = given outputs ∧ e.DispatchedAs k outputs
  length_report := by
    rintro k e l ⟨outputs, rfl, h⟩
    simpa [given] using h.length_le
  position_report := by
    rintro k e l a ⟨outputs, rfl, h⟩ ha
    obtain ⟨x, hx, rfl⟩ := List.mem_map.1 ha
    exact h.position hx

/-- The outputs of a trace that satisfy a test, as observations. -/
theorem filter_elim_eq (p : Output → Bool) (l : List Observation) :
    l.filter (Sum.elim (fun _ => false) p) = given ((l.filterMap Sum.getRight?).filter p) := by
  induction l with
  | nil => rfl
  | cons a l ih =>
    rcases a with q | x
    · simpa [List.filterMap_cons] using ih
    · by_cases hx : p x <;> simpa [List.filterMap_cons, hx, given] using ih

theorem reports_eq (l : List Observation) : dispatchMedium.reports l =
    given ((l.filterMap Sum.getRight?).filter fun x => x.position.isSome) := by
  rw [← filter_elim_eq, Medium.reports]
  refine List.filter_congr fun a _ => ?_
  rcases a with q | x <;> rfl

theorem reportsAt_eq (k : ℕ) (l : List Observation) : dispatchMedium.reportsAt k l =
    given ((l.filterMap Sum.getRight?).filter fun x => x.position = some k) := by
  rw [← filter_elim_eq, Medium.reportsAt]
  refine List.filter_congr fun a _ => ?_
  rcases a with q | x <;> rfl

theorem filterMap_position_eq (l : List Observation) : l.filterMap dispatchMedium.position =
    (l.filterMap Sum.getRight?).filterMap Output.position := by
  rw [List.filterMap_filterMap]
  refine List.filterMap_congr fun a _ => ?_
  rcases a with q | x <;> rfl

theorem report_iff : dispatchMedium.report k e (dispatchMedium.reportsAt k l) ↔
      e.DispatchedAs k ((l.filterMap Sum.getRight?).filter fun x => x.position = some k) := by
  rw [reportsAt_eq]
  constructor
  · rintro ⟨outputs, heq, h⟩
    rwa [List.map_injective_iff.2 Sum.inr_injective heq]
  · exact fun h => ⟨_, rfl, h⟩

/-- The application is sent a snapshot at or above index `k`. -/
def SnapshotCovers (k : ℕ) (outputs : List Output) : Prop :=
  ∃ snapshot, .applySnapshot snapshot ∈ outputs ∧ k ≤ snapshot.metadata.lastIncludedIndex

theorem not_snapshotCovers_append {outputs' : List Output}
    (h : ¬ SnapshotCovers k (outputs ++ outputs')) :
    ¬ SnapshotCovers k outputs ∧ ¬ SnapshotCovers k outputs' := by
  constructor
  · rintro ⟨snapshot, hmem, hk⟩
    exact h ⟨snapshot, List.mem_append_left _ hmem, hk⟩
  · rintro ⟨snapshot, hmem, hk⟩
    exact h ⟨snapshot, List.mem_append_right _ hmem, hk⟩

theorem jumpsOver_iff :
    dispatchMedium.JumpsOver k l ↔ SnapshotCovers k (l.filterMap Sum.getRight?) := by
  constructor
  · rintro ⟨q | x, ha, hjump, b, hposition, hk⟩
    · exact absurd hjump (by simp [dispatchMedium])
    · cases x with
      | applySnapshot snapshot =>
        obtain rfl := Option.some_inj.1 hposition
        exact ⟨snapshot, List.mem_filterMap.2 ⟨_, ha, rfl⟩, hk⟩
      | _ => simp [dispatchMedium, Output.isApplySnapshot] at hjump
  · rintro ⟨snapshot, hmem, hk⟩
    obtain ⟨a, ha, hright⟩ := List.mem_filterMap.1 hmem
    obtain rfl := Sum.getRight?_eq_some_iff.1 hright
    exact ⟨_, ha, rfl, _, rfl, hk⟩

namespace Node

variable {n n' : Node}

/-! ## Moves -/

/-- A node as the reader of its log. -/
def reader (n : Node) : Reader LogEntry := ⟨n.entryAt, n.dispatchedIndex, n.commitIndex⟩

/-- A move that dispatches nothing and keeps the committed entries. -/
theorem keep_of_entries (hquiet : ∀ x ∈ l.filterMap Sum.getRight?, x.position = none)
    (hdispatched : n'.dispatchedIndex = n.dispatchedIndex)
    (hcommit : n.commitIndex ≤ n'.commitIndex)
    (hentry : ∀ k ≤ n.commitIndex, n'.entryAt k = n.entryAt k) :
    dispatchMedium.Step n.reader l n'.reader := by
  refine .keep ?_ hdispatched hcommit fun k hk => .inl (hentry k hk)
  rw [reports_eq, List.filter_eq_nil_iff.2 fun x hx => by simp [hquiet x hx]]
  rfl

theorem position_of_isTraffic (h : x.isTraffic) : x.position = none := by
  cases x with
  | apply | configurationCommitted | applySnapshot => exact absurd h (by simp [Output.isTraffic])
  | _ => rfl

theorem position_dropOutputs {reason : LocalProposalDropReason} {dropped : LocalProposalTracker}
    (h : x ∈ dropOutputs reason dropped) : x.position = none := by
  obtain ⟨p, -, rfl⟩ := List.mem_map.1 h
  rfl

theorem position_becomeFollower {term : ℕ} (hx : x ∈ (n.becomeFollower term).outputs) :
    x.position = none := by
  rw [becomeFollower_outputs] at hx
  rcases List.mem_append.1 hx with hx | hx
  · exact position_dropOutputs hx
  · obtain ⟨id, rfl⟩ := mem_drainPendingReads hx
    rfl

theorem dispatchEntry_dispatchedAs (n : Node) (k : ℕ) (e : LogEntry) :
    e.DispatchedAs k (n.dispatchEntry k e).outputs := by
  unfold dispatchEntry LogEntry.DispatchedAs
  rcases e with ⟨term, payload | configuration | _⟩
  · exact ⟨_, rfl⟩
  · exact ⟨_, rfl⟩
  · rfl

theorem keep_of_log (hquiet : ∀ x ∈ l.filterMap Sum.getRight?, x.position = none)
    (hdispatched : n'.dispatchedIndex = n.dispatchedIndex)
    (hcommit : n.commitIndex ≤ n'.commitIndex)
    (hsnapshot : n'.persistent.snapshot = n.persistent.snapshot)
    (hlog : n'.persistent.log = n.persistent.log) : dispatchMedium.Step n.reader l n'.reader :=
  keep_of_entries hquiet hdispatched hcommit fun k _ => entryAt_congr hsnapshot hlog k

theorem keep_of_append (hn : n.Sound) (e : LogEntry)
    (hquiet : ∀ x ∈ l.filterMap Sum.getRight?, x.position = none)
    (hdispatched : n'.dispatchedIndex = n.dispatchedIndex)
    (hcommit : n.commitIndex ≤ n'.commitIndex)
    (hpersistent : n'.persistent = (n.appendLogEntry e).persistent) :
    dispatchMedium.Step n.reader l n'.reader := by
  refine keep_of_entries hquiet hdispatched hcommit fun k hk => ?_
  rw [← entryAt_appendLogEntry e (hk.trans hn.commit_le)]
  exact entryAt_congr (congrArg _ hpersistent) (congrArg _ hpersistent) k

theorem dispatchEntry_delivers {entry : LogEntry} (hlt : n.dispatchedIndex < n.commitIndex)
    (hentry : n.entryAt (n.dispatchedIndex + 1) = some entry) :
    dispatchMedium.Step n.reader (given (n.dispatchEntry (n.dispatchedIndex + 1) entry).outputs)
      (n.dispatchEntry (n.dispatchedIndex + 1) entry).node.reader := by
  have hreported := n.dispatchEntry_dispatchedAs (n.dispatchedIndex + 1) entry
  refine .deliver hlt hentry ⟨_, ?_, hreported⟩ ?_ ?_ ?_
  · rw [reports_eq, filterMap_getRight_given, List.filter_eq_self.2 fun x hx => by
      simp [hreported.position hx]]
  · rw [dispatchEntry_node]; rfl
  · rw [dispatchEntry_node]; rfl
  · funext k
    rw [dispatchEntry_node]
    exact entryAt_congr rfl rfl k

/-- A splice keeps every committed entry. -/
theorem splice_keeps (hn : n.Sound) {prev floor : ℕ} {entries : List LogEntry} {o : Outcome}
    (hprev : (n.termAt prev).isSome) (h : n.spliceEntriesAfter prev entries floor = .ok o) :
    dispatchMedium.Step n.reader (given o.outputs) o.node.reader := by
  obtain ⟨f, rest, hspliced, -⟩ := spliced_of_ok hprev h
  obtain ⟨reason, dropped, houtputs, -⟩ := hspliced.outputs
  obtain ⟨tracker, configuration, hnode, -⟩ := hspliced.node
  have hcommitted := hspliced.committed
  rw [min_eq_left hn.commit_le] at hcommitted
  refine keep_of_entries (fun x hx => ?_) (by rw [hnode]; rfl) (by rw [hnode]; exact le_rfl)
    fun k hk => hspliced.entryAt_eq (hk.trans hcommitted)
  rw [filterMap_getRight_given, houtputs] at hx
  exact position_dropOutputs hx

theorem install_jumps (hn : n.Sound) {snapshot : RaftSnapshot} (staged : StagedSnapshotChunk)
    (hnew : n.snapshotCoveredThrough < snapshot.metadata.lastIncludedIndex) :
    dispatchMedium.Step n.reader (given ((n.installSnapshotState snapshot).outputs ++
      [.stageSnapshotChunk staged, .applySnapshot snapshot]))
      (n.installSnapshotState snapshot).node.reader := by
  obtain ⟨tracker, dropped, hinstall, -⟩ := n.installSnapshotState_eq snapshot
  have hcovered : n.commitIndex < snapshot.metadata.lastIncludedIndex :=
    (le_max_right _ _).trans_lt hnew
  refine .jump (a := .inr (.applySnapshot snapshot)) ?_ rfl rfl hcovered ?_ (le_max_right _ _)
    fun k hk => entryAt_installSnapshotState hk
  · rw [reports_eq, filterMap_getRight_given, hinstall, List.filter_append,
      List.filter_eq_nil_iff.2 fun x hx => by simp [position_dropOutputs hx]]
    rfl
  · exact max_eq_right (hn.dispatched_le.trans hcovered.le)

/-- A local snapshot keeps every committed entry or covers it. -/
theorem compact_keeps {snapshot : RaftSnapshot} {o : Outcome}
    (h : n.installLocalSnapshot snapshot = .ok o) :
    dispatchMedium.Step n.reader (.inl (.compact snapshot) :: given o.outputs) o.node.reader := by
  have hc := compacted_of_ok h
  obtain ⟨dropped, houtputs⟩ := hc.outputs
  refine .keep ?_ hc.dispatched hc.commit.ge fun k hk => ?_
  · rw [reports_eq, List.filterMap_cons, Sum.getRight?_inl, filterMap_getRight_given, houtputs,
      List.filter_eq_nil_iff.2 fun x hx => by simp [position_dropOutputs hx]]
    rfl
  · have hentry : o.node.reader.entry k = _ := hc.entryAt_eq k
    rw [hentry]
    split_ifs with hlow
    · exact .inr ⟨hlow.trans hc.accepts.applied, rfl, _, List.mem_cons_self, rfl⟩
    · exact .inl rfl

/-- Every move of a sound node is a step of the reader of its log. -/
theorem Move.dispatches (h : Move n l n') (hn : n.Sound) :
    dispatchMedium.Step n.reader l n'.reader := by
  cases h with
  | traffic hledger htransfer hsequence houtputs =>
    refine keep_of_log (fun x hx => ?_) (congrArg Ledger.dispatchedIndex hledger)
      (congrArg Ledger.commitIndex hledger).ge (congrArg Ledger.snapshot hledger)
      (congrArg Ledger.log hledger)
    rw [filterMap_getRight_given] at hx
    exact position_of_isTraffic (houtputs x hx)
  | follow term =>
    refine keep_of_log (fun x hx => ?_) rfl le_rfl rfl rfl
    rw [filterMap_getRight_given] at hx
    exact position_becomeFollower hx
  | campaign hrole hrole' hterm hledger hleader =>
    exact keep_of_log (by simp) (congrArg Ledger.dispatchedIndex hledger)
      (congrArg Ledger.commitIndex hledger).ge (congrArg Ledger.snapshot hledger)
      (congrArg Ledger.log hledger)
  | lead hrole => exact keep_of_append hn ⟨n.currentTerm, .noop⟩ (by simp) rfl le_rfl rfl
  | configure configuration hrole => exact keep_of_append hn _ (by simp) rfl le_rfl rfl
  | propose proposal hrole =>
    rcases proposal with ⟨_ | id, payload⟩
    · exact keep_of_append hn _ (by simp [appendProposal, given]) rfl le_rfl rfl
    · exact keep_of_append hn ⟨n.currentTerm, .application payload⟩
        (by simp [appendProposal, Output.position, List.filterMap_cons]) rfl le_rfl rfl
  | refuse proposal reason =>
    exact keep_of_log (by simp [Output.position, List.filterMap_cons]) rfl le_rfl rfl rfl
  | commit k hk hle => exact keep_of_log (by simp) rfl hk rfl rfl
  | dispatch entry hlt hentry => exact dispatchEntry_delivers hlt hentry
  | splice hrole hprev h => exact splice_keeps hn hprev h
  | install snapshot staged hrole hnew => exact install_jumps hn staged hnew
  | compact h => exact compact_keeps h
  | decline snapshot => exact keep_of_log (by simp [List.filterMap_cons]) rfl le_rfl rfl rfl
  | transfer pending reason =>
    refine keep_of_log (fun x hx => ?_) rfl le_rfl rfl rfl
    rw [filterMap_getRight_given] at hx
    obtain ⟨id, rfl⟩ := mem_drainPendingReads hx
    rfl
  | register readIds acks hrole htransfer hne hlength =>
    exact keep_of_log (by simp) rfl le_rfl rfl rfl
  | grant readIds =>
    exact keep_of_log (by simp [grantReads, Output.position]) rfl le_rfl rfl rfl
  | reject readIds reason =>
    exact keep_of_log (by simp [rejectReads, Output.position]) rfl le_rfl rfl rfl
  | acknowledge v sequence =>
    obtain ⟨kept, hnode⟩ := n.acknowledgeReadBarriers_node v sequence
    refine keep_of_log (fun x hx => ?_) (by rw [hnode]; rfl) (by rw [hnode]; exact le_rfl)
      (by rw [hnode]) (by rw [hnode])
    rw [filterMap_getRight_given] at hx
    obtain ⟨id, k, rfl⟩ := mem_acknowledgeReadBarriers hx
    rfl

/-! ## Runs -/

theorem Conducts.delivers {requests : List Request} {o : Outcome} (h : n.Conducts requests o)
    (hn : n.Sound) : ∃ trace, Path dispatchMedium.Step n.reader trace o.node.reader ∧
      trace.filterMap Sum.getLeft? = requests ∧ trace.filterMap Sum.getRight? = o.outputs := by
  obtain ⟨⟨trace, hpath, hrequests, houtputs⟩, -⟩ := h
  exact ⟨trace, hpath.map reader (fun hm hs => ⟨hm.sound hs, hm.dispatches hs⟩) hn, hrequests,
    houtputs⟩

theorem calls_append (n : Node) (cs cs' : List Call) :
    n.calls (cs ++ cs') = (n.calls cs).andThen (·.calls cs') := by
  induction cs generalizing n with
  | nil => simp [calls, Outcome.andThen]
  | cons c rest ih => simp [calls, Outcome.andThen, ih]

/-- A committed entry above the start is output as it stands, once. -/
theorem Constructed.dispatchedAs (h : n.Constructed) {cs cs' : List Call}
    (hfloor : n.dispatchedIndex < k) (hentry : (n.calls cs).node.entryAt k = some e)
    (hcommitted : k ≤ (n.calls cs).node.commitIndex)
    (hpassed : k ≤ (n.calls (cs ++ cs')).node.dispatchedIndex)
    (hcovers : ¬ SnapshotCovers k (n.calls (cs ++ cs')).outputs) :
    e.DispatchedAs k ((n.calls (cs ++ cs')).outputs.filter fun x => x.position = some k) := by
  have hn := h.sound
  obtain ⟨l, hpath, -, hl⟩ := (n.calls_conducts cs).delivers hn
  obtain ⟨l', hpath', -, hl'⟩ :=
    ((n.calls cs).node.calls_conducts cs').delivers ((n.calls_conducts cs).sound hn)
  have houtputs : (l ++ l').filterMap Sum.getRight? = (n.calls (cs ++ cs')).outputs := by
    rw [List.filterMap_append, hl, hl', calls_append]
    rfl
  rw [← houtputs, ← report_iff]
  rw [← houtputs, ← jumpsOver_iff] at hcovers
  rw [calls_append] at hpassed
  exact Medium.report_of_path hn.dispatched_le hpath hpath' hfloor hentry hcommitted hpassed hcovers

theorem not_isCompact_of_mem_requests {input : Input} {q : Request} (hq : q ∈ input.requests) :
    q.isCompact = false := by
  cases input <;> simp [Input.requests] at hq <;> simp [hq, Request.isCompact]

/-- A call other than a local snapshot leaves the entries it dispatches in the log. -/
theorem isSome_entryAt_call (hn : n.Sound) {c : Call} (hk : n.dispatchedIndex < k)
    (hpassed : k ≤ (n.call c).node.dispatchedIndex)
    (hcovers : ¬ SnapshotCovers k (n.call c).outputs) : ((n.call c).node.entryAt k).isSome := by
  have hdelivers : (∀ q ∈ c.requests, q.isCompact = false) →
      ((n.call c).node.entryAt k).isSome := by
    intro hrequests
    obtain ⟨l, hpath, hleft, hright⟩ := (n.call_conducts c).delivers hn
    rw [← hright, ← jumpsOver_iff] at hcovers
    refine Medium.isSome_of_path hn.dispatched_le hpath (fun a ha => ?_) hk hpassed hcovers
    rcases a with q | x
    · have hq := hrequests q (by rw [← hleft]; exact List.mem_filterMap.2 ⟨_, ha, rfl⟩)
      simp [dispatchMedium, hq]
    · simp [dispatchMedium]
  cases c with
  | step input => exact hdelivers fun q hq => not_isCompact_of_mem_requests hq
  | stepBatch inputs =>
    refine hdelivers fun q hq => ?_
    obtain ⟨input, -, hq⟩ := List.mem_flatMap.1 hq
    exact not_isCompact_of_mem_requests hq
  | stepProposalBatch proposals =>
    refine hdelivers fun q hq => ?_
    obtain ⟨p, -, rfl⟩ := List.mem_map.1 hq
    rfl
  | drainCommittedOutputs => exact hdelivers (by simp [Call.requests])
  | installLocalSnapshot snapshot =>
    have hsame : (n.call (.installLocalSnapshot snapshot)).node.dispatchedIndex =
        n.dispatchedIndex := by
      unfold call
      dsimp only
      cases h : n.installLocalSnapshot snapshot with
      | ok o => exact (compacted_of_ok h).dispatched
      | error e => rfl
    omega

/-- A dispatched index was seen with its entry after some call. -/
theorem Constructed.exists_entryAt (h : n.Constructed) {cs : List Call}
    (hfloor : n.dispatchedIndex < k) (hpassed : k ≤ (n.calls cs).node.dispatchedIndex)
    (hcovers : ¬ SnapshotCovers k (n.calls cs).outputs) :
    ∃ before after e, cs = before ++ after ∧ (n.calls before).node.entryAt k = some e ∧
      k ≤ (n.calls before).node.commitIndex := by
  induction cs using List.reverseRecOn with
  | nil => exact absurd hpassed (by simp [calls]; omega)
  | append_singleton cs c ih =>
    have hn := (n.calls_conducts cs).sound h.sound
    rw [calls_append] at hpassed hcovers
    by_cases hk : k ≤ (n.calls cs).node.dispatchedIndex
    · obtain ⟨before, after, e, rfl, hentry, hcommit⟩ := ih hk (not_snapshotCovers_append hcovers).1
      exact ⟨before, after ++ [c], e, by simp, hentry, hcommit⟩
    · have hone : (n.calls cs).node.calls [c] = (n.calls cs).node.call c := by
        simp [calls, Outcome.andThen]
      have hlast : n.calls (cs ++ [c]) = ⟨((n.calls cs).node.call c).node,
          (n.calls cs).outputs ++ ((n.calls cs).node.call c).outputs⟩ := by
        rw [calls_append, Outcome.andThen, hone]
      rw [Outcome.andThen, hone] at hpassed hcovers
      have hsome :=
        isSome_entryAt_call hn (not_le.1 hk) hpassed (not_snapshotCovers_append hcovers).2
      obtain ⟨e, he⟩ := Option.isSome_iff_exists.1 hsome
      refine ⟨cs ++ [c], [], e, by simp, by rw [hlast]; exact he, ?_⟩
      rw [hlast]
      exact hpassed.trans (((n.calls cs).node.call_conducts c).sound hn).dispatched_le

/-- A call that raises the commit index dispatches all that is committed. -/
theorem dispatched_eq_commit_of_raised (hn : n.Sound) {c : Call}
    (hraised : n.commitIndex < (n.call c).node.commitIndex) :
    (n.call c).node.dispatchedIndex = (n.call c).node.commitIndex := by
  have hsound := (n.call_conducts c).sound hn
  rcases (n.call_conducts c).2 hn with ⟨hsame, -⟩ | hle
  · omega
  · exact le_antisymm hsound.dispatched_le hle

/-- Committed entries are dispatched exactly once, in order and without gaps, over any calls on a
constructed node. The indexes of the dispatch outputs and the boundaries of the snapshots sent to
the application increase strictly. An entry that is committed after some of the calls, above the
index the node started from, at or below the one it has dispatched and above every such boundary, is
output once, as it stands; and every index so placed has such an entry. A call that raises the
commit index dispatches through it. -/
theorem committed_entries_dispatched_once (h : n.Constructed) (cs : List Call) :
    ((n.calls cs).outputs.filterMap Output.position).Pairwise (· < ·) ∧
    (∀ before after k e, cs = before ++ after → n.dispatchedIndex < k →
      (n.calls before).node.entryAt k = some e → k ≤ (n.calls before).node.commitIndex →
      k ≤ (n.calls cs).node.dispatchedIndex → ¬ SnapshotCovers k (n.calls cs).outputs →
      e.DispatchedAs k ((n.calls cs).outputs.filter fun x => x.position = some k)) ∧
    (∀ k, n.dispatchedIndex < k → k ≤ (n.calls cs).node.dispatchedIndex →
      ¬ SnapshotCovers k (n.calls cs).outputs →
      ∃ before after e, cs = before ++ after ∧ (n.calls before).node.entryAt k = some e ∧
        k ≤ (n.calls before).node.commitIndex) ∧
    (∀ before c after, cs = before ++ c :: after →
      (n.calls before).node.commitIndex < ((n.calls before).node.call c).node.commitIndex →
      ((n.calls before).node.call c).node.dispatchedIndex =
        ((n.calls before).node.call c).node.commitIndex) := by
  refine ⟨?_, ?_, fun k => h.exists_entryAt, fun before c after _ =>
    dispatched_eq_commit_of_raised ((n.calls_conducts before).sound h.sound)⟩
  · obtain ⟨l, hpath, -, houtputs⟩ := (n.calls_conducts cs).delivers h.sound
    rw [← houtputs, ← filterMap_position_eq]
    exact Medium.increasing_of_path h.sound.dispatched_le hpath
  · rintro before after k e rfl
    exact h.dispatchedAs

/-- Node 1 takes office, appends a proposal and commits it. -/
def commitOne : List Call :=
  takeOffice.map .step ++ [.step (.trackedClientProposal 5 [9]),
    .step (.message 2 (.appendEntriesResponse ⟨1, 2, true, 2, 1⟩))]

theorem committed_entries_dispatched_once_leader :
    ((Node.new oneOfThree).calls commitOne).node.dispatchedIndex = 2 ∧
      LogEntry.DispatchedAs ⟨1, .application [9]⟩ 2
        (((Node.new oneOfThree).calls commitOne).outputs.filter fun x => x.position = some 2) := by
  have hd : ((Node.new oneOfThree).calls commitOne).node.dispatchedIndex = 2 := by decide +kernel
  have hentry : ((Node.new oneOfThree).calls commitOne).node.entryAt 2 =
      some ⟨1, .application [9]⟩ := by decide +kernel
  have hcommit : 2 ≤ ((Node.new oneOfThree).calls commitOne).node.commitIndex := by decide +kernel
  have hnone : ((Node.new oneOfThree).calls commitOne).outputs.all (!·.isApplySnapshot) := by
    decide +kernel
  refine ⟨hd, (committed_entries_dispatched_once (.new oneOfThree) commitOne).2.1 commitOne [] 2 _
    (List.append_nil _).symm (by decide) hentry hcommit hd.ge ?_⟩
  rintro ⟨snapshot, hmem, -⟩
  simpa [Output.isApplySnapshot] using List.all_eq_true.1 hnone _ hmem

end Node

end Rafter
