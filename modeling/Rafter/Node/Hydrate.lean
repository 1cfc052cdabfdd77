import Rafter.Node.Bootstrap

/-!
# What hydration accepts

`Node.fromBootstrap` runs four validations over a durable image. For the image of a node they come
down to conditions on the node's own durable state.

Results:

* `Node.validateLog_image`: the log of an image is accepted exactly if every entry has a
  nonzero term not above the current one and an index below the maximum, and it reaches the commit
  index; it is then materialised as it was;
* `Node.hydrates_iff`: what is accepted.
-/

namespace Rafter

namespace Bootstrap

theorem validateVote_eq_ok {b : BootstrapState} :
    validateVote b = .ok () ↔ (b.votedFor.isSome → b.currentTerm ≠ 0) := by
  unfold validateVote
  cases b.votedFor with
  | none => simp
  | some v =>
    dsimp only
    split_ifs with h
    · simp [h]
    · simp [h]

theorem validateSnapshot_eq_ok {b : BootstrapState} {config : NodeConfig} :
    validateSnapshot b config = .ok () ↔ ∀ s, b.snapshot = some s →
      s.metadata.hardStateTerm ≤ b.currentTerm ∧
      (s.metadata.committedMembership.getD config.staticMembership).containsReplica
        s.metadata.writerId := by
  unfold validateSnapshot
  cases b.snapshot with
  | none => simp
  | some s =>
    dsimp only
    split_ifs with hterm hwriter
    · simp [not_le.2 hterm]
    · simp [not_lt.1 hterm, hwriter]
    · simp [hwriter]

/-! ## Logs -/

/-- An entry that hydration accepts at `index`. -/
def ValidEntry (currentTerm index : ℕ) (e : LogEntry) : Prop :=
  e.term ≠ 0 ∧ e.term ≤ currentTerm ∧ index < u64Max

theorem validateRetainedEntry_eq_ok {v : LogValidation} {e : LogEntry} :
    v.validateRetainedEntry ⟨v.expectedIndex, e.term, e.kind⟩ = .ok () ↔
      ValidEntry v.currentTerm v.expectedIndex e := by
  unfold LogValidation.validateRetainedEntry ValidEntry
  dsimp only
  rw [if_neg (not_not.2 rfl)]
  split_ifs with hzero hterm hmax
  · simp [hzero]
  · simp [not_le.2 hterm]
  · simp [not_lt.2 hmax]
  · simp [hzero, not_lt.1 hterm, not_le.1 hmax]

/-- Entries as an image lists them from `first` on. -/
def imageFrom (first : ℕ) (entries : List LogEntry) : List BootstrapLogEntry :=
  (entries.zipIdx first).map fun (entry, index) =>
    { index := index, term := entry.term, kind := entry.kind }

theorem imageFrom_cons (first : ℕ) (e : LogEntry) (entries : List LogEntry) :
    imageFrom first (e :: entries) =
      ⟨first, e.term, e.kind⟩ :: imageFrom (first + 1) entries := rfl

/-- Entries that follow on are validated one by one and materialised. -/
theorem foldlM_accept_eq_ok (entries : List LogEntry) (v : LogValidation)
    (hsnapshot : (v.snapshot.map (·.lastIncludedIndex)).getD 0 < v.expectedIndex)
    (hexpected : v.expectedIndex = v.lastLogIndex + 1) (v' : LogValidation) :
    (imageFrom v.expectedIndex entries).foldlM LogValidation.accept v = .ok v' ↔
      (∀ j e, entries[j]? = some e → ValidEntry v.currentTerm (v.expectedIndex + j) e) ∧
      v' = { v with
        expectedIndex := v.expectedIndex + entries.length
        lastLogIndex := v.lastLogIndex + entries.length
        materializedLog := v.materializedLog ++ entries } := by
  induction entries generalizing v with
  | nil => simp [imageFrom, pure, Except.pure, eq_comm]
  | cons e entries ih =>
    have haccept : v.accept ⟨v.expectedIndex, e.term, e.kind⟩ =
        (v.validateRetainedEntry ⟨v.expectedIndex, e.term, e.kind⟩).map fun _ => { v with
          expectedIndex := v.expectedIndex + 1
          lastLogIndex := v.expectedIndex
          materializedLog := v.materializedLog ++ [e] } := by
      unfold LogValidation.accept
      dsimp only
      rw [if_neg (by omega), if_neg (by omega)]
      cases v.validateRetainedEntry ⟨v.expectedIndex, e.term, e.kind⟩ <;> rfl
    have hcons : (∀ j e', (e :: entries)[j]? = some e' →
        ValidEntry v.currentTerm (v.expectedIndex + j) e') ↔
        ValidEntry v.currentTerm v.expectedIndex e ∧ ∀ j e', entries[j]? = some e' →
          ValidEntry v.currentTerm (v.expectedIndex + 1 + j) e' := by
      refine ⟨fun h => ⟨h 0 e rfl, fun j e' he' => ?_⟩, fun ⟨h₀, h⟩ j e' he' => ?_⟩
      · rw [Nat.add_assoc, Nat.add_comm 1 j]
        exact h (j + 1) e' he'
      · cases j with
        | zero => exact Option.some_inj.1 he' ▸ h₀
        | succ j =>
          rw [Nat.add_comm j 1, ← Nat.add_assoc]
          exact h j e' he'
    rw [imageFrom_cons, List.foldlM_cons, haccept, hcons]
    cases hvalid : v.validateRetainedEntry ⟨v.expectedIndex, e.term, e.kind⟩ with
    | error err =>
      have hnot : ¬ ValidEntry v.currentTerm v.expectedIndex e := fun h => by
        rw [validateRetainedEntry_eq_ok.2 h] at hvalid
        cases hvalid
      simp [hnot, Except.map, bind, Except.bind]
    | ok u =>
      have hentry := validateRetainedEntry_eq_ok.1 hvalid
      refine (ih { v with
        expectedIndex := v.expectedIndex + 1
        lastLogIndex := v.expectedIndex
        materializedLog := v.materializedLog ++ [e] } (by simp only; omega) rfl).trans ?_
      simp only [hentry, true_and, List.length_cons, List.append_assoc, List.singleton_append]
      rw [show v.expectedIndex + 1 + entries.length = v.expectedIndex
        + (entries.length + 1) by omega,
        show v.expectedIndex + entries.length = v.lastLogIndex + (entries.length + 1) by omega]

end Bootstrap

namespace Node

open Bootstrap

variable {n : Node} {c : ℕ} {stored : Option CommittedConfiguration}

theorem snapshotIndex_eq_getD (n : Node) :
    ((n.persistent.snapshot.map (·.metadata)).map (·.lastIncludedIndex)).getD 0 =
      n.snapshotIndex := by
  cases h : n.persistent.snapshot <;> simp [snapshotIndex, h]

theorem validateLog_image {log : List LogEntry} :
    validateLog (n.bootstrapState c stored) = .ok log ↔
      (∀ j e, n.persistent.log[j]? = some e →
        ValidEntry n.currentTerm (n.snapshotIndex + 1 + j) e) ∧
      c ≤ n.lastLogIndex ∧ log = n.persistent.log := by
  have hfold := foldlM_accept_eq_ok n.persistent.log
    { snapshot := n.persistent.snapshot.map (·.metadata)
      currentTerm := n.currentTerm
      storedCommittedConfiguration := stored
      expectedIndex := n.snapshotIndex + 1
      lastLogIndex := n.snapshotIndex
      materializedLog := [] }
    (by rw [snapshotIndex_eq_getD]; exact Nat.lt_succ_self _) rfl
  have hlog : validateLog (n.bootstrapState c stored) =
      (imageFrom (n.snapshotIndex + 1) n.persistent.log).foldlM LogValidation.accept
        { snapshot := n.persistent.snapshot.map (·.metadata)
          currentTerm := n.currentTerm
          storedCommittedConfiguration := stored
          expectedIndex := n.snapshotIndex + 1
          lastLogIndex := n.snapshotIndex
          materializedLog := [] } >>= fun v =>
      if v.lastLogIndex < max c n.snapshotIndex then
        .error (.commitIndexBeyondLog (max c n.snapshotIndex) v.lastLogIndex)
      else .ok v.materializedLog := by
    unfold validateLog
    dsimp only
    rw [show (n.bootstrapState c stored).snapshot = n.persistent.snapshot from rfl,
      n.snapshotIndex_eq_getD]
    rfl
  rw [hlog]
  constructor
  · intro h
    obtain ⟨v, hv, h⟩ := bind_ok h
    obtain ⟨hentries, rfl⟩ := (hfold v).1 hv
    dsimp only at h
    split_ifs at h with hcommit
    refine ⟨hentries, ?_, by simpa using (Except.ok.inj h).symm⟩
    exact (le_max_left _ _).trans (not_lt.1 hcommit)
  · rintro ⟨hentries, hc, rfl⟩
    rw [(hfold _).2 ⟨hentries, rfl⟩]
    refine (if_neg ?_).trans (by simp)
    exact not_lt.2 (max_le hc (Nat.le_add_right _ _))

/-! ## Images of nodes -/

/-- What `from_bootstrap` asks of the durable image of a node with commit index `c` and the stored
configuration. -/
structure Hydrates (n : Node) (c : ℕ) (stored : Option CommittedConfiguration) : Prop where
  vote : n.persistent.votedFor.isSome → n.currentTerm ≠ 0
  snapshot : ∀ s, n.persistent.snapshot = some s → s.metadata.hardStateTerm ≤ n.currentTerm ∧
    (s.metadata.committedMembership.getD n.config.staticMembership).containsReplica
      s.metadata.writerId
  log : ∀ j e, n.persistent.log[j]? = some e →
    ValidEntry n.currentTerm (n.snapshotIndex + 1 + j) e
  commit : c ≤ n.lastLogIndex
  captured : ∀ x, n.snapshotCommittedConfigurationState = some x → x.index ≤ n.snapshotIndex
  stored : ∀ x, stored = some x → validateStored x (n.persistent.snapshot.map (·.metadata))
    n.persistent.log (max c n.snapshotIndex) = .ok ()

theorem validateFloor_eq_ok {x : CommittedConfiguration} {floor : ℕ} :
    validateFloor x floor = .ok () ↔ x.index ≤ floor := by
  unfold validateFloor
  split_ifs with h
  · simp [not_le.2 h]
  · simp [not_lt.1 h]

theorem exists_recoverConfiguration_iff (stored : Option CommittedConfiguration)
    (snapshot : Option RaftSnapshotMetadata) (log : List LogEntry) (c : ℕ) :
    (∃ r, recoverConfiguration stored snapshot log c = .ok r) ↔
      (∀ x, snapshot.bind (·.committedConfigurationState) = some x →
        x.index ≤ (snapshot.map (·.lastIncludedIndex)).getD 0) ∧
      ∀ x, stored = some x → validateStored x snapshot log c = .ok () := by
  constructor
  · rintro ⟨r, h⟩
    unfold recoverConfiguration at h
    dsimp only at h
    constructor
    · intro x hx
      rw [hx] at h
      obtain ⟨⟨⟩, hfloor, -⟩ := bind_ok h
      exact validateFloor_eq_ok.1 hfloor
    · rintro x rfl
      split at h
      · obtain ⟨-, -, h⟩ := bind_ok h
        obtain ⟨⟨⟩, hstored, -⟩ := bind_ok h
        exact hstored
      · obtain ⟨-, -, h⟩ := bind_ok h
        obtain ⟨⟨⟩, hstored, -⟩ := bind_ok h
        exact hstored
  · rintro ⟨hcaptured, hstored⟩
    have hfloor : ∀ x, snapshot.bind (·.committedConfigurationState) = some x →
        validateFloor x ((snapshot.map (·.lastIncludedIndex)).getD 0) = .ok () :=
      fun x hx => validateFloor_eq_ok.2 (hcaptured x hx)
    unfold recoverConfiguration
    dsimp only
    cases hc : snapshot.bind (·.committedConfigurationState) with
    | none =>
      cases stored with
      | none => exact ⟨_, rfl⟩
      | some x =>
        simp only [hstored x rfl, bind, Except.bind, pure, Except.pure]
        exact ⟨_, rfl⟩
    | some y =>
      simp only [hfloor y hc, bind, Except.bind, pure, Except.pure]
      cases stored with
      | none => exact ⟨_, rfl⟩
      | some x =>
        simp only [hstored x rfl]
        exact ⟨_, rfl⟩

theorem hydrates_iff : (∃ m, fromBootstrap n.config (n.bootstrapState c stored) = .ok m) ↔
    n.Hydrates c stored := by
  have hindex : ((n.bootstrapState c stored).snapshot.map
      (·.metadata.lastIncludedIndex)).getD 0 = n.snapshotIndex := by
    rw [← n.snapshotIndex_eq_getD, Option.map_map]
    rfl
  have hcaptured : (n.persistent.snapshot.map (·.metadata)).bind
      (·.committedConfigurationState) = n.snapshotCommittedConfigurationState := by
    rw [Option.bind_map]
    rfl
  have hrecover := exists_recoverConfiguration_iff stored
    (n.persistent.snapshot.map (·.metadata)) n.persistent.log (max c n.snapshotIndex)
  rw [hcaptured, n.snapshotIndex_eq_getD] at hrecover
  simp only [fromBootstrap_eq_ok, hindex]
  constructor
  · rintro ⟨m, log, committed, hvote, hsnapshot, hlog, hconfiguration, -⟩
    obtain ⟨hentries, hc, rfl⟩ := validateLog_image.1 hlog
    obtain ⟨hfloor, hstored⟩ := hrecover.1 ⟨committed, hconfiguration⟩
    exact ⟨validateVote_eq_ok.1 hvote, validateSnapshot_eq_ok.1 hsnapshot, hentries, hc, hfloor,
      hstored⟩
  · intro h
    obtain ⟨committed, hconfiguration⟩ := hrecover.2 ⟨h.captured, h.stored⟩
    exact ⟨_, n.persistent.log, committed, validateVote_eq_ok.2 h.vote,
      validateSnapshot_eq_ok.2 h.snapshot, validateLog_image.2 ⟨h.log, h.commit, rfl⟩,
      hconfiguration, rfl⟩

end Node

end Rafter
