import Rafter.Conduct.Dispatch

/-!
# The stream of committed configurations

Each `ConfigurationCommitted` output names the membership it replaces. The names chain: the
membership at the dispatch cursor is what the last configuration output, or the last snapshot sent
to the application, left in force.

Results:

* `Node.committed_configurations_chain`.
-/

namespace Rafter

open Protocol

/-! ## Chains -/

/-- The membership that an output leaves in force. -/
def Output.inForce (static m : MembershipConfig) : Output → MembershipConfig
  | .configurationCommitted _ _ _ configuration => configuration.membershipConfig
  | .applySnapshot snapshot => snapshot.metadata.committedMembership.getD static
  | _ => m

/-- Each committed configuration names as previous the membership that is in force before it, which
is `m` at first, then that of the last configuration or of the last installed snapshot. -/
def Chained (static m : MembershipConfig) : List Output → Prop
  | [] => True
  | x :: rest => (∀ index term previous configuration,
      x = .configurationCommitted index term previous configuration → previous = m) ∧
    Chained static (x.inForce static m) rest

theorem Chained.append {static m : MembershipConfig} {outputs outputs' : List Output}
    (h : Chained static m outputs)
    (h' : Chained static (outputs.foldl (fun m x => x.inForce static m) m) outputs') :
    Chained static m (outputs ++ outputs') := by
  induction outputs generalizing m with
  | nil => exact h'
  | cons x rest ih => exact ⟨h.1, ih h.2 h'⟩

/-- Outputs that move no index leave the membership in force. -/
theorem chained_of_quiet (static m : MembershipConfig) {outputs : List Output}
    (h : ∀ x ∈ outputs, x.position = none) :
    Chained static m outputs ∧ outputs.foldl (fun m x => x.inForce static m) m = m := by
  induction outputs with
  | nil => exact ⟨trivial, rfl⟩
  | cons x rest ih =>
    have hx := h x (by simp)
    have hforce : x.inForce static m = m := by
      cases x with
      | configurationCommitted | applySnapshot => exact absurd hx (by simp [Output.position])
      | _ => rfl
    obtain ⟨hchain, hfold⟩ := ih fun y hy => h y (by simp [hy])
    refine ⟨⟨?_, by rwa [hforce]⟩, by rw [List.foldl_cons, hforce, hfold]⟩
    rintro index term previous configuration rfl
    simp [Output.position] at hx

namespace Node

variable {n n' : Node}
variable {snapshot : RaftSnapshot} {o : Outcome} {k : ℕ} {l : List Observation}

/-! ## Memberships of a sound node -/

theorem Sound.membershipAtIndex_eq (hn : n.Sound) (hk : n.snapshotIndex ≤ k) :
    n.membershipAtIndex k =
      ((lastConfiguration (n.persistent.log.take (k - n.snapshotIndex))).map
        fun x => x.2.membershipConfig).getD n.effectiveBaseMembership := by
  rw [membershipAtIndex, hn.index, ConfigurationIndex.entryAtOrBefore_fromLog, if_pos hk,
    Nat.add_sub_add_right, effectiveBaseMembership]
  rcases lastConfiguration (n.persistent.log.take (k - n.snapshotIndex)) with _ | ⟨o, c⟩ <;> rfl

/-- Memberships at or below the commit index depend on the log up to it. -/
theorem Sound.membershipAtIndex_congr (hn : n.Sound) (hn' : n'.Sound) (hk : n.snapshotIndex ≤ k)
    (hconfig : n'.config = n.config) (hsnapshot : n'.persistent.snapshot = n.persistent.snapshot)
    (hlog : n'.persistent.log.take (k - n.snapshotIndex) = n.persistent.log.take
      (k - n.snapshotIndex)) :
    n'.membershipAtIndex k = n.membershipAtIndex k := by
  have hindex : n'.snapshotIndex = n.snapshotIndex := by unfold snapshotIndex; rw [hsnapshot]
  have hbase : n'.effectiveBaseMembership = n.effectiveBaseMembership := by
    unfold effectiveBaseMembership snapshotCommittedMembership
    rw [hsnapshot, hconfig]
  rw [hn'.membershipAtIndex_eq (hindex ▸ hk), hn.membershipAtIndex_eq hk, hindex, hlog, hbase]

theorem Compacted.take_eq (hc : n.Compacted snapshot o)
    (hk : snapshot.metadata.lastIncludedIndex ≤ k) :
    n.persistent.log.take (k - n.snapshotIndex) =
      n.persistent.log.take (snapshot.metadata.lastIncludedIndex - n.snapshotIndex) ++
        o.node.persistent.log.take (k - snapshot.metadata.lastIncludedIndex) := by
  have hs := hc.accepts.installed
  rw [hc.log, ← List.take_add]
  congr 1
  omega

/-- A local snapshot on whose base the membership at its boundary is unchanged changes no
membership above it. -/
theorem Sound.membershipAtIndex_of_base (hn : n.Sound) (hc : n.Compacted snapshot o)
    (hbase : o.node.effectiveBaseMembership = n.membershipAtIndex
      snapshot.metadata.lastIncludedIndex)
    (hk : snapshot.metadata.lastIncludedIndex ≤ k) :
    o.node.membershipAtIndex k = n.membershipAtIndex k := by
  have hs := hc.accepts.installed
  rw [(hn.compacted hc).membershipAtIndex_eq (hc.snapshotIndex_eq.le.trans hk), hbase,
    hn.membershipAtIndex_eq hs, hn.membershipAtIndex_eq (hs.trans hk), hc.take_eq hk,
    lastConfiguration_append, hc.snapshotIndex_eq]
  rcases lastConfiguration (o.node.persistent.log.take _) with _ | ⟨offset, c⟩ <;> simp

/-- A local snapshot that declares its configuration changes no membership at or above its
boundary. -/
theorem Sound.membershipAtIndex_compacted (hn : n.Sound) (hc : n.Compacted snapshot o)
    (hdeclared : snapshot.metadata.committedConfiguration.isSome)
    (hk : snapshot.metadata.lastIncludedIndex ≤ k) :
    o.node.membershipAtIndex k = n.membershipAtIndex k := by
  obtain ⟨declared, hd⟩ := Option.isSome_iff_exists.1 hdeclared
  refine hn.membershipAtIndex_of_base hc ?_ hk
  rw [← (hc.accepts.declared declared hd).1, effectiveBaseMembership, snapshotCommittedMembership,
    hc.snapshot_eq]
  simp [RaftSnapshotMetadata.committedMembership, hd]

/-- Dispatching an entry puts its configuration in force. -/
theorem Sound.membershipAtIndex_succ (hn : n.Sound) (hk : n.snapshotIndex ≤ k) {e : LogEntry}
    (he : n.entryAt (k + 1) = some e) :
    n.membershipAtIndex (k + 1) =
      (e.configurationEntry.map (·.membershipConfig)).getD (n.membershipAtIndex k) := by
  have hget : n.persistent.log[k - n.snapshotIndex]? = some e := by
    rw [entryAt, if_neg (by omega), firstRetainedLogIndex, Nat.add_sub_add_right] at he
    exact he
  have hsplit : n.persistent.log.take (k + 1 - n.snapshotIndex) =
      n.persistent.log.take (k - n.snapshotIndex) ++ [e] := by
    rw [Nat.sub_add_comm hk, List.take_add_one, hget]
    rfl
  rw [hn.membershipAtIndex_eq (Nat.le_succ_of_le hk), hn.membershipAtIndex_eq hk, hsplit,
    lastConfiguration_append_singleton]
  cases e.configurationEntry <;> rfl

/-! ## Moves -/

/-- The membership in force for the application. -/
def inForce (n : Node) : MembershipConfig := n.membershipAtIndex n.dispatchedIndex

/-- A move that leaves the dispatch cursor reports no index. -/
theorem Move.quiet (h : Move n l n') (hn : n.Sound)
    (hdispatched : n'.dispatchedIndex = n.dispatchedIndex) :
    ∀ x ∈ l.filterMap Sum.getRight?, x.position = none := by
  have hreports : dispatchMedium.reports l = [] := by
    have hcursor := hn.dispatched_le
    cases h.dispatches hn with
    | keep hquiet => exact hquiet
    | deliver hlt he hreport hdelivered =>
      have : n'.dispatchedIndex = n.dispatchedIndex + 1 := hdelivered
      omega
    | jump hreports ha hposition hb hdelivered =>
      have hjump : n.commitIndex < n'.dispatchedIndex := hb.trans_eq hdelivered.symm
      omega
  rw [reports_eq, given, List.map_eq_nil_iff, List.filter_eq_nil_iff] at hreports
  intro x hx
  simpa using hreports x hx

/-- The outputs chain from the membership in force before to the one in force after. -/
structure Chains (n : Node) (outputs : List Output) (n' : Node) : Prop where
  config : n'.config = n.config
  chained : Chained n.config.staticMembership n.inForce outputs
  inForce : outputs.foldl (fun m x => x.inForce n.config.staticMembership m) n.inForce = n'.inForce

/-- A move that leaves the dispatch cursor and the membership at it. -/
theorem Move.chains_of_eq (h : Move n l n') (hn : n.Sound) (hconfig : n'.config = n.config)
    (hdispatched : n'.dispatchedIndex = n.dispatchedIndex)
    (hmembership : n'.membershipAtIndex n.dispatchedIndex = n.membershipAtIndex n.dispatchedIndex) :
    n.Chains (l.filterMap Sum.getRight?) n' := by
  obtain ⟨hchain, hfold⟩ := chained_of_quiet n.config.staticMembership
    n.inForce (h.quiet hn hdispatched)
  refine ⟨hconfig, hchain, hfold.trans ?_⟩
  rw [Node.inForce, Node.inForce, hdispatched, hmembership]

/-- A move that leaves the snapshot and the log up to the dispatch cursor. -/
theorem Move.chains_of_log (h : Move n l n') (hn : n.Sound) (hconfig : n'.config = n.config)
    (hdispatched : n'.dispatchedIndex = n.dispatchedIndex)
    (hsnapshot : n'.persistent.snapshot = n.persistent.snapshot)
    (hlog : n'.persistent.log.take (n.dispatchedIndex - n.snapshotIndex) = n.persistent.log.take
      (n.dispatchedIndex - n.snapshotIndex)) :
    n.Chains (l.filterMap Sum.getRight?) n' :=
  h.chains_of_eq hn hconfig hdispatched
    (hn.membershipAtIndex_congr (h.sound hn) hn.snapshot_le hconfig hsnapshot hlog)

theorem Sound.take_append (hn : n.Sound) (rest : List LogEntry) :
    (n.persistent.log ++ rest).take (n.dispatchedIndex - n.snapshotIndex) =
      n.persistent.log.take (n.dispatchedIndex - n.snapshotIndex) := by
  have hlast := hn.dispatched_le.trans hn.commit_le
  unfold lastLogIndex at hlast
  exact List.take_append_of_le_length (by omega)

theorem Sound.dispatch_chains (hn : n.Sound) {e : LogEntry}
    (he : n.entryAt (n.dispatchedIndex + 1) = some e) :
    n.Chains (n.dispatchEntry (n.dispatchedIndex + 1) e).outputs
      (n.dispatchEntry (n.dispatchedIndex + 1) e).node := by
  have hforce : (n.dispatchEntry (n.dispatchedIndex + 1) e).node.inForce =
      (e.configurationEntry.map (·.membershipConfig)).getD n.inForce := by
    rw [dispatchEntry_node]
    exact hn.membershipAtIndex_succ hn.snapshot_le he
  refine ⟨by rw [dispatchEntry_node], ?_, ?_⟩
  · rcases e with ⟨term, payload | configuration | _⟩
    · exact ⟨by simp, trivial⟩
    · refine ⟨?_, trivial⟩
      rintro index term' previous configuration' heq
      obtain ⟨-, -, rfl, -⟩ := Output.configurationCommitted.inj heq
      rfl
    · trivial
  · rw [hforce]
    rcases e with ⟨term, payload | configuration | _⟩ <;> rfl

theorem Sound.install_chains (hn : n.Sound) (staged : StagedSnapshotChunk)
    (hnew : n.snapshotCoveredThrough < snapshot.metadata.lastIncludedIndex) :
    n.Chains ((n.installSnapshotState snapshot).outputs ++
      [.stageSnapshotChunk staged, .applySnapshot snapshot])
        (n.installSnapshotState snapshot).node := by
  have hn' := hn.installed hnew
  obtain ⟨tracker, dropped, hinstall, -⟩ := n.installSnapshotState_eq snapshot
  obtain ⟨hchain, hfold⟩ := chained_of_quiet n.config.staticMembership n.inForce
    (fun x (hx : x ∈ dropOutputs .logOverwritten dropped) => position_dropOutputs hx)
  have hdispatched : (n.installSnapshotState snapshot).node.dispatchedIndex =
      (n.installSnapshotState snapshot).node.snapshotIndex :=
    max_eq_right ((hn.dispatched_le.trans (le_max_right _ _)).trans hnew.le)
  have hforce : (n.installSnapshotState snapshot).node.inForce =
      snapshot.metadata.committedMembership.getD n.config.staticMembership := by
    rw [Node.inForce, hdispatched, hn'.membershipAtIndex_eq le_rfl, Nat.sub_self, List.take_zero]
    rfl
  refine ⟨rfl, ?_, ?_⟩
  · rw [hinstall]
    refine hchain.append ⟨by simp, by simp, trivial⟩
  · rw [hforce, hinstall, List.foldl_append]
    rfl

/-- Every move chains. Local snapshots must declare their configuration. -/
theorem Move.chains (h : Move n l n') (hn : n.Sound)
    (hdeclared : ∀ snapshot, .inl (.compact snapshot) ∈ l →
      snapshot.metadata.committedConfiguration.isSome) :
    n.Chains (l.filterMap Sum.getRight?) n' := by
  have hmove := h
  cases h with
  | traffic hledger | campaign _ _ _ hledger =>
    exact hmove.chains_of_log hn (congrArg Ledger.config hledger)
      (congrArg Ledger.dispatchedIndex hledger) (congrArg Ledger.snapshot hledger)
      (by rw [show n'.persistent.log = n.persistent.log from congrArg Ledger.log hledger])
  | lead | configure => exact hmove.chains_of_log hn rfl rfl rfl (hn.take_append _)
  | propose proposal hrole =>
    rcases proposal with ⟨_ | id, payload⟩
    · exact hmove.chains_of_log hn rfl rfl rfl (hn.take_append _)
    · exact hmove.chains_of_log hn rfl rfl rfl (hn.take_append _)
  | dispatch entry hlt hentry =>
    rw [filterMap_getRight_given]
    exact hn.dispatch_chains hentry
  | splice hrole hprev h =>
    obtain ⟨f, rest, hspliced, -⟩ := spliced_of_ok hprev h
    obtain ⟨tracker, configuration, hnode, -⟩ := hspliced.node
    have hcommitted := hspliced.committed
    rw [min_eq_left hn.commit_le] at hcommitted
    have hupper := hspliced.upper
    unfold lastLogIndex at hupper
    have hle := hn.dispatched_le
    refine hmove.chains_of_log hn (by rw [hnode]) (by rw [hnode]; rfl) (by rw [hnode]) ?_
    rw [hnode]
    show (n.persistent.log.take (f - n.snapshotIndex) ++ rest).take _ = _
    rw [List.take_append_of_le_length (by rw [List.length_take]; omega), List.take_take,
      min_eq_left (by omega)]
  | install snapshot staged hrole hnew =>
    rw [filterMap_getRight_given]
    exact hn.install_chains staged hnew
  | compact h =>
    have hc := compacted_of_ok h
    exact hmove.chains_of_eq hn hc.config hc.dispatched
      (hn.membershipAtIndex_compacted hc (hdeclared _ List.mem_cons_self) hc.accepts.applied)
  | acknowledge v sequence =>
    obtain ⟨kept, hnode⟩ := n.acknowledgeReadBarriers_node v sequence
    exact hmove.chains_of_log hn (by rw [hnode]) (by rw [hnode]; rfl) (by rw [hnode])
      (by rw [hnode])
  | follow | refuse | commit | decline | transfer | register | grant | reject =>
    exact hmove.chains_of_log hn rfl rfl rfl rfl

/-! ## Runs -/

theorem Chains.refl (n : Node) : n.Chains [] n := ⟨rfl, trivial, rfl⟩

theorem Chains.trans {n'' : Node} {outputs outputs' : List Output} (h : n.Chains outputs n')
    (h' : n'.Chains outputs' n'') : n.Chains (outputs ++ outputs') n'' where
  config := h'.config.trans h.config
  chained := by
    have hchained := h'.chained
    rw [h.config, ← h.inForce] at hchained
    exact h.chained.append hchained
  inForce := by
    have hforce := h'.inForce
    rw [h.config] at hforce
    rw [List.foldl_append, h.inForce, hforce]

theorem Conducts.chains {requests : List Request} (h : n.Conducts requests o) (hn : n.Sound)
    (hdeclared : ∀ snapshot, .compact snapshot ∈ requests →
      snapshot.metadata.committedConfiguration.isSome) :
    n.Chains o.outputs o.node := by
  obtain ⟨⟨trace, hpath, rfl, houtputs⟩, -⟩ := h
  have hend := hpath.history (P := fun past m => m.Sound ∧ ((∀ snapshot,
      .inl (.compact snapshot) ∈ past → snapshot.metadata.committedConfiguration.isSome) →
        n.Chains (past.filterMap Sum.getRight?) m)) (p := []) ?_ ⟨hn, fun _ => .refl n⟩
  · rw [← houtputs]
    exact hend.2 fun snapshot hmem =>
      hdeclared snapshot (List.mem_filterMap.2 ⟨_, hmem, rfl⟩)
  · rintro m l m' hmove past ⟨hm, ih⟩
    refine ⟨hmove.sound hm, fun hall => ?_⟩
    rw [List.filterMap_append]
    exact (ih fun s hs => hall s (List.mem_append_left _ hs)).trans
      (hmove.chains hm fun s hs => hall s (List.mem_append_right _ hs))

theorem compact_mem_requests {cs : List Call} (h : .compact snapshot ∈ cs.flatMap Call.requests) :
    .installLocalSnapshot snapshot ∈ cs := by
  obtain ⟨c, hc, hmem⟩ := List.mem_flatMap.1 h
  cases c with
  | installLocalSnapshot s =>
    obtain rfl := Request.compact.inj (List.mem_singleton.1 hmem)
    exact hc
  | step input => exact absurd (not_isCompact_of_mem_requests hmem) (by simp [Request.isCompact])
  | stepBatch inputs =>
    obtain ⟨input, -, hq⟩ := List.mem_flatMap.1 hmem
    exact absurd (not_isCompact_of_mem_requests hq) (by simp [Request.isCompact])
  | stepProposalBatch | drainCommittedOutputs => simp [Call.requests] at hmem

/-- The committed configuration stream of a new or restored node is a chain, over any calls whose
local snapshots declare their configuration: each output names as previous the membership of the
configuration output before it, or of the last snapshot sent to the application since, or at first
of the node's own snapshot and without one the static membership. -/
theorem committed_configurations_chain {config : NodeConfig}
    (h : n = Node.new config ∨ ∃ b, fromBootstrap config b = .ok n) (cs : List Call)
    (hdeclared : ∀ snapshot, .installLocalSnapshot snapshot ∈ cs →
      snapshot.metadata.committedConfiguration.isSome) :
    Chained config.staticMembership
      (n.snapshotCommittedMembership.getD config.staticMembership) (n.calls cs).outputs := by
  have hstart : n.Sound ∧ n.config = config ∧ n.dispatchedIndex = n.snapshotIndex := by
    rcases h with rfl | ⟨b, h⟩
    · exact ⟨(Constructed.new config).sound, rfl, rfl⟩
    · refine ⟨sound_of_fromBootstrap h, ?_⟩
      obtain ⟨log, committed, -, -, -, -, rfl⟩ := fromBootstrap_eq_ok.1 h
      exact ⟨rfl, by cases b.snapshot <;> simp [dispatchedIndex, snapshotIndex]⟩
  obtain ⟨hn, rfl, hdispatched⟩ := hstart
  have hchains := (n.calls_conducts cs).chains hn fun s hs => hdeclared s (compact_mem_requests hs)
  have hforce : n.inForce = n.snapshotCommittedMembership.getD n.config.staticMembership := by
    rw [inForce, hdispatched, hn.membershipAtIndex_eq le_rfl, Nat.sub_self, List.take_zero]
    rfl
  rw [← hforce]
  exact hchains.chained

/-! A sole voter takes in learners 2 and 3 and compacts between the two. -/

/-- The sole voter 1. -/
def soleVoter : NodeConfig where
  id := 1
  staticMembership := .stable oneVoter
  electionTimeoutTicks := 1
  electionTimeoutTicks_pos := Nat.one_pos
  requestedPreVote := false

/-- Voter 1 and learner 2. -/
def voterAndLearner : MembershipSet :=
  { oneVoter with learners := [2], learners_sorted := by decide, disjoint := by decide }

/-- The snapshot at index 2, where learner 2 has joined. -/
def learnerSnapshot : RaftSnapshot where
  metadata :=
    { groupId := soleSnapshotId
      writerId := 1
      lastIncludedIndex := 2
      lastIncludedTerm := 1
      hardStateTerm := 1
      application := soleApplication
      committedConfiguration := some
        ⟨some ⟨2, 1⟩, .stable voterAndLearner⟩ }
  applicationPayloadLen := 0
  applicationPayloadCrc32 := 0

/-- The calls of the run. -/
def compactBetween : List Call :=
  [.step .tick, .step (.addLearner 2), .installLocalSnapshot learnerSnapshot, .step (.addLearner 3)]

theorem committed_configurations_chain_compacted :
    ((Node.new soleVoter).calls compactBetween).outputs.filterMap Output.position = [2, 3] ∧
      ((Node.new soleVoter).calls compactBetween).node.snapshotIndex = 2 ∧
      Chained soleVoter.staticMembership
        ((Node.new soleVoter).snapshotCommittedMembership.getD soleVoter.staticMembership)
        ((Node.new soleVoter).calls compactBetween).outputs := by
  have hdeclared : ∀ snapshot, .installLocalSnapshot snapshot ∈ compactBetween →
      snapshot.metadata.committedConfiguration.isSome := by
    intro snapshot hmem
    simp only [compactBetween, List.mem_cons, reduceCtorEq, Call.installLocalSnapshot.injEq,
      List.not_mem_nil, false_or, or_false] at hmem
    rw [hmem]
    rfl
  have hnew : Node.new soleVoter = Node.new soleVoter ∨
      ∃ b, Node.fromBootstrap soleVoter b = .ok (Node.new soleVoter) := .inl rfl
  exact ⟨by decide +kernel, by decide +kernel,
    committed_configurations_chain hnew compactBetween hdeclared⟩

end Node

end Rafter
