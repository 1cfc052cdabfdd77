import Rafter.Conduct.Step

/-!
# Tracked proposals

A proposal that its proposer tracks by an id is rejected, or appended and then applied or dropped.
The tracker of the node holds the appended ones that still wait for their end: they are entries of
the leader's log above the dispatch cursor, in log order. A node that is no leader tracks nothing,
so entries that are overwritten or replaced by a snapshot never belong to a tracked proposal.

Results:

* `Node.tracked_proposals_settled_once`: over any calls, each tracked proposal has one outcome.
-/

namespace Rafter

open Protocol

/-! ## Requests and reports of one proposal -/

/-- The payload that a request proposes under `id`. -/
def Request.payloadUnder (id : LocalProposalId) : Request → Option Payload
  | .propose ⟨some i, payload⟩ => if i = id then some payload else none
  | _ => none

/-- The id of a tracked proposal. -/
def Request.trackedId : Request → Option LocalProposalId
  | .propose proposal => proposal.proposalId
  | _ => none

/-- Outputs that carry the proposal id. -/
def Output.reportsOn (id : LocalProposalId) : Output → Bool
  | .localProposalAppended i _ _ | .localProposalDropped i _ _ _ | .apply _ _ _ (some i)
  | .rejectProposal (some i) _ => i = id
  | _ => false

/-- Outputs that carry no proposal id. -/
def Output.isUntracked : Output → Bool
  | .localProposalAppended _ _ _ | .localProposalDropped _ _ _ _ | .apply _ _ _ (some _)
  | .rejectProposal (some _) _ => false
  | _ => true

/-- The payloads proposed under an id. -/
def proposedUnder (id : LocalProposalId) (requests : List Request) : List Payload :=
  requests.filterMap (·.payloadUnder id)

/-- The outputs that report on an id. -/
def reportsOn (id : LocalProposalId) (outputs : List Output) : List Output :=
  outputs.filter (·.reportsOn id)

/-- What becomes of the proposals under one id: the payloads proposed, the outputs that carry the
id, and the tracker entries of the id. -/
inductive ProposalOutcome (id : LocalProposalId) :
    List Payload → List Output → LocalProposalTracker → Prop
  | unheard : ProposalOutcome id [] [] []
  | rejected (payload : Payload) (reason : ProposalRejection) :
    ProposalOutcome id [payload] [.rejectProposal (some id) reason] []
  | pending (payload : Payload) (index term : ℕ) :
    ProposalOutcome id [payload] [.localProposalAppended id index term] [(index, ⟨term, id⟩)]
  | applied (payload : Payload) (index term : ℕ) :
    ProposalOutcome id [payload]
      [.localProposalAppended id index term, .apply index term payload (some id)] []
  | dropped (payload : Payload) (index term : ℕ) (reason : LocalProposalDropReason) :
    ProposalOutcome id [payload]
      [.localProposalAppended id index term, .localProposalDropped id index term reason] []

section Outcomes

variable {id : LocalProposalId} {payloads : List Payload} {reports : List Output}
  {tracked : LocalProposalTracker}

theorem proposedUnder_append (requests requests' : List Request) :
    proposedUnder id (requests ++ requests') =
      proposedUnder id requests ++ proposedUnder id requests' := List.filterMap_append

theorem reportsOn_append (outputs outputs' : List Output) :
    reportsOn id (outputs ++ outputs') = reportsOn id outputs ++ reportsOn id outputs' :=
  List.filter_append ..

theorem reportsOn_eq_nil {outputs : List Output} (h : ∀ x ∈ outputs, x.isUntracked) :
    reportsOn id outputs = [] := by
  refine List.filter_eq_nil_iff.2 fun x hx => ?_
  have hx := h x hx
  unfold Output.isUntracked at hx
  unfold Output.reportsOn
  split at hx <;> simp_all

theorem reportsOn_dropOutputs (reason : LocalProposalDropReason) (t : LocalProposalTracker) :
    reportsOn id (Node.dropOutputs reason t) =
      Node.dropOutputs reason (t.filter fun e => e.2.id = id) := by
  unfold reportsOn Node.dropOutputs
  rw [List.filter_map]
  rfl

theorem ProposalOutcome.drain (h : ProposalOutcome id payloads reports tracked)
    (reason : LocalProposalDropReason) :
    ProposalOutcome id payloads (reports ++ Node.dropOutputs reason tracked) [] := by
  cases h with
  | unheard => exact .unheard
  | rejected payload cause => exact .rejected payload cause
  | pending payload index term => exact .dropped payload index term reason
  | applied payload index term => exact .applied payload index term
  | dropped payload index term cause => exact .dropped payload index term cause

theorem ProposalOutcome.apply {index : ℕ} {p : LocalProposal} {rest : LocalProposalTracker}
    (h : ProposalOutcome id payloads reports ((index, p) :: rest)) {payload : Payload}
    (hpayload : ∀ q ∈ payloads, q = payload) :
    rest = [] ∧ ProposalOutcome id payloads (reports ++ [.apply index p.term payload (some id)])
    [] := by
  cases h with
  | pending q index term =>
    rw [hpayload q (by simp)]
    exact ⟨rfl, .applied payload index term⟩

theorem ProposalOutcome.eq_unheard (h : ProposalOutcome id [] reports tracked) :
    reports = [] ∧ tracked = [] := by
  cases h with
  | unheard => exact ⟨rfl, rfl⟩

end Outcomes

/-! ## The tracker -/

namespace LocalProposalTracker

variable {t : LocalProposalTracker} {k : ℕ}

theorem insert_of_lt (h : ∀ e ∈ t, e.1 < k) (p : LocalProposal) : insert t k p = t ++ [(k, p)] := by
  unfold insert
  cases hlast : t.getLast? with
  | none =>
    rw [List.getLast?_eq_none_iff.1 hlast]
    rfl
  | some e =>
    have hlt := h e (List.mem_of_getLast? hlast)
    dsimp only
    rw [if_neg hlt.ne, if_pos hlt]

/-- Inserting entries in log order appends them. -/
theorem foldl_insert_eq {l : LocalProposalTracker} (h : (t ++ l).Pairwise fun e e' => e.1 < e'.1) :
    l.foldl (fun t e => insert t e.1 e.2) t = t ++ l := by
  induction l generalizing t with
  | nil => simp
  | cons e rest ih =>
    have hlt : ∀ e' ∈ t, e'.1 < e.1 := fun e' he' =>
      (List.pairwise_append.1 h).2.2 e' he' e (by simp)
    rw [List.foldl_cons, insert_of_lt hlt, ih (by simpa using h)]
    simp

theorem remove_cons (k : ℕ) (p : LocalProposal) (rest : LocalProposalTracker) :
    remove ((k, p) :: rest) k = (some p, rest) := by
  simp [remove]

theorem remove_of_lt (h : ∀ e ∈ t, k < e.1) : remove t k = (none, t) := by
  have hne : ∀ e ∈ t, ¬ (decide (e.1 = k) = true) := fun e he => by
    have := h e he
    simp only [decide_eq_true_eq]
    omega
  rw [remove, List.find?_eq_none.2 hne, List.eraseP_of_forall_not hne]
  rfl

end LocalProposalTracker

/-! ## What a move does to the tracked proposals -/

namespace Node

variable {n n' : Node} {id : LocalProposalId}
variable {requests : List Request} {outputs : List Output} {snapshot : RaftSnapshot} {o : Outcome}

/-- The tracker holds proposals of the leader's log above the dispatch cursor. -/
structure Tracks (n : Node) : Prop where
  leads : n.volatile.localProposals ≠ [] → n.role = .leader
  sorted : n.volatile.localProposals.Pairwise fun e e' => e.1 < e'.1
  stands : ∀ e ∈ n.volatile.localProposals, n.dispatchedIndex < e.1 ∧
    ∃ payload, n.entryAt e.1 = some ⟨e.2.term, .application payload⟩

theorem Tracks.eq_nil (h : n.Tracks) (hrole : n.role ≠ .leader) :
    n.volatile.localProposals = [] := not_not.1 fun hne => hrole (h.leads hne)

theorem tracks_of_nil (h : n.volatile.localProposals = []) : n.Tracks := by
  refine ⟨?_, ?_, ?_⟩ <;> simp [h]

theorem Tracks.le_lastLogIndex (ht : n.Tracks) {e : ℕ × LocalProposal}
    (he : e ∈ n.volatile.localProposals) : e.1 ≤ n.lastLogIndex := by
  obtain ⟨-, payload, hentry⟩ := ht.stands e he
  exact (isSome_entryAt.1 (by rw [hentry]; rfl)).2

/-- What a move does to the tracked proposals. -/
inductive Handles (n : Node) : List Request → List Output → Node → Prop
  | keep {n' : Node} {requests : List Request} {outputs : List Output}
    (hrequests : ∀ q ∈ requests, q.trackedId = none) (houtputs : ∀ x ∈ outputs, x.isUntracked)
    (htracker : n'.volatile.localProposals = n.volatile.localProposals)
    (hrole : n.role = .leader → n'.role = .leader)
    (hentry : ∀ e ∈ n.volatile.localProposals, n'.dispatchedIndex < e.1 ∧
      n'.entryAt e.1 = n.entryAt e.1) : Handles n requests outputs n'
  | drain {n' : Node} (reason : LocalProposalDropReason) {outputs : List Output}
    (houtputs : ∀ x ∈ outputs, x.isUntracked) (htracker : n'.volatile.localProposals = []) :
    Handles n [] (dropOutputs reason n.volatile.localProposals ++ outputs) n'
  | append (id : LocalProposalId) (payload : Payload) (hrole : n.role = .leader) :
    Handles n [.propose ⟨some id, payload⟩]
      [.localProposalAppended id (n.lastLogIndex + 1) n.currentTerm]
      (n.appendProposal ⟨some id, payload⟩).node
  | reject (id : LocalProposalId) (payload : Payload) (reason : ProposalRejection) :
    Handles n [.propose ⟨some id, payload⟩] [.rejectProposal (some id) reason] n
  | apply {n' : Node} (p : LocalProposal) (rest : LocalProposalTracker) (payload : Payload)
    (htracker : n.volatile.localProposals = (n.dispatchedIndex + 1, p) :: rest)
    (hentry : n.entryAt (n.dispatchedIndex + 1) = some ⟨p.term, .application payload⟩)
    (hnode : n' = { n with
      volatile.dispatchedIndex := n.dispatchedIndex + 1
      volatile.localProposals := rest }) :
    Handles n [] [.apply (n.dispatchedIndex + 1) p.term payload (some p.id)] n'

section Keep

variable (hrequests : ∀ q ∈ requests, q.trackedId = none) (houtputs : ∀ x ∈ outputs, x.isUntracked)
include hrequests houtputs

theorem Handles.of_eq (ht : n.Tracks)
    (htracker : n'.volatile.localProposals = n.volatile.localProposals)
    (hrole : n.role = .leader → n'.role = .leader)
    (hdispatched : n'.dispatchedIndex = n.dispatchedIndex)
    (hsnapshot : n'.persistent.snapshot = n.persistent.snapshot)
    (hlog : n'.persistent.log = n.persistent.log) : n.Handles requests outputs n' :=
  .keep hrequests houtputs htracker hrole fun e he =>
    ⟨hdispatched ▸ (ht.stands e he).1, entryAt_congr hsnapshot hlog e.1⟩

/-- Entries behind the log leave the tracked ones. -/
theorem Handles.of_appendLogEntry (ht : n.Tracks) (e : LogEntry) :
    n.Handles requests outputs (n.appendLogEntry e) :=
  .keep hrequests houtputs rfl (fun h => h) fun p hp =>
    ⟨(ht.stands p hp).1, entryAt_appendLogEntry e (ht.le_lastLogIndex hp)⟩

/-- With nothing tracked before and after, only the outputs matter. -/
theorem Handles.of_nil (hrole : n.role ≠ .leader) (ht : n.volatile.localProposals = [])
    (ht' : n'.volatile.localProposals = []) : n.Handles requests outputs n' :=
  .keep hrequests houtputs (ht'.trans ht.symm) (fun h => absurd h hrole) (by simp [ht])

end Keep

theorem isUntracked_of_isTraffic {x : Output} (h : x.isTraffic) : x.isUntracked := by
  unfold Output.isTraffic at h
  unfold Output.isUntracked
  split at h <;> simp_all

theorem handles_dispatchEntry (ht : n.Tracks) {entry : LogEntry}
    (hentry : n.entryAt (n.dispatchedIndex + 1) = some entry) :
    n.Handles [] (n.dispatchEntry (n.dispatchedIndex + 1) entry).outputs
      (n.dispatchEntry (n.dispatchedIndex + 1) entry).node := by
  -- the tracker is in log order, so only its first proposal can be the dispatched entry
  by_cases hfirst : ∃ p rest, n.volatile.localProposals = (n.dispatchedIndex + 1, p) :: rest
  · obtain ⟨p, rest, htracker⟩ := hfirst
    obtain ⟨-, payload, hstands⟩ := ht.stands (n.dispatchedIndex + 1, p) (by simp [htracker])
    obtain rfl := Option.some_inj.1 (hentry.symm.trans hstands)
    have hremove := LocalProposalTracker.remove_cons (n.dispatchedIndex + 1) p rest
    rw [← htracker] at hremove
    have heq : n.dispatchEntry (n.dispatchedIndex + 1) ⟨p.term, .application payload⟩ =
        ⟨{ n with
            volatile.dispatchedIndex := n.dispatchedIndex + 1
            volatile.localProposals := rest },
          [.apply (n.dispatchedIndex + 1) p.term payload (some p.id)]⟩ := by
      simp [dispatchEntry, hremove]
    rw [heq]
    exact .apply p rest payload htracker hstands rfl
  · have habove : ∀ e ∈ n.volatile.localProposals, n.dispatchedIndex + 1 < e.1 := by
      intro e he
      refine lt_of_le_of_ne (ht.stands e he).1 fun heq => hfirst ?_
      cases htracker : n.volatile.localProposals with
      | nil => simp [htracker] at he
      | cons e' rest =>
        have hsorted := ht.sorted
        have hpos := (ht.stands e' (by simp [htracker])).1
        rw [htracker] at hsorted he
        rcases List.mem_cons.1 he with rfl | he
        · exact ⟨e.2, rest, by rw [heq]⟩
        · have := (List.pairwise_cons.1 hsorted).1 e he
          omega
    have hremove := LocalProposalTracker.remove_of_lt habove
    refine .keep (by simp) (fun x hx => ?_) ?_ ?_ fun e he => ?_
    · rcases entry with ⟨term, payload | configuration | _⟩ <;>
        simp only [dispatchEntry, hremove, Option.bind_none, List.mem_singleton,
          List.not_mem_nil] at hx <;> subst hx <;> rfl
    · rw [dispatchEntry_node, hremove]
    · rw [dispatchEntry_node]
      exact fun h => h
    · rw [dispatchEntry_node]
      exact ⟨habove e he, entryAt_congr rfl rfl e.1⟩

/-- A local snapshot keeps the tracked proposals that stand, in log order, and drops the others. -/
theorem proposals_recorded (h : n.installLocalSnapshot snapshot = .ok o)
    (hsorted : n.volatile.localProposals.Pairwise fun e e' => e.1 < e'.1) :
    o.node.volatile.localProposals =
        n.volatile.localProposals.filter (fun e => o.node.termAt e.1 = some e.2.term) ∧
      o.outputs = dropOutputs .logOverwritten (n.volatile.localProposals.filter
        fun e => !decide (o.node.termAt e.1 = some e.2.term)) := by
  obtain ⟨-, ho⟩ := installLocalSnapshot_ok h
  have htracker : o.node.volatile.localProposals =
      (n.volatile.localProposals.filter fun e => o.node.termAt e.1 = some e.2.term).foldl
        (fun t e => LocalProposalTracker.insert t e.1 e.2) [] := by rw [ho]; rfl
  rw [htracker, LocalProposalTracker.foldl_insert_eq (by simpa using hsorted.filter _)]
  exact ⟨rfl, by rw [ho]; rfl⟩

/-- Every tracked proposal survives a local snapshot: the boundary stays at or below the dispatch
cursor. -/
theorem handles_compact (ht : n.Tracks) (h : n.installLocalSnapshot snapshot = .ok o) :
    n.Handles [.compact snapshot] o.outputs o.node := by
  have hc := compacted_of_ok h
  have hentry : ∀ e ∈ n.volatile.localProposals, snapshot.metadata.lastIncludedIndex < e.1 ∧
      o.node.entryAt e.1 = n.entryAt e.1 := by
    intro e he
    have hlt := hc.accepts.applied.trans_lt (ht.stands e he).1
    exact ⟨hlt, by rw [hc.entryAt_eq, if_neg (not_le.2 hlt)]⟩
  have hstands : ∀ e ∈ n.volatile.localProposals, o.node.termAt e.1 = some e.2.term := by
    intro e he
    obtain ⟨hlt, heq⟩ := hentry e he
    obtain ⟨-, payload, hpayload⟩ := ht.stands e he
    rw [termAt_of_lt (by rw [hc.snapshotIndex_eq]; exact hlt), heq, hpayload]
    rfl
  obtain ⟨htracker, houtputs⟩ := proposals_recorded h ht.sorted
  rw [List.filter_eq_self.2 (by simpa using hstands)] at htracker
  rw [List.filter_eq_nil_iff.2 (by simpa using hstands)] at houtputs
  refine .keep ?_ ?_ htracker (fun hrole => hc.role.trans hrole) fun e he => ?_
  · simp [Request.trackedId]
  · simp [houtputs, dropOutputs]
  · exact ⟨hc.dispatched ▸ (ht.stands e he).1, (hentry e he).2⟩

theorem Move.handles {l : List Observation} (h : Move n l n') (ht : n.Tracks) :
    n.Handles (l.filterMap Sum.getLeft?) (l.filterMap Sum.getRight?) n' := by
  cases h with
  | traffic hledger htransfer hsequence houtputs =>
    rw [filterMap_getLeft_given, filterMap_getRight_given]
    exact .of_eq (by simp) (fun x hx => isUntracked_of_isTraffic (houtputs x hx)) ht
      (congrArg Ledger.localProposals hledger)
      (fun hrole => (congrArg Ledger.role hledger).trans hrole)
      (congrArg Ledger.dispatchedIndex hledger) (congrArg Ledger.snapshot hledger)
      (congrArg Ledger.log hledger)
  | follow term =>
    rw [filterMap_getLeft_given, filterMap_getRight_given, becomeFollower_outputs]
    refine .drain .leadershipLost (fun x hx => ?_) rfl
    obtain ⟨id, rfl⟩ := mem_drainPendingReads hx
    rfl
  | campaign hrole hrole' hterm hledger hleader =>
    exact .of_nil (by simp) (by simp) hrole (ht.eq_nil hrole)
      ((congrArg Ledger.localProposals hledger).trans (ht.eq_nil hrole))
  | lead hrole => exact .of_nil (by simp) (by simp) hrole (ht.eq_nil hrole) (ht.eq_nil hrole)
  | configure configuration hrole => exact .of_appendLogEntry (by simp) (by simp) ht _
  | propose proposal hrole =>
    rw [List.filterMap_cons, List.filterMap_cons, filterMap_getLeft_given,
      filterMap_getRight_given]
    rcases proposal with ⟨_ | id, payload⟩
    · exact .of_appendLogEntry (by simp [Request.trackedId]) (by simp [appendProposal]) ht _
    · exact .append id payload hrole
  | refuse proposal reason =>
    rcases proposal with ⟨_ | id, payload⟩
    · exact .of_eq (by simp [Request.trackedId]) (by simp [Output.isUntracked, List.filterMap_cons])
        ht rfl (fun h => h) rfl rfl rfl
    · exact .reject id payload reason
  | commit k hk hle => exact .of_eq (by simp) (by simp) ht rfl (fun h => h) rfl rfl rfl
  | dispatch entry hlt hentry =>
    rw [filterMap_getLeft_given, filterMap_getRight_given]
    exact handles_dispatchEntry ht hentry
  | splice hrole hprev h =>
    rw [filterMap_getLeft_given, filterMap_getRight_given]
    obtain ⟨f, rest, hspliced, -⟩ := spliced_of_ok hprev h
    obtain ⟨tracker, configuration, hnode, -, htracker⟩ := hspliced.node
    obtain ⟨reason, dropped, houtputs, hdropped⟩ := hspliced.outputs
    have hnil := ht.eq_nil hrole
    rw [houtputs, hdropped hnil]
    exact .of_nil (by simp) (by simp [dropOutputs]) hrole hnil (by rw [hnode]; exact htracker hnil)
  | install snapshot staged hrole hnew =>
    rw [filterMap_getLeft_given, filterMap_getRight_given]
    obtain ⟨tracker, dropped, hinstall, hempty⟩ := n.installSnapshotState_eq snapshot
    have hnil := ht.eq_nil hrole
    rw [hinstall, (hempty hnil).2]
    exact .of_nil (by simp) (by simp [dropOutputs, Output.isUntracked]) hrole hnil (hempty hnil).1
  | compact h =>
    rw [List.filterMap_cons, List.filterMap_cons, filterMap_getLeft_given,
      filterMap_getRight_given]
    exact handles_compact ht h
  | decline snapshot =>
    exact .of_eq (by simp [Request.trackedId]) (by simp [List.filterMap_cons]) ht rfl (fun h => h)
      rfl rfl rfl
  | transfer pending reason =>
    rw [filterMap_getLeft_given, filterMap_getRight_given]
    refine .of_eq (by simp) (fun x hx => ?_) ht rfl (fun h => h) rfl rfl rfl
    obtain ⟨id, rfl⟩ := mem_drainPendingReads hx
    rfl
  | register readIds acks hrole htransfer hne hlength =>
    exact .of_eq (by simp [Request.trackedId]) (by simp) ht rfl (fun h => h) rfl rfl rfl
  | grant readIds =>
    exact .of_eq (by simp [Request.trackedId]) (by simp [grantReads, Output.isUntracked]) ht rfl
      (fun h => h) rfl rfl rfl
  | reject readIds reason =>
    exact .of_eq (by simp [Request.trackedId]) (by simp [rejectReads, Output.isUntracked]) ht rfl
      (fun h => h) rfl rfl rfl
  | acknowledge v sequence =>
    rw [filterMap_getLeft_given, filterMap_getRight_given]
    obtain ⟨kept, hnode⟩ := n.acknowledgeReadBarriers_node v sequence
    refine .of_eq (by simp) (fun x hx => ?_) ht (by rw [hnode]) (by rw [hnode]; exact fun h => h)
      (by rw [hnode]; rfl) (by rw [hnode]) (by rw [hnode])
    obtain ⟨id, k, rfl⟩ := mem_acknowledgeReadBarriers hx
    rfl

/-! ## What every move keeps -/

/-- An appended proposal enters the tracker at the end. -/
theorem localProposals_appendProposal (ht : n.Tracks) (id : LocalProposalId) (payload : Payload) :
    (n.appendProposal ⟨some id, payload⟩).node.volatile.localProposals =
      n.volatile.localProposals ++ [(n.lastLogIndex + 1, ⟨n.currentTerm, id⟩)] :=
  LocalProposalTracker.insert_of_lt (fun _ he => Nat.lt_succ_of_le (ht.le_lastLogIndex he)) _

theorem entryAt_appendProposal (id : LocalProposalId) (payload : Payload) {k : ℕ}
    (hk : k ≤ n.lastLogIndex) :
    (n.appendProposal ⟨some id, payload⟩).node.entryAt k = n.entryAt k := by
  rw [← entryAt_appendLogEntry ⟨n.currentTerm, .application payload⟩ hk]
  exact entryAt_congr rfl rfl k

theorem entryAt_appendProposal_succ (n : Node) (id : LocalProposalId) (payload : Payload) :
    (n.appendProposal ⟨some id, payload⟩).node.entryAt (n.lastLogIndex + 1) =
      some ⟨n.currentTerm, .application payload⟩ := by
  rw [← n.entryAt_lastLogIndex_succ]
  exact entryAt_congr rfl rfl _

theorem Handles.tracks (h : n.Handles requests outputs n') (hn : n.Sound) (ht : n.Tracks) :
    n'.Tracks := by
  cases h with
  | keep hrequests houtputs htracker hrole hentry =>
    refine ⟨fun hne => hrole (ht.leads (htracker ▸ hne)), htracker ▸ ht.sorted, fun e he => ?_⟩
    rw [htracker] at he
    obtain ⟨-, payload, hpayload⟩ := ht.stands e he
    exact ⟨(hentry e he).1, payload, (hentry e he).2.trans hpayload⟩
  | drain reason houtputs htracker => exact tracks_of_nil htracker
  | append id payload hrole =>
    have htracker := localProposals_appendProposal ht id payload
    refine ⟨fun _ => hrole, ?_, fun e he => ?_⟩
    · rw [htracker, List.pairwise_append]
      refine ⟨ht.sorted, List.pairwise_singleton _ _, fun e he e' he' => ?_⟩
      obtain rfl := List.mem_singleton.1 he'
      exact Nat.lt_succ_of_le (ht.le_lastLogIndex he)
    · rw [htracker] at he
      rcases List.mem_append.1 he with he | he
      · obtain ⟨hlt, entry, hentry⟩ := ht.stands e he
        exact ⟨hlt, entry, (entryAt_appendProposal id payload (ht.le_lastLogIndex he)).trans hentry⟩
      · obtain rfl := List.mem_singleton.1 he
        exact ⟨Nat.lt_succ_of_le (hn.dispatched_le.trans hn.commit_le), payload,
          n.entryAt_appendProposal_succ id payload⟩
  | reject id payload reason => exact ht
  | apply p rest payload htracker hentry hnode =>
    subst hnode
    have hsorted := ht.sorted
    have hstands := ht.stands
    rw [htracker] at hsorted hstands
    obtain ⟨habove, hrest⟩ := List.pairwise_cons.1 hsorted
    refine ⟨fun _ => ht.leads (by simp [htracker]), hrest, fun e he => ?_⟩
    obtain ⟨-, entry, hentry'⟩ := hstands e (List.mem_cons_of_mem _ he)
    exact ⟨habove e he, entry, (entryAt_congr rfl rfl e.1).trans hentry'⟩

/-- The tracker entries of the proposals under `id`. -/
def trackedUnder (n : Node) (id : LocalProposalId) : LocalProposalTracker :=
  n.volatile.localProposals.filter fun e => e.2.id = id

/-- The outcome so far of the proposals under `id`, and that a tracked one is in the log with the
payload that was proposed. -/
structure Accounts (n : Node) (id : LocalProposalId) (requests : List Request)
    (outputs : List Output) : Prop where
  outcome : ProposalOutcome id (proposedUnder id requests) (reportsOn id outputs)
    (n.trackedUnder id)
  entry : ∀ e ∈ n.trackedUnder id, ∀ payload ∈ proposedUnder id requests,
    n.entryAt e.1 = some ⟨e.2.term, .application payload⟩

section Accounts

variable {past : List Request} {told : List Output}

theorem proposedUnder_eq_nil (h : ∀ q ∈ requests, q.trackedId = none) :
    proposedUnder id requests = [] := by
  refine List.filterMap_eq_nil_iff.2 fun q hq => ?_
  have hq := h q hq
  rcases q with r | ⟨_ | i, payload⟩ | snapshot
  · rfl
  · rfl
  · simp [Request.trackedId] at hq
  · rfl

@[simp] theorem proposedUnder_propose (i : LocalProposalId) (payload : Payload) :
    proposedUnder id [.propose ⟨some i, payload⟩] = if i = id then [payload] else [] := by
  unfold proposedUnder Request.payloadUnder
  split_ifs <;> simp_all

variable (ha : n.Accounts id past told)

include ha

/-- Nothing is asked or told of `id`, and its tracked entries stay. -/
theorem Accounts.of_silent
    (hrequests : proposedUnder id requests = []) (houtputs : reportsOn id outputs = [])
    (htracked : n'.trackedUnder id = n.trackedUnder id)
    (hentry : ∀ e ∈ n.trackedUnder id, n'.entryAt e.1 = n.entryAt e.1) :
    n'.Accounts id (past ++ requests) (told ++ outputs) := by
  have hpast : proposedUnder id (past ++ requests) = proposedUnder id past := by
    rw [proposedUnder_append, hrequests, List.append_nil]
  refine ⟨?_, fun e he payload hpayload => ?_⟩
  · rw [hpast, reportsOn_append, houtputs, List.append_nil, htracked]
    exact ha.outcome
  · rw [htracked] at he
    rw [hpast] at hpayload
    exact (hentry e he).trans (ha.entry e he payload hpayload)

/-- With distinct ids, a proposal comes under an id of which nothing was asked or told. -/
theorem Accounts.of_first (outputs : List Output)
    {payload : Payload} (hrequests : proposedUnder id requests = [payload])
    (hone : (proposedUnder id (past ++ requests)).length ≤ 1) :
    proposedUnder id (past ++ requests) = [payload] ∧
      reportsOn id (told ++ outputs) = reportsOn id outputs ∧ n.trackedUnder id = [] := by
  rw [proposedUnder_append, hrequests, List.length_append, List.length_singleton] at hone
  have hnone : proposedUnder id past = [] := List.length_eq_zero_iff.1 (by omega)
  have houtcome := ha.outcome
  rw [hnone] at houtcome
  obtain ⟨hreports, htracked⟩ := houtcome.eq_unheard
  refine ⟨?_, ?_, htracked⟩
  · rw [proposedUnder_append, hnone, hrequests, List.nil_append]
  · rw [reportsOn_append, hreports, List.nil_append]

theorem Accounts.append (ht : n.Tracks) (i : LocalProposalId) (payload : Payload)
    (hone : (proposedUnder id (past ++ [.propose ⟨some i, payload⟩])).length ≤ 1) :
    (n.appendProposal ⟨some i, payload⟩).node.Accounts id (past ++ [.propose ⟨some i, payload⟩])
      (told ++ [.localProposalAppended i (n.lastLogIndex + 1) n.currentTerm]) := by
  have htracked : (n.appendProposal ⟨some i, payload⟩).node.trackedUnder id =
      n.trackedUnder id ++ if i = id then [(n.lastLogIndex + 1, ⟨n.currentTerm, i⟩)] else [] := by
    rw [trackedUnder, localProposals_appendProposal ht, List.filter_append]
    split_ifs with hi <;> simp [hi, trackedUnder]
  by_cases hi : i = id
  · subst hi
    rw [if_pos rfl] at htracked
    obtain ⟨hproposed, hreports, hnone⟩ := ha.of_first
      [.localProposalAppended i (n.lastLogIndex + 1) n.currentTerm]
      (by rw [proposedUnder_propose, if_pos rfl]) hone
    rw [hnone, List.nil_append] at htracked
    refine ⟨?_, fun e he q hq => ?_⟩
    · rw [hproposed, hreports, htracked]
      simpa [reportsOn, Output.reportsOn] using ProposalOutcome.pending payload _ _
    · rw [htracked, List.mem_singleton] at he
      rw [hproposed, List.mem_singleton] at hq
      subst he hq
      exact n.entryAt_appendProposal_succ i q
  · rw [if_neg hi, List.append_nil] at htracked
    refine ha.of_silent (by simp [hi]) (by simp [reportsOn, Output.reportsOn, hi]) htracked
      fun e he => ?_
    exact entryAt_appendProposal i payload (ht.le_lastLogIndex (List.mem_of_mem_filter he))

theorem Accounts.reject (i : LocalProposalId) (payload : Payload) (reason : ProposalRejection)
    (hone : (proposedUnder id (past ++ [.propose ⟨some i, payload⟩])).length ≤ 1) :
    n.Accounts id (past ++ [.propose ⟨some i, payload⟩])
      (told ++ [.rejectProposal (some i) reason]) := by
  by_cases hi : i = id
  · subst hi
    obtain ⟨hproposed, hreports, hnone⟩ := ha.of_first [.rejectProposal (some i) reason]
      (by rw [proposedUnder_propose, if_pos rfl]) hone
    refine ⟨?_, by simp [hnone]⟩
    rw [hproposed, hreports, hnone]
    simpa [reportsOn, Output.reportsOn] using ProposalOutcome.rejected payload reason
  · exact ha.of_silent (by simp [hi]) (by simp [reportsOn, Output.reportsOn, hi]) rfl fun _ _ => rfl

/-- The applied entry is the first of the tracker; it carries the payload that was proposed. -/
theorem Accounts.apply {p : LocalProposal} {rest : LocalProposalTracker} {payload : Payload}
    (htracker : n.volatile.localProposals = (n.dispatchedIndex + 1, p) :: rest)
    (hentry : n.entryAt (n.dispatchedIndex + 1) = some ⟨p.term, .application payload⟩) :
    Accounts { n with
        volatile.dispatchedIndex := n.dispatchedIndex + 1
        volatile.localProposals := rest } id (past ++ [])
      (told ++ [.apply (n.dispatchedIndex + 1) p.term payload (some p.id)]) := by
  by_cases hi : p.id = id
  · have htracked : n.trackedUnder id =
        (n.dispatchedIndex + 1, p) :: rest.filter fun e => e.2.id = id := by
      rw [trackedUnder, htracker, List.filter_cons_of_pos (by simpa using hi)]
    have houtcome := ha.outcome
    rw [htracked] at houtcome
    have hpayload : ∀ q ∈ proposedUnder id past, q = payload := by
      intro q hq
      have hq := hentry.symm.trans (ha.entry _ (by rw [htracked]; exact List.mem_cons_self) q hq)
      simpa using hq.symm
    obtain ⟨hrest, hend⟩ := houtcome.apply hpayload
    rw [List.append_nil]
    refine ⟨?_, fun e he => absurd (hrest ▸ he : e ∈ []) (List.not_mem_nil)⟩
    rw [reportsOn_append, trackedUnder, hrest]
    simpa [reportsOn, Output.reportsOn, hi] using hend
  · refine ha.of_silent rfl (by simp [reportsOn, Output.reportsOn, hi]) ?_
      fun e _ => entryAt_congr rfl rfl e.1
    rw [trackedUnder, trackedUnder, htracker, List.filter_cons_of_neg (by simpa using hi)]

omit ha

theorem Handles.accounts (h : n.Handles requests outputs n') (ht : n.Tracks)
    (hone : (proposedUnder id (past ++ requests)).length ≤ 1) (ha : n.Accounts id past told) :
    n'.Accounts id (past ++ requests) (told ++ outputs) := by
  cases h with
  | keep hrequests houtputs htracker hrole hentry =>
    exact ha.of_silent (proposedUnder_eq_nil hrequests) (reportsOn_eq_nil houtputs)
      (by rw [trackedUnder, htracker]; rfl) fun e he => (hentry e (List.mem_of_mem_filter he)).2
  | drain reason houtputs htracker =>
    have hnone : n'.trackedUnder id = [] := by rw [trackedUnder, htracker]; rfl
    refine ⟨?_, by simp [hnone]⟩
    rw [List.append_nil, reportsOn_append, reportsOn_append, reportsOn_dropOutputs,
      reportsOn_eq_nil houtputs, List.append_nil, hnone]
    exact ha.outcome.drain reason
  | append i payload hrole => exact ha.append ht i payload hone
  | reject i payload reason => exact ha.reject i payload reason hone
  | apply p rest payload htracker hentry hnode =>
    subst hnode
    exact ha.apply htracker hentry

end Accounts

/-! ## Runs -/

theorem length_proposedUnder_le_one (h : (requests.filterMap Request.trackedId).Nodup) :
    (proposedUnder id requests).length ≤ 1 := by
  have hcount : (proposedUnder id requests).length =
      (requests.filterMap Request.trackedId).count id := by
    clear h
    induction requests with
    | nil => rfl
    | cons q rest ih =>
      rcases q with r | ⟨_ | i, payload⟩ | snapshot
      · exact ih
      · exact ih
      · by_cases hi : i = id <;>
          simp_all [proposedUnder, Request.payloadUnder, Request.trackedId]
      · exact ih
  rw [hcount]
  exact List.nodup_iff_count_le_one.1 h id

theorem Conducts.accounts (h : n.Conducts requests o) (hn : n.Sound)
    (ht : n.volatile.localProposals = []) (hone : (proposedUnder id requests).length ≤ 1) :
    o.node.Accounts id requests o.outputs := by
  obtain ⟨⟨trace, hpath, rfl, houtputs⟩, -⟩ := h
  have hend := hpath.history (P := fun past m => m.Sound ∧ m.Tracks ∧
      ((proposedUnder id (past.filterMap Sum.getLeft?)).length ≤ 1 →
        m.Accounts id (past.filterMap Sum.getLeft?) (past.filterMap Sum.getRight?)))
    (p := []) ?_ ⟨hn, tracks_of_nil ht, fun _ => ?_⟩
  · rw [← houtputs]
    exact hend.2.2 hone
  · intro m l m' hmove past ⟨hm, htracks, haccounts⟩
    have hhandles := hmove.handles htracks
    refine ⟨hmove.sound hm, hhandles.tracks hm htracks, fun hone => ?_⟩
    rw [List.filterMap_append] at hone ⊢
    rw [List.filterMap_append]
    refine hhandles.accounts htracks hone (haccounts ?_)
    rw [proposedUnder_append, List.length_append] at hone
    exact (Nat.le_add_right _ _).trans hone
  · have hnone : n.trackedUnder id = [] := by rw [trackedUnder, ht]; rfl
    exact ⟨by rw [hnone]; exact .unheard, by simp [hnone]⟩

/-- Every tracked proposal has exactly one outcome: over any calls on a constructed node with
distinct tracked ids, it is rejected and nothing else, or appended and then applied or dropped at
most once, at the appended index and term and with the proposed payload; it is in the tracker
exactly while it waits for its end. -/
theorem tracked_proposals_settled_once (h : n.Constructed) (cs : List Call)
    (hdistinct : ((cs.flatMap Call.requests).filterMap Request.trackedId).Nodup)
    (id : LocalProposalId) :
    ProposalOutcome id (proposedUnder id (cs.flatMap Call.requests))
      (reportsOn id (n.calls cs).outputs) ((n.calls cs).node.trackedUnder id) :=
  ((n.calls_conducts cs).accounts h.sound h.fresh.2.2
    (length_proposedUnder_le_one hdistinct)).outcome

/-- The leader of term 1 appends proposals 5 and 6, applies 5 and loses its office. -/
def applyAndDrop : List Call :=
  takeOffice.map .step ++
    [.stepProposalBatch [⟨some 5, [9]⟩, ⟨some 6, [8]⟩],
      .step (.message 2 (.appendEntriesResponse ⟨1, 2, true, 2, 1⟩)),
      .step (.message 3 (.requestVoteResponse ⟨2, 3, false⟩))]

theorem tracked_proposals_settled_once_leader :
    reportsOn 6 ((Node.new oneOfThree).calls applyAndDrop).outputs =
        [.localProposalAppended 6 3 1, .localProposalDropped 6 3 1 .leadershipLost] ∧
      ProposalOutcome 5 [[9]] (reportsOn 5 ((Node.new oneOfThree).calls applyAndDrop).outputs)
        (((Node.new oneOfThree).calls applyAndDrop).node.trackedUnder 5) := by
  have hdistinct : ((applyAndDrop.flatMap Call.requests).filterMap Request.trackedId).Nodup := by
    decide +kernel
  exact ⟨by decide +kernel,
    tracked_proposals_settled_once (.new oneOfThree) applyAndDrop hdistinct 5⟩

end Node

end Rafter
