import Rafter.Conduct.Performance
import Rafter.Refinement.Send

/-!
# Sending

A leader reconciles its rows and then sends by pushes. What it sends describes its log, and nothing
but rows changes after the first frame.

Results:

* `Node.Pushes.performs`: a path of pushes is a transition that speaks;
* `Node.replicateToFollower_performs`, `Node.broadcastReplication_performs`.
-/

namespace Rafter

open Protocol

/-- The traffic that replicates a log. -/
def Output.isReplication : Output → Bool
  | .send _ (.appendEntries _) | .sendSnapshotChunk _ _ => true
  | _ => false

theorem Output.licit_of_isReplication {c : Occasion} {n : Node} {x : Output}
    (h : x.isReplication) : x.Licit c n := by
  unfold Licit
  split <;> simp_all [isReplication]

namespace Node

variable {c : Occasion} {n m : Node} {o : Outcome} {b : Bool}

/-! ## Pushes as deeds -/

theorem contains_of_get {s : ProgressSet} {v : NodeId} {row : Progress} (h : s.get v = some row) :
    s.contains v := by
  obtain ⟨i, hi, -⟩ := Option.bind_eq_some_iff.1 h
  simp [ProgressSet.contains, hi]

variable {l : List Output}

theorem Push.act (h : Push n l m) : Act c n (given l) m := by
  cases h with
  | row v f hf _ => exact .row n v f hf
  | frame hrow => exact .frame n _ _ _ (contains_of_get hrow)
  | chunk => exact .emit n _ rfl

theorem Push.isReplication (h : Push n l m) : ∀ x ∈ l, x.isReplication := by
  cases h with
  | row => simp
  | frame | chunk => exact fun x hx => List.mem_singleton.1 hx ▸ rfl

theorem Push.deed (h : Push n l m) : Deed c n (given l) m := by
  obtain ⟨progress, hnode⟩ := h.node
  refine ⟨h.act, .of_eq (by rw [hnode]; rfl), .inr (by rw [hnode]; exact ⟨rfl, .inl rfl⟩),
    fun _ _ => .inr (.of_eq (by rw [hnode]) (by rw [hnode])),
    .of_eq (by rw [hnode]) (by rw [hnode]), ?_⟩
  intro x hx
  rw [filterMap_getRight_given] at hx
  exact Output.licit_of_isReplication (h.isReplication x hx)

/-- The frames of a push describe the log. -/
theorem Push.describes (h : Push n l m) (hn : n.Bounded) :
    ∀ frame ∈ l.filterMap Output.frame?, n.Describes frame := by
  intro frame hmem
  obtain ⟨x, hx, hframe⟩ := List.mem_filterMap.1 hmem
  cases h with
  | row => cases hx
  | frame hrow hlow hentries =>
    rw [List.mem_singleton.1 hx] at hframe
    exact describes_message (hn.role_of_get hrow) hlow (hn.rows.rows _ _ hrow).next hentries hframe
  | chunk =>
    rw [List.mem_singleton.1 hx] at hframe
    cases hframe

/-! ## Paths of pushes -/

theorem Pushes.isReplication (h : n.Pushes o) : ∀ x ∈ o.outputs, x.isReplication := by
  refine Path.history (P := fun past _ => ∀ x ∈ past, x.isReplication) ?_ h (p := []) (by simp)
  intro _ _ _ hpush past hpast x hx
  rcases List.mem_append.1 hx with hx | hx
  · exact hpast x hx
  · exact hpush.isReplication x hx

theorem Pushes.path (h : n.Pushes o) : Path (Deed c) n (given o.outputs) o.node := by
  unfold Pushes at h
  generalize o.outputs = outputs, o.node = m at h
  induction h with
  | refl n => exact .refl n
  | head hpush _ ih =>
    rw [given, List.map_append]
    exact .head hpush.deed ih

theorem Pushes.describes (h : n.Pushes o) (hn : n.Bounded) :
    ∀ frame ∈ o.frames, n.Describes frame := by
  refine (Path.history (P := fun past m => (m.Bounded ∧ ∃ progress, m = { n with
    leader.progress := progress }) ∧ ∀ frame ∈ past.filterMap Output.frame?, n.Describes frame)
    ?_ h (p := []) ⟨⟨hn, n.leader.progress, rfl⟩, by simp⟩).2
  rintro m l m' hpush past ⟨⟨hm, progress, rfl⟩, hpast⟩
  obtain ⟨progress', rfl⟩ := hpush.node
  refine ⟨⟨(hpush.act (c := ⟨n, none⟩)).bounded hm, progress', rfl⟩, fun frame hmem => ?_⟩
  rw [List.filterMap_append] at hmem
  rcases List.mem_append.1 hmem with hmem | hmem
  · exact hpast frame hmem
  · exact (hpush.describes hm frame hmem).of_progress ⟨n.leader.progress, rfl⟩

theorem Pushes.acts (h : n.Pushes o) : n.Acts c true [] o where
  path := ⟨_, h.path, by simp, by simp⟩
  settles _ := by
    obtain ⟨progress, hnode⟩ := h.node
    rw [hnode]
    exact .inl ⟨rfl, le_rfl⟩
  silent hb := by cases hb
  describes hn frame hmem := (h.describes hn frame hmem).of_progress h.node

theorem Pushes.performs (h : n.Pushes o) : n.Performs c true [] o :=
  ⟨h.acts, fun _ _ _ hI _ hn => hn.pushes hI h, fun _ hs => h.still.settled hs⟩

/-! ## Sending functions -/

theorem reconcile_performs (n : Node) : n.Performs c b [] ⟨n.reconcileReplicationProgress, []⟩ := by
  obtain ⟨progress, hp⟩ := n.reconcileReplicationProgress_node
  refine ⟨(Act.reconcile n).idle (by rw [hp]; rfl), fun _ _ _ hI _ hn => ?_,
    fun _ hs => n.still_reconcile.settled hs⟩
  obtain ⟨s', hs, -, hn', -⟩ := hn.reconcile hI
  exact ⟨s', hs, hn', by simp⟩

theorem replicateToFollower_performs (n : Node) (v : NodeId) (demand : ReplicationDemand) :
    n.Performs c true [] (n.replicateToFollower v demand) :=
  .of_left n.reconcile_performs (n.replicateToFollower_pushes v demand).performs

/-- Rows and frames of a broadcast, after its contact round. -/
theorem broadcastRows_performs (n : Node) (demand : ReplicationDemand) :
    n.Performs c true [] (broadcastLoop demand
      n.reconcileReplicationProgress.leader.progress.index.replicas
      n.reconcileReplicationProgress []) :=
  .of_left n.reconcile_performs (broadcastLoop_pushes demand _ (slices_nil _)).performs

/-- Apart from the contact round, replication changes nothing but rows, and it sends nothing but
what replicates. -/
theorem broadcastReplication_node (n : Node) (demand : ReplicationDemand) :
    (∃ progress, (n.broadcastReplication demand).node =
      { (if demand.requiresMessage then n.beginContactRound else n) with
        leader.progress := progress }) ∧
    ∀ x ∈ (n.broadcastReplication demand).outputs, x.isReplication := by
  unfold broadcastReplication
  dsimp only
  generalize (if demand.requiresMessage then n.beginContactRound else n) = m
  have hpushes := broadcastLoop_pushes demand
    m.reconcileReplicationProgress.leader.progress.index.replicas
    (slices_nil m.reconcileReplicationProgress)
  refine ⟨?_, hpushes.isReplication⟩
  obtain ⟨progress, hreconciled⟩ := m.reconcileReplicationProgress_node
  obtain ⟨progress', hnode⟩ := hpushes.node
  rw [hnode, hreconciled]
  exact ⟨progress', rfl⟩

theorem broadcastReplication_performs (n : Node) (demand : ReplicationDemand) :
    n.Performs c true [] (n.broadcastReplication demand) := by
  unfold broadcastReplication
  dsimp only
  split_ifs
  · exact .of_act (.beat n) rfl rfl (broadcastRows_performs _ demand)
  · exact n.broadcastRows_performs demand

end Node

end Rafter
