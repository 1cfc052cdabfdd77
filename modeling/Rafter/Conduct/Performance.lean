import Rafter.Conduct.Settled
import Rafter.Conduct.Transitions
import Rafter.Refinement.Lifecycle

/-!
# Transitions as functions of a node make them

What one walk through the functions of a node establishes of each of them: the transition is a path
of deeds; if the input tells the truth it consists of actions of the abstract protocol; and it
leaves a settled leader settled.

Results:

* `Node.Performs.andThen`: transitions compose, a part that sends frames last;
* `Node.Acts.performs_of_core`: changes outside the core take no action and settle nothing.
-/

namespace Rafter

open Protocol

/-! ## Inputs and outputs -/

/-- What the input tells the node is true. -/
def Occasion.Genuine (c : Occasion) (initial : MembershipConfig) (i : NodeId) (s : Ghost) : Prop :=
  ∀ input, c.input = some input → InputOk initial i s input

variable {initial : MembershipConfig} {i : NodeId} {s : Ghost}

/-- No cluster makes a raw configuration proposal. -/
theorem Occasion.Genuine.not_raw {c : Occasion} (h : c.Genuine initial i s) : ¬ c.raw := by
  intro hraw
  unfold raw at hraw
  split at hraw
  · rename_i configuration barriers hinput
    have hlocal := h _ hinput
    simp [InputOk, Input.isLocal] at hlocal
  · cases hraw

theorem outputOk_of_isIdle {x : Output} (h : x.isIdle) : OutputOk initial i s x := by
  unfold OutputOk
  split <;> simp_all [Output.isIdle]

theorem Outcome.nil_andThen (n : Node) (f : Node → Outcome) :
    Outcome.andThen ⟨n, []⟩ f = f n := rfl

namespace Node

variable {c : Occasion} {n m : Node} {o : Outcome} {f : Node → Outcome} {b : Bool}
  {rs rs' : List Request}

/-! ## Actions of the protocol -/

/-- If the input tells the truth, the transition consists of actions of the protocol. -/
def Refines (n : Node) (c : Occasion) (o : Outcome) : Prop :=
  ∀ ⦃initial i s⦄, (raftScheme initial).Inv s → c.Genuine initial i s → NodeOk initial i s n →
    Reaches initial i s o

theorem Refines.refl (n : Node) : n.Refines c ⟨n, []⟩ :=
  fun _ _ _ _ _ hn => .of_node hn (by simp)

theorem Refines.andThen (h : n.Refines c o) (hf : o.node.Refines c (f o.node)) :
    n.Refines c (o.andThen f) :=
  fun _ _ _ hI hc hn => (h hI hc hn).andThen hI fun _ hI' he hn' =>
    hf hI' (fun input hinput => (hc input hinput).mono hI he) hn'

theorem Refines.of_left (h : n.Refines c ⟨m, []⟩) (hm : m.Refines c o) : n.Refines c o :=
  h.andThen (f := fun _ => o) hm

theorem Refines.of_core (hcore : o.node.core = n.core) (hidle : ∀ x ∈ o.outputs, x.isIdle) :
    n.Refines c o :=
  fun _ _ _ _ _ hn => .of_core hn hcore fun x hx => outputOk_of_isIdle (hidle x hx)

/-! ## Transitions -/

/-- A transition as the functions of a node make it. -/
structure Performs (n : Node) (c : Occasion) (speaks : Bool) (requests : List Request)
    (o : Outcome) : Prop extends Acts n c speaks requests o where
  refines : n.Refines c o
  rests : n.Bounded → n.Settled → o.node.Settled

theorem Performs.refl (n : Node) : n.Performs c b [] ⟨n, []⟩ :=
  ⟨.refl n, .refl n, fun _ hs => hs⟩

/-- Two transitions one after the other, if the frames of the first describe the node at the end. -/
theorem Performs.compose {b' : Bool} (h : n.Performs c b rs o)
    (hf : o.node.Performs c b' rs' (f o.node))
    (hframes : n.Bounded → ∀ frame ∈ o.frames, (f o.node).node.Describes frame) :
    n.Performs c (b || b') (rs ++ rs') (o.andThen f) :=
  ⟨h.toActs.compose hf.toActs hframes, h.refines.andThen hf.refines,
    fun hn hs => hf.rests (h.bounded hn) (h.rests hn hs)⟩

/-- Frames come after all other changes. -/
theorem Performs.andThen (h : n.Performs c false rs o) (hf : o.node.Performs c b rs' (f o.node)) :
    n.Performs c b (rs ++ rs') (o.andThen f) :=
  ⟨h.toActs.andThen hf.toActs, h.refines.andThen hf.refines,
    fun hn hs => hf.rests (h.bounded hn) (h.rests hn hs)⟩

theorem Performs.then (h : n.Performs c false rs o) (hf : o.node.Performs c b [] (f o.node)) :
    n.Performs c b rs (o.andThen f) := by
  simpa using h.andThen hf

theorem Performs.of_left (hn : n.Performs c false [] ⟨m, []⟩) (h : m.Performs c b rs o) :
    n.Performs c b rs o :=
  hn.andThen (f := fun _ => o) h

/-! ## Changes outside the core -/

theorem Still.of_core (h : m.core = n.core) : n.Still m := by
  have hstanding : m.core.standing = n.core.standing := by rw [h]
  have hprogress : m.core.leader.progress = n.core.leader.progress := by rw [h]
  exact .of_progress hstanding hprogress

theorem Acts.performs_of_core (h : n.Acts c b rs o) (hcore : o.node.core = n.core)
    (hidle : ∀ x ∈ o.outputs, x.isIdle) : n.Performs c b rs o :=
  ⟨h, .of_core hcore hidle, fun _ hs => (Still.of_core hcore).settled hs⟩

/-- A change without outputs. -/
theorem Acts.quietly (h : n.Acts c b rs ⟨m, []⟩) (hcore : m.core = n.core) :
    n.Performs c b rs ⟨m, []⟩ :=
  h.performs_of_core hcore (by simp)

theorem Act.performs {l : List Output} (h : Act c n (given l) m) (hground : m.ground = n.ground)
    (hcore : m.core = n.core) (hidle : ∀ x ∈ l, x.isIdle) : n.Performs c b [] ⟨m, l⟩ :=
  (h.acts hground fun x hx => Output.isPlain_of_isIdle (hidle x hx)).performs_of_core hcore hidle

/-- An act without outputs may come first. -/
theorem Performs.of_act (hact : Act c n [] m) (hground : m.ground = n.ground)
    (hcore : m.core = n.core) (h : m.Performs c b rs o) : n.Performs c b rs o :=
  .of_left ((hact.idle hground).quietly hcore) h

theorem still_performs (hcore : m.core = n.core) (hspine : m.spine = n.spine)
    (htransfer : m.leader.pendingTransfer.isSome → n.leader.pendingTransfer.isSome)
    (hground : m.ground = n.ground) : n.Performs c b [] ⟨m, []⟩ :=
  (still_acts hspine htransfer hground).quietly hcore

/-- Changes outside the core and the spine, as in `quiet_acts`. -/
theorem quiet_performs (hcore : m.core = n.core) (hspine : m.spine = n.spine)
    (htransfer : m.leader.pendingTransfer.isSome → n.leader.pendingTransfer.isSome)
    (hauthorized : n.leader.depositionAuthorized → m.leader.depositionAuthorized)
    (hincoming : c.stages ∨ m.volatile.incomingSnapshot = n.volatile.incomingSnapshot)
    (hheeds : c.input = some .tick ∨ Heeds c n m) : n.Performs c b [] ⟨m, []⟩ :=
  (quiet_acts hspine htransfer hauthorized hincoming hheeds).quietly hcore

/-- An output that is true in any state. -/
theorem emit_performs (n : Node) {x : Output} (hx : x.isNotice) (hlicit : x.Licit c n)
    (htrue : ∀ {initial i s}, OutputOk initial i s x) : n.Performs c b [] ⟨n, [x]⟩ := by
  refine ⟨n.emit_acts hx hlicit, fun _ _ _ _ _ hn => .of_node hn fun y hy => ?_, fun _ hs => hs⟩
  obtain rfl := List.mem_singleton.1 hy
  exact htrue

end Node

end Rafter
