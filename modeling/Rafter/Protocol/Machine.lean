import Rafter.Protocol.Scheme
import Mathlib.Logic.Function.Basic
import Mathlib.Logic.Relation

/-!
# An abstract leader-based replication protocol

Nodes hold full logs. A node campaigns in a term with the log it holds, the others vote, a
candidate with a quorum of votes leads its term, and only the leader of a term extends that
term's log. Followers adopt prefixes of it and acknowledge them, and the leader commits an index
of its own term once a quorum of the configuration it then has acknowledges it.

The state keeps the history the safety argument speaks about: campaigns, votes, the log of every
leadership, acknowledgements and commitments are never forgotten.

A new configuration may be appended when the leader knows every earlier one to be committed
(`State.Covered`). It need not have committed in its own term.
-/

namespace Protocol

/-- The leadership of one term: who leads, with which log it campaigned, the log it has built and
the voters that elected it. -/
structure Leadership (N E : Type*) where
  node : N
  base : List E
  log : List E
  voters : Set N

/-- The history of a protocol run. -/
structure State (N E : Type*) where
  term : N → ℕ
  log : N → List E
  /-- the log with which a node campaigned in a term -/
  cand : ℕ → N → Option (List E)
  /-- voter, term, candidate -/
  votes : N → ℕ → N → Prop
  lead : ℕ → Option (Leadership N E)
  /-- node, term, length of the leader's log it holds -/
  acks : N → ℕ → ℕ → Prop
  /-- term and index -/
  commits : ℕ → ℕ → Prop

variable {N E C : Type*}

namespace State

/-- The log of a term's leadership. -/
def llog (s : State N E) (t : ℕ) : List E := ((s.lead t).map (·.log)).getD []

/-- The first `i` entries of a term's leadership log. -/
def pre (s : State N E) (t i : ℕ) : List E := (s.llog t).take i

/-- The initial state: empty logs, term zero, no history. -/
def initial : State N E where
  term _ := 0
  log _ := []
  cand _ _ := none
  votes _ _ _ := False
  lead _ := none
  acks _ _ _ := False
  commits _ _ := False

theorem llog_eq {s : State N E} {t : ℕ} {d : Leadership N E} (h : s.lead t = some d) :
    s.llog t = d.log := by
  simp [llog, h]

theorem pre_eq {s : State N E} {t i : ℕ} {d : Leadership N E} (h : s.lead t = some d) :
    s.pre t i = d.log.take i := by
  rw [pre, llog_eq h]

theorem pre_prefix_pre (s : State N E) (t : ℕ) {i j : ℕ} (h : i ≤ j) : s.pre t i <+: s.pre t j :=
  List.take_prefix_take_left h

end State

namespace Scheme

variable (S : Scheme N E C)

/-- The term of a log's last entry, zero for the empty log. -/
def lastTerm (l : List E) : ℕ := (l.getLast?.map S.term).getD 0

/-- The vote rule: a later last term, or the same and at least the same length. -/
def UpToDate (y l : List E) : Prop :=
  S.lastTerm l < S.lastTerm y ∨ (S.lastTerm l = S.lastTerm y ∧ l.length ≤ y.length)

/-- Every configuration of the log lies below a committed index of a term not after `t`. -/
def Covered (s : State N E) (t : ℕ) (l : List E) : Prop :=
  S.configs l = [] ∨
    ∃ t' i, t' ≤ t ∧ s.commits t' i ∧ s.pre t' i <+: l ∧ S.configs (l.drop i) = []

/-- One action of the node that is the first argument. -/
inductive Step [DecidableEq N] : N → State N E → State N E → Prop where
  | bump {s : State N E} (n : N) (t : ℕ) (h : s.term n < t) :
      Step n s { s with term := Function.update s.term n t }
  | campaign {s : State N E} (n : N) (u : ℕ) (h : s.term n < u) :
      Step n s { s with
        term := Function.update s.term n u
        cand := Function.update s.cand u (Function.update (s.cand u) n (some (s.log n)))
        votes := fun v t c => s.votes v t c ∨ (v = n ∧ t = u ∧ c = n) }
  | vote {s : State N E} (v : N) (u : ℕ) (c : N) (y : List E) (hc : s.cand u c = some y)
      (ht : s.term v = u) (hu : ∀ c', s.votes v u c' → c' = c) (hup : S.UpToDate y (s.log v)) :
      Step v s { s with votes := fun v' t c' => s.votes v' t c' ∨ (v' = v ∧ t = u ∧ c' = c) }
  | elect {s : State N E} (u : ℕ) (c : N) (y : List E) (hc : s.cand u c = some y)
      (ht : s.term c = u) (hl : s.log c = y) (hn : s.lead u = none)
      (hq : S.quorum (S.configOf y) {v | s.votes v u c}) :
      Step c s { s with
        lead := Function.update s.lead u
          (some { node := c, base := y, log := y, voters := {v | s.votes v u c} }) }
  | append {s : State N E} (t : ℕ) (d : Leadership N E) (e : E) (hd : s.lead t = some d)
      (ht : s.term d.node = t) (he : S.term e = t)
      (hcfg : ∀ c ∈ S.config e, S.next (S.configOf d.log) c ∧ S.Covered s t d.log) :
      Step d.node s { s with
        lead := Function.update s.lead t (some { d with log := d.log ++ [e] })
        log := Function.update s.log d.node (d.log ++ [e]) }
  | adopt {s : State N E} (n : N) (t : ℕ) (d : Leadership N E) (j : ℕ) (hd : s.lead t = some d)
      (ht : s.term n = t) (hp : ¬ d.log.take j <+: s.log n) :
      Step n s { s with log := Function.update s.log n (d.log.take j) }
  | ack {s : State N E} (n : N) (t : ℕ) (d : Leadership N E) (j : ℕ) (hd : s.lead t = some d)
      (ht : s.term n = t) (hj : j ≤ d.log.length) (hp : d.log.take j <+: s.log n) :
      Step n s { s with acks := fun n' t' j' => s.acks n' t' j' ∨ (n' = n ∧ t' = t ∧ j' = j) }
  | commit {s : State N E} (t : ℕ) (d : Leadership N E) (i : ℕ) (e : E) (hd : s.lead t = some d)
      (hi : d.log[i - 1]? = some e) (hpos : 0 < i) (he : S.term e = t)
      (hnew : ∀ i', s.commits t i' → i' < i)
      (hq : S.quorum (S.configOf d.log) {v | ∃ j, i ≤ j ∧ s.acks v t j}) :
      Step d.node s { s with commits := fun t' i' => s.commits t' i' ∨ (t' = t ∧ i' = i) }

/-- Any number of actions of one node. -/
def Steps [DecidableEq N] (n : N) : State N E → State N E → Prop :=
  Relation.ReflTransGen (S.Step n)

end Scheme

/-! ## History only grows -/

/-- The history of `s` is part of that of `s'`. -/
structure Extends (s s' : State N E) : Prop where
  term : ∀ n, s.term n ≤ s'.term n
  cand : ∀ {u c y}, s.cand u c = some y → s'.cand u c = some y
  votes : ∀ {v t c}, s.votes v t c → s'.votes v t c
  lead : ∀ {t d}, s.lead t = some d → ∃ d', s'.lead t = some d' ∧ d'.node = d.node ∧
    d'.base = d.base ∧ d'.voters = d.voters ∧ d.log <+: d'.log
  acks : ∀ {v t j}, s.acks v t j → s'.acks v t j
  commits : ∀ {t i}, s.commits t i → s'.commits t i

namespace Extends

theorem refl (s : State N E) : Extends s s where
  term _ := le_rfl
  cand h := h
  votes h := h
  lead {_ d} h := ⟨d, h, rfl, rfl, rfl, List.prefix_rfl⟩
  acks h := h
  commits h := h

theorem trans {a b c : State N E} (hab : Extends a b) (hbc : Extends b c) : Extends a c where
  term n := (hab.term n).trans (hbc.term n)
  cand h := hbc.cand (hab.cand h)
  votes h := hbc.votes (hab.votes h)
  lead h := by
    obtain ⟨d', h', en, eb, ev, hp⟩ := hab.lead h
    obtain ⟨d'', h'', en', eb', ev', hp'⟩ := hbc.lead h'
    exact ⟨d'', h'', en'.trans en, eb'.trans eb, ev'.trans ev, hp.trans hp'⟩
  acks h := hbc.acks (hab.acks h)
  commits h := hbc.commits (hab.commits h)

variable {s s' : State N E}

theorem llog (h : Extends s s') (t : ℕ) : s.llog t <+: s'.llog t := by
  cases hd : s.lead t with
  | none => simp [State.llog, hd]
  | some d =>
    obtain ⟨d', hd', -, -, -, hp⟩ := h.lead hd
    rw [State.llog_eq hd, State.llog_eq hd']
    exact hp

/-- Within the log it already has, a leadership's prefixes are fixed. -/
theorem pre (h : Extends s s') {t i : ℕ} (hi : i ≤ (s.llog t).length) : s'.pre t i = s.pre t i := by
  obtain ⟨r, hr⟩ := h.llog t
  rw [State.pre, State.pre, ← hr, List.take_append_of_le_length hi]

end Extends

namespace Scheme

variable {S : Scheme N E C} {n : N} {s s' : State N E} {d d' : Leadership N E} {t : ℕ}

/-- Updating the leadership of one term to an extension of it. -/
theorem extends_lead_update (hd : ∀ d₀, s.lead t = some d₀ → d'.node = d₀.node ∧ d'.base = d₀.base ∧
      d'.voters = d₀.voters ∧ d₀.log <+: d'.log) {t' : ℕ} (h : s.lead t' = some d) :
    ∃ d'', Function.update s.lead t (some d') t' = some d'' ∧ d''.node = d.node ∧
      d''.base = d.base ∧ d''.voters = d.voters ∧ d.log <+: d''.log := by
  by_cases ht : t' = t
  · subst ht
    exact ⟨d', Function.update_self .., hd d h⟩
  · exact ⟨d, by rw [Function.update_of_ne ht, h], rfl, rfl, rfl, List.prefix_rfl⟩

theorem Step.extends [DecidableEq N] (h : S.Step n s s')
    (hcand : ∀ u n y, s.cand u n = some y → u ≤ s.term n) : Extends s s' := by
  cases h with
  | bump _ t h =>
    refine { Extends.refl s with term := fun m => ?_ }
    by_cases hm : m = n
    · subst hm; simpa using h.le
    · simp [Function.update_of_ne hm]
  | campaign _ u h =>
    refine { Extends.refl s with term := fun m => ?_, cand := fun {u' c y} hc => ?_,
                                 votes := fun hv => .inl hv }
    · by_cases hm : m = n
      · subst hm; simpa using h.le
      · simp [Function.update_of_ne hm]
    · by_cases hu : u' = u
      · subst hu
        by_cases hn : c = n
        · subst hn
          exact absurd (hcand u' c y hc) (by omega)
        · simpa [Function.update_of_ne hn] using hc
      · simpa [Function.update_of_ne hu] using hc
  | vote => exact { Extends.refl s with votes := fun hv => .inl hv }
  | elect u _ y hc ht hl hn hq =>
    refine { Extends.refl s with lead := fun h => extends_lead_update (fun d₀ h₀ => ?_) h }
    rw [hn] at h₀
    exact absurd h₀ (by simp)
  | append t d e hd =>
    refine { Extends.refl s with lead := fun h => extends_lead_update (fun d₀ h₀ => ?_) h }
    obtain rfl := Option.some_inj.1 (hd.symm.trans h₀)
    exact ⟨rfl, rfl, rfl, List.prefix_append ..⟩
  | adopt => exact { Extends.refl s with }
  | ack => exact { Extends.refl s with acks := fun ha => .inl ha }
  | commit => exact { Extends.refl s with commits := fun hc => .inl hc }

/-! ## An action concerns the node that takes it -/

/-- What the actions of node `n` leave alone: the term and log of other nodes, their campaigns and
votes, the leaderships of other nodes and what these commit. -/
structure Frame (n : N) (s s' : State N E) : Prop where
  term : ∀ m, m ≠ n → s'.term m = s.term m
  log : ∀ m, m ≠ n → s'.log m = s.log m
  cand : ∀ u m, m ≠ n → s'.cand u m = s.cand u m
  votes : ∀ m u c, m ≠ n → s'.votes m u c → s.votes m u c
  lead : ∀ {t d}, s'.lead t = some d → d.node ≠ n → s.lead t = some d
  acks : ∀ m t j, m ≠ n → s'.acks m t j → s.acks m t j
  commits : ∀ {t i}, s'.commits t i → s.commits t i ∨ ∃ d, s'.lead t = some d ∧ d.node = n

theorem Frame.refl (n : N) (s : State N E) : Frame n s s where
  term _ _ := rfl
  log _ _ := rfl
  cand _ _ _ := rfl
  votes _ _ _ _ h := h
  lead h _ := h
  acks _ _ _ _ h := h
  commits h := .inl h

theorem Frame.trans {a b c : State N E} (hab : Frame n a b) (hbc : Frame n b c) (he : Extends b c) :
    Frame n a c where
  term m hm := (hbc.term m hm).trans (hab.term m hm)
  log m hm := (hbc.log m hm).trans (hab.log m hm)
  cand u m hm := (hbc.cand u m hm).trans (hab.cand u m hm)
  votes m u d hm h := hab.votes m u d hm (hbc.votes m u d hm h)
  lead h hn := hab.lead (hbc.lead h hn) hn
  acks m t j hm h := hab.acks m t j hm (hbc.acks m t j hm h)
  commits h := by
    rcases hbc.commits h with h | h
    · rcases hab.commits h with h | ⟨d, hd, hn⟩
      · exact .inl h
      · obtain ⟨d', hd', hn', -⟩ := he.lead hd
        exact .inr ⟨d', hd', hn'.trans hn⟩
    · exact .inr h

/-- Setting the leadership of one term to one of node `n` concerns no other node's. -/
theorem lead_of_update {u : ℕ} (hd : d.node = n) (h : Function.update s.lead u (some d) t = some d')
    (hn : d'.node ≠ n) : s.lead t = some d' := by
  by_cases ht : t = u
  · subst ht
    rw [Function.update_self, Option.some_inj] at h
    exact absurd (h ▸ hd) hn
  · rwa [Function.update_of_ne ht] at h

theorem Step.frame [DecidableEq N] (h : S.Step n s s') : Frame n s s' := by
  cases h with
  | bump =>
    exact { Frame.refl n s with term := fun m hm => Function.update_of_ne hm .. }
  | campaign _ u =>
    refine { Frame.refl n s with
      term := fun m hm => Function.update_of_ne hm ..
      cand := fun u' m hm => ?_
      votes := fun m u' c hm hv => hv.resolve_right fun h => hm h.1 }
    by_cases hu : u' = u
    · subst hu
      simp [Function.update_of_ne hm]
    · simp [Function.update_of_ne hu]
  | vote =>
    exact { Frame.refl n s with votes := fun m u' c hm hv => hv.resolve_right fun h => hm h.1 }
  | elect =>
    exact { Frame.refl n s with
      lead := fun h hn => lead_of_update rfl h hn
      commits := fun h => .inl h }
  | append t d =>
    exact { Frame.refl d.node s with
      log := fun m hm => Function.update_of_ne hm ..
      lead := fun h hn => lead_of_update rfl h hn
      commits := fun h => .inl h }
  | adopt => exact { Frame.refl n s with log := fun m hm => Function.update_of_ne hm .. }
  | ack =>
    exact { Frame.refl n s with acks := fun m t' j' hm h => h.resolve_right fun h => hm h.1 }
  | commit t d i e hd =>
    exact { Frame.refl d.node s with
      commits := fun h => h.imp_right fun h => by obtain ⟨rfl, rfl⟩ := h; exact ⟨d, hd, rfl⟩ }

end Scheme

end Protocol
