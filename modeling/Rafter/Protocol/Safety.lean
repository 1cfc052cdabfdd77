import Rafter.Protocol.Invariant

/-!
# Safety of the protocol

From the invariant:

* `Inv.take_eq_of_term_eq` (log matching);
* `Inv.complete_lead` and `Inv.complete_cand` (leader completeness): what is committed in a term
  is in the log of every later leader, and of every later candidate a quorum voted for;
* `Inv.elect_unique` (election safety): nobody else wins a term that has a leader;
* `Inv.commits_comparable` (state machine safety).

Leader completeness needs the quorum that committed and the quorum that elected to intersect,
although the two logs may disagree about the configuration. The configurations below the last
are known to be committed, by records that come earlier in the order of terms and indexes, so the
induction is on that order.
-/

namespace Protocol

namespace Scheme

variable {N E C : Type*} {S : Scheme N E C} {s : State N E}
variable {i t u : ℕ} {c : N} {l y : List E} {d : Leadership N E}

/-! ## Log matching -/

/-- Two logs that leaders made agree up to any index where their terms agree. -/
theorem Inv.take_eq_of_term_eq {m : List E} (hl : S.ValidLog s l) (hm : S.ValidLog s m) {k : ℕ}
    {e e' : E} (he : l[k]? = some e) (he' : m[k]? = some e') (ht : S.term e = S.term e') :
    l.take (k + 1) = m.take (k + 1) := by
  obtain ⟨d, hd, hp⟩ := hl k e he
  obtain ⟨d', hd', hp'⟩ := hm k e' he'
  rw [ht] at hd
  obtain rfl := Option.some_inj.1 (hd.symm.trans hd')
  have hlt := (List.getElem?_eq_some_iff.1 he).1
  have hlt' := (List.getElem?_eq_some_iff.1 he').1
  refine (List.prefix_of_prefix_length_le hp hp' ?_).eq_of_length ?_ <;>
    simp only [List.length_take] <;> omega

/-- A node in the term of an acknowledgement still holds what it acknowledged. -/
theorem Inv.pre_prefix_of_ack (h : S.Inv s) {v : N} {j : ℕ} (hack : s.acks v t j) (hi : i ≤ j)
    (ht : s.term v = t) : s.pre t i <+: s.log v :=
  -- no term lies between the acknowledged one and the node's
  h.ack_log hack hi fun _ _ hlt hle _ => absurd hle (by rw [ht]; exact hlt.not_ge)

/-- Terms do not decrease along a log. -/
theorem Inv.term_le_lastTerm (h : S.Inv s) (hl : S.ValidLog s l) :
    ∀ e ∈ l, S.term e ≤ S.lastTerm l := by
  intro e he
  rcases List.eq_nil_or_concat l with rfl | ⟨m, a, rfl⟩
  · simp at he
  · obtain ⟨d, hd, hp⟩ := hl m.length a (by simp)
    rw [List.take_of_length_le (by simp)] at hp
    simpa [lastTerm] using h.lead_le hd e (hp.subset he)

theorem Inv.pairwise_term_le (h : S.Inv s) (hl : S.ValidLog s l) :
    l.Pairwise fun e e' => S.term e ≤ S.term e' := by
  induction l using List.reverseRecOn with
  | nil => exact .nil
  | append_singleton m a ih =>
    have hm : S.ValidLog s m := hl.of_isPrefix (List.prefix_append m [a])
    have hlast : S.lastTerm (m ++ [a]) = S.term a := by simp [lastTerm]
    refine List.pairwise_append.2 ⟨ih hm, by simp, ?_⟩
    intro e he e' he'
    rw [List.mem_singleton.1 he', ← hlast]
    exact h.term_le_lastTerm hl e (by simp [he])

/-- A log whose last entry has a term at least one is part of the log of that term. -/
theorem ValidLog.prefix_lastTerm (hl : S.ValidLog s l) (hpos : 0 < S.lastTerm l) :
    ∃ d e, s.lead (S.lastTerm l) = some d ∧ l <+: d.log ∧ l[l.length - 1]? = some e ∧
      S.term e = S.lastTerm l := by
  rcases List.eq_nil_or_concat l with rfl | ⟨m, a, rfl⟩
  · simp [lastTerm] at hpos
  · obtain ⟨d, hd, hp⟩ := hl m.length a (by simp)
    rw [List.take_of_length_le (by simp)] at hp
    have hlast : S.lastTerm (m.concat a) = S.term a := by simp [lastTerm]
    exact ⟨d, a, by rw [hlast, hd], hp, by simp, hlast.symm⟩

/-- The entries of a leader's own term come after its campaign log. -/
theorem Inv.base_le (h : S.Inv s) {k : ℕ} {e : E} (hd : s.lead t = some d) (hk : d.log[k]? = some e)
    (he : S.term e = t) : d.base.length ≤ k := by
  by_contra hlt
  obtain ⟨r, hr⟩ := (h.lead hd).base
  rw [← hr, List.getElem?_append_left (by omega)] at hk
  exact absurd (h.cand_lt (h.lead hd).cand e (List.mem_of_getElem? hk)) (by omega)

/-- A prefix carried into a leader's campaign lies below everything the leader commits. -/
theorem Inv.prefix_pre_of_base (h : S.Inv s) {p : List E} (hd : s.lead t = some d)
    (hc : s.commits t i) (hp : p <+: d.base) : p <+: s.pre t i := by
  obtain ⟨d', lc, hr⟩ := h.commit hc
  obtain rfl := Option.some_inj.1 (hd.symm.trans hr.lead)
  obtain ⟨e, he, hte⟩ := hr.entry
  have hb := h.base_le hd he hte
  have hpos := hr.pos
  rw [State.pre_eq hd]
  exact List.prefix_take_iff.2 ⟨hp.trans (h.lead hd).base, hp.length_le.trans (by omega)⟩

/-! ## Leader completeness -/

/-- The log `y` contains what a voter's log `l` shares with the log of term `t`, when it is at
least as up to date and every leadership between carried it. -/
theorem Inv.prefix_of_upToDate (h : S.Inv s) (hd : s.lead t = some d)
    (hi : ∃ e, (s.pre t i)[i - 1]? = some e ∧ S.term e = t) (hpos : 0 < i) (hy : S.ValidLog s y)
    (hyu : ∀ e ∈ y, S.term e < u) (hl : S.ValidLog s l) (hp : s.pre t i <+: l)
    (hup : S.UpToDate y l) (hcar : Carried s t i (u - 1)) : s.pre t i <+: y := by
  obtain ⟨e, he, hte⟩ := hi
  have hlen : i ≤ (s.pre t i).length := by
    have := (List.getElem?_eq_some_iff.1 he).1
    omega
  have htl : t ≤ S.lastTerm l := by
    have := h.term_le_lastTerm hl e (hp.subset (List.mem_of_getElem? he))
    omega
  have hty : S.lastTerm l ≤ S.lastTerm y := by
    rcases hup with hlt | ⟨heq, -⟩ <;> omega
  have htpos := h.cand_pos (h.lead hd).cand
  obtain ⟨d', a, hd', hyp, ha, hta⟩ := hy.prefix_lastTerm (by omega)
  have hau := hyu a (List.mem_of_getElem? ha)
  rcases (htl.trans hty).lt_or_eq with hlt | heq
  · -- the last entry of `y` comes from a later leadership, which carried the prefix
    have hb := hcar _ d' hlt (by omega) hd'
    have hay : d'.log[y.length - 1]? = some a := by
      obtain ⟨r, hr⟩ := hyp
      rw [← hr, List.getElem?_append_left (List.getElem?_eq_some_iff.1 ha).1, ha]
    have hble := h.base_le hd' hay hta
    have hly := (List.getElem?_eq_some_iff.1 ha).1
    exact List.prefix_of_prefix_length_le (hb.trans (h.lead hd').base) hyp
      (hb.length_le.trans (by omega))
  · -- both logs end in term `t`: the longer one has the prefix
    rw [← heq, hd] at hd'
    obtain rfl := Option.some_inj.1 hd'
    have hll : l.length ≤ y.length := by
      rcases hup with hlt | ⟨-, hle⟩
      · omega
      · exact hle
    refine List.prefix_of_prefix_length_le ?_ hyp (hp.length_le.trans hll)
    rw [State.pre_eq hd]
    exact List.take_prefix ..

theorem CommitRecord.entry_pre {lc : List E} (hr : S.CommitRecord s t i d lc) :
    ∃ e, (s.pre t i)[i - 1]? = some e ∧ S.term e = t := by
  obtain ⟨e, he, hte⟩ := hr.entry
  have := hr.pos
  exact ⟨e, by rw [State.pre_eq hr.lead, List.getElem?_take_of_lt (by omega), he], hte⟩

theorem Inv.take_eq_pre (h : S.Inv s) (hc : s.commits t i) (hp : s.pre t i <+: l) :
    l.take i = s.pre t i := by
  have hlen : (s.pre t i).length = i := by
    rw [State.pre, List.length_take, min_eq_left (h.commit_le hc)]
  rw [List.prefix_iff_eq_take.1 hp, hlen]

/-- One election after a commitment: if every leadership in between carried the committed prefix,
smaller commitments are in both logs, and the voters compared their logs, it is carried again. -/
theorem Inv.complete_core (h : S.Inv s) {lc : List E} (hr : S.CommitRecord s t i d lc)
    (hbase : ∀ t' i', s.commits t' i' → t' < t → s.pre t' i' <+: d.base)
    (hsmall : ∀ t' i', s.commits t' i' → (t' < t ∨ t' = t ∧ i' < i) → s.pre t' i' <+: y)
    (hcar : Carried s t i (u - 1)) (hy : S.ValidLog s y) (hyu : ∀ e ∈ y, S.term e < u) {Q : Set N}
    (hq : S.quorum (S.configOf y) Q)
    (hv : ∀ v ∈ Q, ∀ j, i ≤ j → s.acks v t j → ∃ l, S.ValidLog s l ∧ s.pre t i <+: l ∧
      S.UpToDate y l) :
    s.pre t i <+: y := by
  have hlcd : S.Chained lc := (h.lead hr.lead).chained.of_isPrefix hr.log
  -- all configurations of the committing log but the last are in `y`
  obtain ⟨a, ha, hal⟩ : ∃ a, lc.take a <+: y ∧ (S.configs (lc.drop a)).length ≤ 1 := by
    rcases hr.covered with hle | ⟨t', i', hc, hlt, hp, hle⟩
    · exact ⟨0, by simp, by simpa using hle⟩
    · exact ⟨i', by rw [h.take_eq_pre hc hp]; exact hsmall t' i' hc hlt, hle⟩
  -- all configurations of `y` but the last are in the committing log, or `y` has the prefix
  have hcov : s.pre t i <+: y ∨ ∃ b, y.take b <+: lc ∧ (S.configs (y.drop b)).length ≤ 1 := by
    rcases h.cover hy with hle | ⟨e, he, t', i', hte, hc, hp, hle⟩
    · exact .inr ⟨0, by simp, by simpa using hle⟩
    rcases lt_trichotomy t' t with hlt | rfl | hgt
    · refine .inr ⟨i', ?_, hle⟩
      rw [h.take_eq_pre hc hp]
      exact (hbase t' i' hc hlt).trans hr.base
    · rcases le_total i' i with hii | hii
      · refine .inr ⟨i', ?_, hle⟩
        rw [h.take_eq_pre hc hp, State.pre_eq hr.lead]
        exact List.prefix_of_prefix_length_le (List.take_prefix ..) hr.log
          ((List.length_take_le ..).trans (hii.trans hr.le))
      · exact .inl ((s.pre_prefix_pre t' hii).trans hp)
    · obtain ⟨d', lc', hr'⟩ := h.commit hc
      have hu := hyu e he
      have hb := hcar t' d' hgt (by omega) hr'.lead
      exact .inl ((h.prefix_pre_of_base hr'.lead hc hb).trans hp)
  rcases hcov with hdone | ⟨b, hb, hbl⟩
  · exact hdone
  have hmeets := meets_of_adjacent hlcd (h.chained_of_valid hy) ha hal hb hbl
  obtain ⟨v, ⟨j, hij, hack⟩, hvQ⟩ := hmeets _ _ hr.quorum hq
  obtain ⟨l, hl, hp, hup⟩ := hv v hvQ j hij hack
  exact h.prefix_of_upToDate hr.lead hr.entry_pre hr.pos hy hyu hl hp hup hcar

/-- What a commitment means for later elections. -/
def Complete (s : State N E) (S : Scheme N E C) (t i : ℕ) : Prop :=
  (∀ u d, t < u → s.lead u = some d → s.pre t i <+: d.base) ∧
    ∀ u c y, t < u → s.cand u c = some y → S.quorum (S.configOf y) {v | s.votes v u c} →
      s.pre t i <+: y

variable (h : S.Inv s)

include h

theorem Inv.complete_of_smaller (hc : s.commits t i)
    (hsmall : ∀ t' i', s.commits t' i' → (t' < t ∨ t' = t ∧ i' < i) → Complete s S t' i') :
    Complete s S t i := by
  obtain ⟨d, lc, hr⟩ := h.commit hc
  have hbase : ∀ t' i', s.commits t' i' → t' < t → s.pre t' i' <+: d.base := fun t' i' hc' hlt =>
    (hsmall t' i' hc' (.inl hlt)).1 t d hlt hr.lead
  have hle : ∀ {t'}, (∃ i', t' < t ∨ t' = t ∧ i' < i) → t' ≤ t := by
    rintro t' ⟨i', hlt | ⟨rfl, -⟩⟩ <;> omega
  have hlead : ∀ u d', t < u → s.lead u = some d' → s.pre t i <+: d'.base := by
    intro u
    induction u using Nat.strong_induction_on with
    | _ u ih =>
      intro d' htu hd'
      have hcar : Carried s t i (u - 1) := fun w d'' htw hw hd'' =>
        ih w (by omega) d'' htw hd''
      have hcand := (h.lead hd').cand
      exact h.complete_core hr hbase
        (fun t' i' hc' hlt =>
          (hsmall t' i' hc' hlt).1 u d' ((hle ⟨i', hlt⟩).trans_lt htu) hd')
        hcar (h.cand_valid hcand) (h.cand_lt hcand) (h.lead hd').quorum
        fun v hv j hij hack => h.ack_elect hack hij hd' hv htu hcar
  refine ⟨hlead, fun u c y htu hcand hq => ?_⟩
  refine h.complete_core hr hbase
    (fun t' i' hc' hlt =>
      (hsmall t' i' hc' hlt).2 u c y ((hle ⟨i', hlt⟩).trans_lt htu) hcand hq)
    (fun w d'' htw _ hd'' => hlead w d'' htw hd'') (h.cand_valid hcand) (h.cand_lt hcand) hq ?_
  intro v hv j hij hack
  obtain ⟨y', l, hy', hl⟩ := h.ack_vote hack hij hv htu fun w d'' htw _ hd'' => hlead w d'' htw hd''
  obtain rfl := Option.some_inj.1 (hy'.symm.trans hcand)
  exact ⟨l, hl⟩

/-- By induction on terms, then on indexes. -/
theorem Inv.complete (hc : s.commits t i) : Complete s S t i := by
  induction t using Nat.strong_induction_on generalizing i with
  | _ t iht =>
    induction i using Nat.strong_induction_on with
    | _ i ihi =>
      refine h.complete_of_smaller hc ?_
      rintro t' i' hc' (hlt | ⟨rfl, hlt⟩)
      · exact iht t' hlt hc'
      · exact ihi i' hlt hc'

theorem Inv.complete_lead (hc : s.commits t i) (htu : t < u) (hd : s.lead u = some d) :
    s.pre t i <+: d.base :=
  (h.complete hc).1 u d htu hd

theorem Inv.complete_cand (hc : s.commits t i) (htu : t < u)
    (hcand : s.cand u c = some y) (hq : S.quorum (S.configOf y) {v | s.votes v u c}) :
    s.pre t i <+: y :=
  (h.complete hc).2 u c y htu hcand hq

/-! ## Election safety -/

/-- Two campaigns that both had a quorum in one term are by one node. -/
theorem Inv.cand_unique {c' : N} {y' : List E} (hc : s.cand u c = some y)
    (hq : S.quorum (S.configOf y) {v | s.votes v u c}) (hc' : s.cand u c' = some y')
    (hq' : S.quorum (S.configOf y') {v | s.votes v u c'}) : c = c' := by
  have hside : ∀ {c c' y y'}, s.cand u c = some y → s.cand u c' = some y' →
      S.quorum (S.configOf y') {v | s.votes v u c'} →
      ∃ a, y.take a <+: y' ∧ (S.configs (y.drop a)).length ≤ 1 := by
    intro c c' y y' hc hc' hq'
    rcases h.cover (h.cand_valid hc) with hle | ⟨e, he, t, i, hte, hci, hp, hle⟩
    · exact ⟨0, by simp, by simpa using hle⟩
    · have hlt := h.cand_lt hc e he
      refine ⟨i, ?_, hle⟩
      rw [h.take_eq_pre hci hp]
      exact h.complete_cand hci (by omega) hc' hq'
  obtain ⟨a, ha, hal⟩ := hside hc hc' hq'
  obtain ⟨b, hb, hbl⟩ := hside hc' hc hq
  have hmeets := meets_of_adjacent (h.chained_of_valid (h.cand_valid hc))
    (h.chained_of_valid (h.cand_valid hc')) ha hal hb hbl
  obtain ⟨v, hv, hv'⟩ := hmeets _ _ hq hq'
  exact h.vote_unique hv hv'

theorem Inv.elect_unique (hd : s.lead u = some d) (hc : s.cand u c = some y)
    (hq : S.quorum (S.configOf y) {v | s.votes v u c}) : d.node = c :=
  h.cand_unique (h.lead hd).cand
    (S.quorum_mono (h.lead hd).quorum (h.lead hd).voters) hc hq

/-! ## State machine safety -/

theorem Inv.pre_prefix_of_lt {t' i' : ℕ} (hc : s.commits t i) (hc' : s.commits t' i')
    (hlt : t < t') : s.pre t i <+: s.pre t' i' := by
  obtain ⟨d', lc', hr'⟩ := h.commit hc'
  exact h.prefix_pre_of_base hr'.lead hc' (h.complete_lead hc hlt hr'.lead)

theorem Inv.commits_comparable {t' i' : ℕ} (hc : s.commits t i)
    (hc' : s.commits t' i') : s.pre t i <+: s.pre t' i' ∨ s.pre t' i' <+: s.pre t i := by
  rcases lt_trichotomy t t' with hlt | rfl | hgt
  · exact .inl (h.pre_prefix_of_lt hc hc' hlt)
  · exact (le_total i i').imp (s.pre_prefix_pre t) (s.pre_prefix_pre t)
  · exact .inr (h.pre_prefix_of_lt hc' hc hgt)

omit h

end Scheme

end Protocol
