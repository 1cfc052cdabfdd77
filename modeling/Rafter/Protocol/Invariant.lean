import Rafter.Protocol.Machine

/-!
# The protocol invariant

`Inv` is what every reachable state of the abstract protocol satisfies, and `Inv.step` that every
action preserves it. Three of its fields carry the safety argument:

* `ack_log`: a node still holds what it acknowledged to the leader of term `t`, provided every
  leadership since, up to its own term, was won with a log that has it (`Carried`);
* `ack_vote`: so when it votes, the candidate's log is at least as up to date as a log that has
  what the voter acknowledged;
* `ack_elect`: the same for the voters that elected a leader, with the leaderships before it.

`commit` records keep the configuration under which the index was committed and, when that log
holds more than one configuration, an earlier record that covers all but the last.
-/

namespace Protocol

variable {N E C : Type*}

namespace Scheme

variable (S : Scheme N E C)

/-- Every entry was made by the leader of its term, in a log that agrees up to there. -/
def ValidLog (s : State N E) (l : List E) : Prop :=
  ∀ k e, l[k]? = some e → ∃ d, s.lead (S.term e) = some d ∧ l.take (k + 1) <+: d.log

end Scheme

/-- Every leadership after term `t` up to term `b` was won with a log that has the first `i`
entries of the log of term `t`. -/
def Carried (s : State N E) (t i b : ℕ) : Prop :=
  ∀ w d, t < w → w ≤ b → s.lead w = some d → s.pre t i <+: d.base

theorem Carried.of_extends {s s' : State N E} (he : Extends s s') {t i b b' : ℕ}
    (hi : i ≤ (s.llog t).length) (hb : b ≤ b') (h : Carried s' t i b') : Carried s t i b := by
  intro w d htw hwb hd
  obtain ⟨d', hd', -, hbase, -, -⟩ := he.lead hd
  have := h w d' htw (hwb.trans hb) hd'
  rwa [he.pre hi, hbase] at this

namespace Scheme

variable (S : Scheme N E C)
variable {l : List E} {i t : ℕ}

/-- What the history records of a leadership. -/
structure LeadRecord (s : State N E) (t : ℕ) (d : Leadership N E) : Prop where
  cand : s.cand t d.node = some d.base
  base : d.base <+: d.log
  new : ∀ e ∈ d.log.drop d.base.length, S.term e = t
  valid : S.ValidLog s d.log
  quorum : S.quorum (S.configOf d.base) d.voters
  voters : ∀ v ∈ d.voters, s.votes v t d.node
  chained : S.Chained d.log
  covered : ∀ {l e r}, d.log = l ++ e :: r → (S.config e).isSome → S.term e = t → S.Covered s t l

/-- What the history records of a commitment. -/
structure CommitRecord (s : State N E) (t i : ℕ) (d : Leadership N E) (lc : List E) : Prop where
  lead : s.lead t = some d
  base : d.base <+: lc
  log : lc <+: d.log
  pos : 0 < i
  le : i ≤ lc.length
  entry : ∃ e, d.log[i - 1]? = some e ∧ S.term e = t
  quorum : S.quorum (S.configOf lc) {v | ∃ j, i ≤ j ∧ s.acks v t j}
  covered : (S.configs lc).length ≤ 1 ∨ ∃ t' i', s.commits t' i' ∧ (t' < t ∨ t' = t ∧ i' < i) ∧
    s.pre t' i' <+: lc ∧ (S.configs (lc.drop i')).length ≤ 1

/-- The invariant of the protocol. -/
structure Inv (s : State N E) : Prop where
  vote_unique : ∀ {v t c c'}, s.votes v t c → s.votes v t c' → c = c'
  vote_term : ∀ {v t c}, s.votes v t c → t ≤ s.term v
  cand_term : ∀ {u c y}, s.cand u c = some y → u ≤ s.term c
  cand_pos : ∀ {u c y}, s.cand u c = some y → 0 < u
  cand_valid : ∀ {u c y}, s.cand u c = some y → S.ValidLog s y
  cand_lt : ∀ {u c y}, s.cand u c = some y → ∀ e ∈ y, S.term e < u
  lead : ∀ {t d}, s.lead t = some d → S.LeadRecord s t d
  lead_log : ∀ {t d}, s.lead t = some d → s.term d.node = t → s.log d.node = d.log
  log_valid : ∀ n, S.ValidLog s (s.log n)
  log_le : ∀ n, ∀ e ∈ s.log n, S.term e ≤ s.term n
  ack_term : ∀ {v t j}, s.acks v t j → t ≤ s.term v
  ack_le : ∀ {v t j}, s.acks v t j → j ≤ (s.llog t).length
  ack_log : ∀ {v t j i}, s.acks v t j → i ≤ j → Carried s t i (s.term v) → s.pre t i <+: s.log v
  ack_vote : ∀ {v t j i u c}, s.acks v t j → i ≤ j → s.votes v u c → t < u → Carried s t i u →
    ∃ y l, s.cand u c = some y ∧ S.ValidLog s l ∧ s.pre t i <+: l ∧ S.UpToDate y l
  ack_elect : ∀ {v t j i u d}, s.acks v t j → i ≤ j → s.lead u = some d → v ∈ d.voters → t < u →
    Carried s t i (u - 1) → ∃ l, S.ValidLog s l ∧ s.pre t i <+: l ∧ S.UpToDate d.base l
  commit : ∀ {t i}, s.commits t i → ∃ d lc, S.CommitRecord s t i d lc

variable {S} {s s' : State N E}

/-! ## What survives any extension of the history -/

theorem ValidLog.mono (he : Extends s s') (h : S.ValidLog s l) : S.ValidLog s' l := by
  intro k e hk
  obtain ⟨d, hd, hp⟩ := h k e hk
  obtain ⟨d', hd', -, -, -, hlog⟩ := he.lead hd
  exact ⟨d', hd', hp.trans hlog⟩

theorem ValidLog.of_isPrefix {m : List E} (hm : S.ValidLog s m) (h : l <+: m) :
    S.ValidLog s l := by
  intro k e hk
  have hlt := (List.getElem?_eq_some_iff.1 hk).1
  obtain ⟨r, rfl⟩ := h
  obtain ⟨d, hd, hp⟩ := hm k e (by rw [List.getElem?_append_left hlt, hk])
  exact ⟨d, hd, by rwa [List.take_append_of_le_length (by omega)] at hp⟩

variable {d : Leadership N E} {lc : List E}

theorem CommitRecord.le_llog (h : S.CommitRecord s t i d lc) :
    i ≤ (s.llog t).length := by
  rw [State.llog_eq h.lead]
  exact h.le.trans h.log.length_le

theorem Inv.commit_le (h : S.Inv s) (hc : s.commits t i) : i ≤ (s.llog t).length := by
  obtain ⟨d, lc, hr⟩ := h.commit hc
  exact hr.le_llog

theorem Covered.mono (h : S.Inv s) (he : Extends s s') (hc : S.Covered s t l) :
    S.Covered s' t l := by
  rcases hc with hnil | ⟨t', i, ht, hci, hp, hd⟩
  · exact .inl hnil
  · exact .inr ⟨t', i, ht, he.commits hci, by rwa [he.pre (h.commit_le hci)], hd⟩

theorem LeadRecord.mono (h : S.Inv s) (he : Extends s s') (hr : S.LeadRecord s t d) :
    S.LeadRecord s' t d :=
  { hr with
    cand := he.cand hr.cand
    valid := hr.valid.mono he
    voters := fun v hv => he.votes (hr.voters v hv)
    covered := fun hlog hc ht => (hr.covered hlog hc ht).mono h he }

theorem CommitRecord.mono (h : S.Inv s) (he : Extends s s') (hr : S.CommitRecord s t i d lc) :
    ∃ d', S.CommitRecord s' t i d' lc := by
  obtain ⟨d', hd', -, hbase, -, hlog⟩ := he.lead hr.lead
  obtain ⟨e, hi, ht⟩ := hr.entry
  refine ⟨d', hd', by rw [hbase]; exact hr.base, hr.log.trans hlog, hr.pos, hr.le, ⟨e, ?_, ht⟩,
    S.quorum_mono hr.quorum ?_, ?_⟩
  · obtain ⟨r, hr'⟩ := hlog
    rw [← hr', List.getElem?_append_left (List.getElem?_eq_some_iff.1 hi).1, hi]
  · rintro v ⟨j, hj, ha⟩
    exact ⟨j, hj, he.acks ha⟩
  · rcases hr.covered with hle | ⟨t', i', hc, hlt, hp, hlen⟩
    · exact .inl hle
    · exact .inr ⟨t', i', he.commits hc, hlt, by rwa [he.pre (h.commit_le hc)], hlen⟩

theorem Inv.commit_mono (h : S.Inv s) (he : Extends s s') (hc : s.commits t i) :
    ∃ d lc, S.CommitRecord s' t i d lc := by
  obtain ⟨d, lc, hr⟩ := h.commit hc
  obtain ⟨d', hr'⟩ := hr.mono h he
  exact ⟨d', lc, hr'⟩

section Acknowledgements

variable {v : N} {j u : ℕ} {c : N} (h : S.Inv s) (he : Extends s s') (ha : s.acks v t j)
  (hij : i ≤ j)
include h he ha hij

/-- The log a node had keeps what it acknowledged, as long as later leaderships carry it. -/
theorem Inv.ack_log_mono (hcr : Carried s' t i (s'.term v)) : s'.pre t i <+: s.log v := by
  have hi := hij.trans (h.ack_le ha)
  rw [he.pre hi]
  exact h.ack_log ha hij (hcr.of_extends he hi (he.term v))

theorem Inv.ack_vote_mono (hv : s.votes v u c) (htu : t < u) (hcr : Carried s' t i u) :
    ∃ y l, s'.cand u c = some y ∧ S.ValidLog s' l ∧ s'.pre t i <+: l ∧ S.UpToDate y l := by
  have hi := hij.trans (h.ack_le ha)
  obtain ⟨y, l, hy, hvl, hp, hup⟩ := h.ack_vote ha hij hv htu (hcr.of_extends he hi le_rfl)
  exact ⟨y, l, he.cand hy, hvl.mono he, by rwa [he.pre hi], hup⟩

theorem Inv.ack_elect_mono (hd : s.lead u = some d) (hv : v ∈ d.voters) (htu : t < u)
    (hcr : Carried s' t i (u - 1)) :
    ∃ l, S.ValidLog s' l ∧ s'.pre t i <+: l ∧ S.UpToDate d.base l := by
  have hi := hij.trans (h.ack_le ha)
  obtain ⟨l, hvl, hp, hup⟩ := h.ack_elect ha hij hd hv htu (hcr.of_extends he hi le_rfl)
  exact ⟨l, hvl.mono he, by rwa [he.pre hi], hup⟩

end Acknowledgements

theorem Inv.extends [DecidableEq N] {n : N} (h : S.Inv s) (hs : S.Step n s s') : Extends s s' :=
  hs.extends fun _ _ _ => h.cand_term

/-- A log that leaders made has related configurations: it is part of one leader's log. -/
theorem Inv.chained_of_valid (h : S.Inv s) (hl : S.ValidLog s l) : S.Chained l := by
  rcases List.eq_nil_or_concat l with rfl | ⟨m, e, rfl⟩
  · exact List.isChain_singleton _
  · obtain ⟨d, hd, hp⟩ := hl m.length e (by simp)
    rw [List.take_of_length_le (by simp)] at hp
    exact (h.lead hd).chained.of_isPrefix hp

/-! ## The initial state -/

theorem inv_initial : S.Inv (State.initial : State N E) := by
  constructor <;> intros <;> first | contradiction | skip
  all_goals simp_all [State.initial, ValidLog]

/-! ## Elections -/

/-- A leadership after one was recorded: an older one, or the recorded one. -/
theorem update_some_cases {α : Type*} {f : ℕ → Option α} {u t : ℕ} {a b : α}
    (h : Function.update f u (some a) t = some b) : t ≠ u ∧ f t = some b ∨ t = u ∧ b = a := by
  by_cases htu : t = u
  · subst htu
    rw [Function.update_self] at h
    exact .inr ⟨rfl, (Option.some_inj.1 h).symm⟩
  · rw [Function.update_of_ne htu] at h
    exact .inl ⟨htu, h⟩

variable {u : ℕ} {y : List E}

/-- A leadership just won. -/
theorem Inv.lead_won {c : N} (h : S.Inv s) (he : Extends s s') (hc : s.cand u c = some y)
    (hq : S.quorum (S.configOf y) {v | s.votes v u c}) :
    S.LeadRecord s' u { node := c, base := y, log := y, voters := {v | s.votes v u c} } where
  cand := he.cand hc
  base := List.prefix_rfl
  new := by simp
  valid := (h.cand_valid hc).mono he
  quorum := hq
  voters _ hv := he.votes hv
  chained := h.chained_of_valid (h.cand_valid hc)
  covered {l e r} hlog _ hte := by
    -- a campaign log has no entry of its own term
    have hmem : e ∈ y := by simp [show y = l ++ e :: r from hlog]
    exact absurd (h.cand_lt hc e hmem) (by omega)

/-- A voter of a leadership just won: no leadership of its term was known before. -/
theorem Inv.ack_elect_won {v c : N} {j : ℕ} (h : S.Inv s) (he : Extends s s')
    (hc : s.cand u c = some y) (hn : s.lead u = none) (ha : s.acks v t j) (hij : i ≤ j)
    (hv : s.votes v u c) (htu : t < u) (hcr : Carried s' t i (u - 1)) :
    ∃ l, S.ValidLog s' l ∧ s'.pre t i <+: l ∧ S.UpToDate y l := by
  have hi := hij.trans (h.ack_le ha)
  have hcar : Carried s t i u := by
    intro w d htw hw hd
    have hne : w ≠ u := by
      rintro rfl
      simp [hn] at hd
    exact hcr.of_extends he hi le_rfl w d htw (by omega) hd
  obtain ⟨y', l, hy, hvl, hp, hup⟩ := h.ack_vote ha hij hv htu hcar
  obtain rfl := Option.some_inj.1 (hy.symm.trans hc)
  exact ⟨l, hvl.mono he, by rwa [he.pre hi], hup⟩

section Elections

variable [DecidableEq N]

/-- Raising a node's term: it leads no later term yet, and more leaderships count. -/
theorem Inv.bump (h : S.Inv s) {n : N} {t : ℕ} (ht : s.term n < t) :
    S.Inv { s with term := Function.update s.term n t } := by
  have he : Extends s { s with term := Function.update s.term n t } :=
    h.extends (.bump n t ht)
  refine { h with
    vote_term := fun hv => (h.vote_term hv).trans (he.term _)
    cand_term := fun hc => (h.cand_term hc).trans (he.term _)
    lead := fun hd => (h.lead hd).mono h he
    lead_log := fun {t' d} hd htd => ?_
    log_le := fun m e hm => (h.log_le m e hm).trans (he.term _)
    ack_term := fun ha => (h.ack_term ha).trans (he.term _)
    ack_log := h.ack_log_mono he
    commit := h.commit_mono he }
  by_cases hn : d.node = n
  · have := h.cand_term (h.lead hd).cand
    simp only [hn, Function.update_self] at htd this
    omega
  · exact h.lead_log hd (by simpa [Function.update_of_ne hn] using htd)

/-- A campaign after one was recorded: an older one, or the recorded one. -/
theorem cand_update_cases {n c : N} {u' : ℕ} {l : List E}
    (h : Function.update s.cand u (Function.update (s.cand u) n (some l)) u' c = some y) :
    s.cand u' c = some y ∨ u' = u ∧ c = n ∧ y = l := by
  by_cases hu : u' = u
  · subst hu
    by_cases hn : c = n
    · subst hn
      rw [Function.update_self, Function.update_self] at h
      exact .inr ⟨rfl, rfl, (Option.some_inj.1 h).symm⟩
    · rw [Function.update_self, Function.update_of_ne hn] at h
      exact .inl h
  · rw [Function.update_of_ne hu] at h
    exact .inl h

theorem Inv.campaign (h : S.Inv s) {n : N} (hu : s.term n < u) :
    S.Inv { s with
      term := Function.update s.term n u
      cand := Function.update s.cand u (Function.update (s.cand u) n (some (s.log n)))
      votes := fun v t c => s.votes v t c ∨ (v = n ∧ t = u ∧ c = n) } := by
  have he := h.extends (.campaign n u hu)
  set s' : State N E := { s with
      term := Function.update s.term n u
      cand := Function.update s.cand u (Function.update (s.cand u) n (some (s.log n)))
      votes := fun v t c => s.votes v t c ∨ (v = n ∧ t = u ∧ c = n) } with hs'
  have hb := h.bump hu
  have hself : s'.cand u n = some (s.log n) := by simp [hs']
  have hold : ∀ {u' c y}, s'.cand u' c = some y →
      s.cand u' c = some y ∨ (u' = u ∧ c = n ∧ y = s.log n) := cand_update_cases
  have htn : s'.term n = u := by simp [hs']
  refine { hb with
    vote_unique := ?_
    vote_term := ?_
    cand_term := ?_
    cand_pos := ?_
    cand_valid := ?_
    cand_lt := ?_
    lead := fun hd => (h.lead hd).mono h he
    ack_vote := ?_
    commit := h.commit_mono he }
  · rintro v t c c' (hv | ⟨rfl, rfl, rfl⟩) (hv' | ⟨hvn, htu, rfl⟩)
    · exact h.vote_unique hv hv'
    · subst hvn htu
      exact absurd (h.vote_term hv) (by omega)
    · exact absurd (h.vote_term hv') (by omega)
    · rfl
  · rintro v t c (hv | ⟨rfl, rfl, rfl⟩)
    · exact (h.vote_term hv).trans (he.term v)
    · exact htn.ge
  · intro u' c y hc
    rcases hold hc with hc | ⟨rfl, rfl, -⟩
    · exact (h.cand_term hc).trans (he.term c)
    · exact htn.ge
  · intro u' c y hc
    rcases hold hc with hc | ⟨rfl, -, -⟩
    · exact h.cand_pos hc
    · omega
  · intro u' c y hc
    rcases hold hc with hc | ⟨-, -, rfl⟩
    · exact h.cand_valid hc
    · exact h.log_valid n
  · intro u' c y hc
    rcases hold hc with hc | ⟨rfl, -, rfl⟩
    · exact h.cand_lt hc
    · exact fun e hm => (h.log_le n e hm).trans_lt hu
  · rintro v t j i u' c ha hij (hv | ⟨hv, rfl, rfl⟩) htu hcar
    · exact h.ack_vote_mono he ha hij hv htu hcar
    · -- the candidate votes for the log it holds
      subst hv
      refine ⟨s.log v, s.log v, hself, h.log_valid v, ?_, .inr ⟨rfl, le_rfl⟩⟩
      exact h.ack_log ha hij fun w d htw hw => hcar w d htw (hw.trans hu.le)

theorem Inv.vote (h : S.Inv s) {v : N} {c : N} (hc : s.cand u c = some y) (ht : s.term v = u)
    (hu : ∀ c', s.votes v u c' → c' = c) (hup : S.UpToDate y (s.log v)) :
    S.Inv { s with votes := fun v' t c' => s.votes v' t c' ∨ (v' = v ∧ t = u ∧ c' = c) } := by
  have he := h.extends (.vote v u c y hc ht hu hup)
  refine { h with
    vote_unique := ?_
    vote_term := ?_
    lead := fun hd => (h.lead hd).mono h he
    ack_vote := ?_
    commit := h.commit_mono he }
  · rintro w t c₁ c₂ (h₁ | ⟨hw, hwt, hwc⟩) (h₂ | ⟨hw', hwt', hwc'⟩)
    · exact h.vote_unique h₁ h₂
    · subst hw' hwt' hwc'
      exact hu c₁ h₁
    · subst hw hwt hwc
      exact (hu c₂ h₂).symm
    · rw [hwc, hwc']
  · rintro w t c₁ (h₁ | ⟨rfl, rfl, rfl⟩)
    · exact h.vote_term h₁
    · exact ht.ge
  · rintro w t j i u' c₁ ha hij (hv | ⟨rfl, rfl, rfl⟩) htu hcar
    · exact h.ack_vote ha hij hv htu hcar
    · refine ⟨y, s.log w, hc, h.log_valid w, h.ack_log ha hij ?_, hup⟩
      rw [ht]
      exact hcar

theorem Inv.elect (h : S.Inv s) {c : N} (hc : s.cand u c = some y) (ht : s.term c = u)
    (hl : s.log c = y) (hn : s.lead u = none) (hq : S.quorum (S.configOf y) {v | s.votes v u c}) :
    S.Inv { s with
      lead := Function.update s.lead u
        (some { node := c, base := y, log := y, voters := {v | s.votes v u c} }) } := by
  have he := h.extends (.elect u c y hc ht hl hn hq)
  refine { h with
    cand_valid := fun hc' => (h.cand_valid hc').mono he
    lead := fun hd => ?_
    lead_log := fun hd htd => ?_
    log_valid := fun n => (h.log_valid n).mono he
    ack_le := fun ha => (h.ack_le ha).trans (he.llog _).length_le
    ack_log := h.ack_log_mono he
    ack_vote := h.ack_vote_mono he
    ack_elect := fun ha hij hd hv htu hcr => ?_
    commit := h.commit_mono he }
  · rcases update_some_cases hd with ⟨-, hd⟩ | ⟨rfl, rfl⟩
    · exact (h.lead hd).mono h he
    · exact h.lead_won he hc hq
  · rcases update_some_cases hd with ⟨-, hd⟩ | ⟨rfl, rfl⟩
    · exact h.lead_log hd htd
    · exact hl
  · rcases update_some_cases hd with ⟨-, hd⟩ | ⟨rfl, rfl⟩
    · exact h.ack_elect_mono he ha hij hd hv htu hcr
    · exact h.ack_elect_won he hc hn ha hij hv htu hcr

end Elections

/-! ## Replication -/

theorem Inv.lead_le (h : S.Inv s) {t : ℕ} {d : Leadership N E} (hd : s.lead t = some d) :
    ∀ e ∈ d.log, S.term e ≤ t := by
  intro e he
  obtain ⟨r, hr⟩ := (h.lead hd).base
  rw [← hr, List.mem_append] at he
  rcases he with he | he
  · exact (h.cand_lt (h.lead hd).cand e he).le
  · exact ((h.lead hd).new e (by rw [← hr, List.drop_left]; exact he)).le

/-- A leader's log has at most one configuration that an earlier commitment does not cover: the
one appended last. -/
theorem Inv.cover (h : S.Inv s) {l : List E} (hl : S.ValidLog s l) :
    (S.configs l).length ≤ 1 ∨ ∃ e ∈ l, ∃ t i, t ≤ S.term e ∧ s.commits t i ∧ s.pre t i <+: l ∧
      (S.configs (l.drop i)).length ≤ 1 := by
  by_cases hnil : S.configs l = []
  · simp [hnil]
  obtain ⟨m, e, r, rfl, he, hr⟩ := exists_last_config hnil
  obtain ⟨d, hd, hp⟩ := hl m.length e (by simp)
  have hpre : m ++ [e] <+: d.log := by
    rw [List.take_length_add_append] at hp
    simpa using hp
  obtain ⟨r', hr'⟩ := hpre
  have hlog : d.log = m ++ e :: r' := by rw [← hr', List.append_assoc, List.singleton_append]
  rcases (h.lead hd).covered hlog he rfl with hm | ⟨t, i, ht, hc, hpi, hm⟩
  · left
    have := length_configs_drop_le (S := S) (m := m) (r := r) (e := e) (i := 0) (by simpa) hr
    simpa using this
  · exact .inr ⟨e, by simp, t, i, ht, hc, hpi.trans (List.prefix_append ..),
      length_configs_drop_le hm hr⟩

theorem ValidLog.concat {e : E} (hl : S.ValidLog s l) (hd : s.lead (S.term e) = some d)
    (hp : l ++ [e] <+: d.log) : S.ValidLog s (l ++ [e]) := by
  intro k e' hk
  rcases lt_or_ge k l.length with hlt | hge
  · rw [List.getElem?_append_left hlt] at hk
    rw [List.take_append_of_le_length (by omega)]
    exact hl k e' hk
  · have hlen := (List.getElem?_eq_some_iff.1 hk).1
    rw [List.length_append, List.length_singleton] at hlen
    obtain rfl : k = l.length := by omega
    obtain rfl : e = e' := by simpa using hk
    exact ⟨d, hd, (List.take_prefix ..).trans hp⟩

/-- A leadership whose leader has appended an entry. -/
theorem LeadRecord.append {e : E} (h : S.Inv s) (hex : Extends s s') (hr : S.LeadRecord s t d)
    (he : S.term e = t)
    (hcfg : ∀ c ∈ S.config e, S.next (S.configOf d.log) c ∧ S.Covered s t d.log)
    (hself : s'.lead t = some { d with log := d.log ++ [e] }) :
    S.LeadRecord s' t { d with log := d.log ++ [e] } where
  cand := hex.cand hr.cand
  base := hr.base.trans (List.prefix_append ..)
  new e' he' := by
    rw [List.drop_append_of_le_length hr.base.length_le, List.mem_append,
      List.mem_singleton] at he'
    rcases he' with he' | rfl
    · exact hr.new e' he'
    · exact he
  valid := (hr.valid.mono hex).concat (he ▸ hself) List.prefix_rfl
  quorum := hr.quorum
  voters v hv := hex.votes (hr.voters v hv)
  chained := chained_append_singleton hr.chained fun c hc => (hcfg c hc).1
  covered {l e' r} hlog hc hte := by
    -- the new entry, or one the log had before
    rcases List.eq_nil_or_concat r with rfl | ⟨r, a, rfl⟩
    · obtain ⟨rfl, he'⟩ := List.append_inj' (show d.log ++ [e] = l ++ [e'] from hlog) rfl
      obtain ⟨c, hc⟩ := Option.isSome_iff_exists.1 hc
      obtain rfl : e = e' := by simpa using he'
      exact (hcfg c hc).2.mono h hex
    · have hlog' : d.log ++ [e] = (l ++ e' :: r) ++ [a] := by simpa using hlog
      have hl := (List.append_inj' hlog' rfl).1
      exact (hr.covered hl hc hte).mono h hex

section Replication

variable [DecidableEq N]
variable {d : Leadership N E} {n : N} {t : ℕ}

theorem Inv.append (h : S.Inv s) {e : E} (hd : s.lead t = some d) (ht : s.term d.node = t)
    (he : S.term e = t) (hcfg : ∀ c ∈ S.config e, S.next (S.configOf d.log) c ∧
      S.Covered s t d.log) :
    S.Inv { s with
      lead := Function.update s.lead t (some { d with log := d.log ++ [e] })
      log := Function.update s.log d.node (d.log ++ [e]) } := by
  have hex := h.extends (.append t d e hd ht he hcfg)
  have hrec := (h.lead hd).append h hex he hcfg (Function.update_self ..)
  have hlogs : ∀ v, s.log v <+: Function.update s.log d.node (d.log ++ [e]) v := by
    intro v
    by_cases hv : v = d.node
    · subst hv
      simp [h.lead_log hd ht]
    · simp [Function.update_of_ne hv]
  refine { h with
    cand_valid := fun hc' => (h.cand_valid hc').mono hex
    lead := fun hd' => ?_
    lead_log := fun {t' d'} hd' htd => ?_
    log_valid := fun n => ?_
    log_le := fun n e' hmem => ?_
    ack_le := fun ha => (h.ack_le ha).trans (hex.llog _).length_le
    ack_log := fun ha hij hcr => (h.ack_log_mono hex ha hij hcr).trans (hlogs _)
    ack_vote := h.ack_vote_mono hex
    ack_elect := fun ha hij hd' hv htu hcr => ?_
    commit := h.commit_mono hex }
  · rcases update_some_cases hd' with ⟨-, hd'⟩ | ⟨rfl, rfl⟩
    · exact (h.lead hd').mono h hex
    · exact hrec
  · rcases update_some_cases hd' with ⟨hne, hd'⟩ | ⟨rfl, rfl⟩
    · have hn : d'.node ≠ d.node := fun hn => hne (htd.symm.trans ((congrArg s.term hn).trans ht))
      simpa [Function.update_of_ne hn] using h.lead_log hd' htd
    · simp
  · by_cases hn : n = d.node
    · subst hn
      simpa using hrec.valid
    · simpa [Function.update_of_ne hn] using (h.log_valid n).mono hex
  · by_cases hn : n = d.node
    · subst hn
      simp only [Function.update_self, List.mem_append, List.mem_singleton] at hmem
      rcases hmem with hmem | rfl
      · exact (h.lead_le hd e' hmem).trans ht.ge
      · exact (he.trans ht.symm).le
    · exact h.log_le n e' (by simpa [Function.update_of_ne hn] using hmem)
  · rcases update_some_cases hd' with ⟨-, hd'⟩ | ⟨rfl, rfl⟩
    · exact h.ack_elect_mono hex ha hij hd' hv htu hcr
    · exact h.ack_elect_mono (d := d) hex ha hij hd hv htu hcr

theorem Inv.adopt (h : S.Inv s) {j : ℕ} (hd : s.lead t = some d) (ht : s.term n = t)
    (hp : ¬ d.log.take j <+: s.log n) :
    S.Inv { s with log := Function.update s.log n (d.log.take j) } := by
  have he := h.extends (.adopt n t d j hd ht hp)
  refine { h with
    lead := fun hd => (h.lead hd).mono h he
    lead_log := fun {t' d'} hd' htd => ?_
    log_valid := fun m => ?_
    log_le := fun m e hm => ?_
    ack_log := fun {v t' j' i} ha hij hcr => ?_
    commit := h.commit_mono he }
  · by_cases hn : d'.node = n
    · -- the leader of the term has all of its log
      rw [hn] at htd
      obtain rfl : t' = t := htd.symm.trans ht
      obtain rfl := Option.some_inj.1 (hd.symm.trans hd')
      have hlog := h.lead_log hd (by rw [hn]; exact ht)
      rw [hn] at hlog
      exact absurd (by rw [hlog]; exact List.take_prefix ..) hp
    · simpa [Function.update_of_ne hn] using h.lead_log hd' htd
  · by_cases hm : m = n
    · subst hm
      simpa using ((h.lead hd).valid.of_isPrefix (List.take_prefix j d.log)).mono he
    · simpa [Function.update_of_ne hm] using (h.log_valid m).mono he
  · by_cases hmn : m = n
    · subst hmn
      simp only [Function.update_self] at hm
      exact (h.lead_le hd e (List.mem_of_mem_take hm)).trans ht.ge
    · exact h.log_le m e (by simpa [Function.update_of_ne hmn] using hm)
  · by_cases hv : v = n
    · subst hv
      -- what was acknowledged is in the leader's log and, until now, in the node's
      have hnow : s.pre t' i <+: s.log v := h.ack_log ha hij hcr
      have hlead : s.pre t' i <+: d.log := by
        rcases (h.ack_term ha).lt_or_eq with hlt | heq
        · exact (hcr t d (by omega) ht.ge hd).trans (h.lead hd).base
        · rw [heq, ht, State.pre_eq hd]
          exact List.take_prefix ..
      show s.pre t' i <+: Function.update s.log v (d.log.take j) v
      rw [Function.update_self]
      rcases le_total (s.pre t' i).length j with hle | hle
      · exact List.prefix_take_iff.2 ⟨hlead, hle⟩
      · refine absurd ?_ hp
        rw [List.prefix_iff_eq_take.1 hlead] at hnow
        exact (List.take_prefix_take_left hle).trans hnow
    · show s.pre t' i <+: Function.update s.log n (d.log.take j) v
      rw [Function.update_of_ne hv]
      exact h.ack_log ha hij hcr

theorem Inv.ack (h : S.Inv s) {j : ℕ} (hd : s.lead t = some d) (ht : s.term n = t)
    (hj : j ≤ d.log.length) (hp : d.log.take j <+: s.log n) :
    S.Inv { s with acks := fun n' t' j' => s.acks n' t' j' ∨ (n' = n ∧ t' = t ∧ j' = j) } := by
  have he := h.extends (.ack n t d j hd ht hj hp)
  refine { h with
    lead := fun hd => (h.lead hd).mono h he
    ack_term := ?_
    ack_le := ?_
    ack_log := ?_
    ack_vote := ?_
    ack_elect := ?_
    commit := h.commit_mono he }
  · rintro v t' j' (ha | ⟨rfl, rfl, rfl⟩)
    · exact h.ack_term ha
    · exact ht.ge
  · rintro v t' j' (ha | ⟨rfl, rfl, rfl⟩)
    · exact h.ack_le ha
    · exact (State.llog_eq hd ▸ hj :)
  · rintro v t' j' i (ha | ⟨rfl, rfl, rfl⟩) hij hcr
    · exact h.ack_log ha hij hcr
    · refine List.IsPrefix.trans (show s.pre t' i <+: _ from ?_) hp
      rw [State.pre_eq hd]
      exact List.take_prefix_take_left hij
  · rintro v t' j' i u c (ha | ⟨rfl, rfl, rfl⟩) hij hv htu hcr
    · exact h.ack_vote ha hij hv htu hcr
    · exact absurd (h.vote_term hv) (by omega)
  · rintro v t' j' i u d' (ha | ⟨rfl, rfl, rfl⟩) hij hd' hv htu hcr
    · exact h.ack_elect ha hij hd' hv htu hcr
    · exact absurd (h.vote_term ((h.lead hd').voters v hv)) (by omega)

theorem Inv.commit_step (h : S.Inv s) {i : ℕ} {e : E} (hd : s.lead t = some d)
    (hi : d.log[i - 1]? = some e) (hpos : 0 < i) (hte : S.term e = t)
    (hnew : ∀ i', s.commits t i' → i' < i)
    (hq : S.quorum (S.configOf d.log) {v | ∃ j, i ≤ j ∧ s.acks v t j}) :
    S.Inv { s with commits := fun t' i' => s.commits t' i' ∨ (t' = t ∧ i' = i) } := by
  have he := h.extends (.commit t d i e hd hi hpos hte hnew hq)
  refine { h with
    lead := fun hd' => (h.lead hd').mono h he
    commit := ?_ }
  rintro t' i' (hc | ⟨rfl, rfl⟩)
  · exact h.commit_mono he hc
  have hlt := (List.getElem?_eq_some_iff.1 hi).1
  refine ⟨d, d.log, hd, (h.lead hd).base, List.prefix_rfl, hpos, by omega, ⟨e, hi, hte⟩, hq, ?_⟩
  rcases h.cover (h.lead hd).valid with hle | ⟨a, ha, t, j, hta, hc, hp, hlen⟩
  · exact .inl hle
  · refine .inr ⟨t, j, .inl hc, ?_, hp, hlen⟩
    rcases (hta.trans (h.lead_le hd a ha)).lt_or_eq with hlt | rfl
    · exact .inl hlt
    · exact .inr ⟨rfl, hnew j hc⟩

/-! ## Every run -/

theorem Inv.step (h : S.Inv s) (hs : S.Step n s s') : S.Inv s' := by
  cases hs with
  | bump _ t ht => exact h.bump ht
  | campaign _ u hu => exact h.campaign hu
  | vote _ u c y hc ht hu hup => exact h.vote hc ht hu hup
  | elect u _ y hc ht hl hn hq => exact h.elect hc ht hl hn hq
  | append t d e hd ht he hcfg => exact h.append hd ht he hcfg
  | adopt _ t d j hd ht hp => exact h.adopt hd ht hp
  | ack _ t d j hd ht hj hp => exact h.ack hd ht hj hp
  | commit t d i e hd hi hpos he hnew hq => exact h.commit_step hd hi hpos he hnew hq

/-- What any number of actions of one node keeps. -/
theorem Inv.steps (h : S.Inv s) (hs : S.Steps n s s') :
    S.Inv s' ∧ Extends s s' ∧ Frame n s s' := by
  induction hs with
  | refl => exact ⟨h, .refl s, .refl n s⟩
  | tail _ hstep ih =>
    have he := ih.1.extends hstep
    exact ⟨ih.1.step hstep, ih.2.1.trans he, ih.2.2.trans hstep.frame he⟩

end Replication

end Scheme

end Protocol
