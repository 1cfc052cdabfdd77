import Rafter.Node.State
import Rafter.Protocol.Safety
import Mathlib.Data.List.Sort

/-!
# Full logs

A node retains a suffix of its log; the prefix below its snapshot boundary is only described by
the snapshot. This module is about the whole log, as if nothing had been compacted: the protocol
scheme of raft entries, the last configuration of a log and where it stands, and that a
`ConfigurationIndex` built by `fromLog` finds it.

Results:

* `raftScheme`: entries, configurations and quorums as an instance of the abstract protocol;
* `fromLog_append_singleton`, `fromLog_take`, `fromLog_drop`: the index follows the log;
* `findSome_fromLog`: searching the index backwards finds the last configuration of a prefix.
-/

namespace Rafter

open Protocol

/-- Configurations are numbered memberships; a quorum is any set with a list of acknowledgements
that `MembershipConfig.hasQuorum` accepts. -/
def raftScheme (initial : MembershipConfig) : Scheme NodeId LogEntry (ℕ × MembershipConfig) where
  term := LogEntry.term
  config e := e.configurationEntry.map fun c => (c.configId, c.membershipConfig)
  initial := (0, initial)
  next a b := a.1 < b.1 ∧ MembershipConfig.Step a.2 b.2
  quorum c A := ∃ acks : List NodeId, c.2.hasQuorum acks ∧ ∀ n ∈ acks, n ∈ A
  quorum_mono := by
    rintro c A B ⟨acks, hq, hA⟩ hAB
    exact ⟨acks, hq, fun n hn => hAB (hA n hn)⟩
  quorum_inter := by
    rintro c A B ⟨a, ha, hA⟩ ⟨b, hb, hB⟩
    obtain ⟨n, hna, hnb⟩ := MembershipConfig.hasQuorum_inter ha hb
    exact ⟨n, hA n hna, hB n hnb⟩
  quorum_inter_next := by
    rintro c d A B ⟨-, hs⟩ ⟨a, ha, hA⟩ ⟨b, hb, hB⟩
    obtain ⟨n, hna, hnb⟩ := MembershipConfig.hasQuorum_inter_step hs ha hb
    exact ⟨n, hA n hna, hB n hnb⟩
  quorum_inter_siblings := by
    rintro c d e A B ⟨-, hs⟩ ⟨-, hs'⟩ ⟨a, ha, hA⟩ ⟨b, hb, hB⟩
    obtain ⟨n, hna, hnb⟩ := MembershipConfig.hasQuorum_inter_siblings hs hs' ha hb
    exact ⟨n, hA n hna, hB n hnb⟩

/-- The membership in force after a log. -/
def membershipOf (initial : MembershipConfig) (g : List LogEntry) : MembershipConfig :=
  ((raftScheme initial).configOf g).2

/-- The term at an index of a log; index zero has term zero. -/
def termOf (g : List LogEntry) (k : ℕ) : Option ℕ :=
  if k = 0 then some 0 else g[k - 1]?.map (·.term)

/-! ## The configuration index of a log -/

namespace ConfigurationIndex

variable {l : List LogEntry} {o : ℕ} {c : List ℕ}

theorem mem_fromLog : o ∈ fromLog l ↔ ∃ e, l[o]? = some e ∧ e.isConfiguration := by
  simp only [fromLog, List.mem_filterMap, Prod.exists, Option.ite_none_right_eq_some,
    Option.some_inj, List.mem_zipIdx_iff_getElem?]
  constructor
  · rintro ⟨e, o, he, hc, rfl⟩
    exact ⟨e, he, hc⟩
  · rintro ⟨e, he, hc⟩
    exact ⟨e, o, he, hc, rfl⟩

@[simp] theorem fromLog_nil : fromLog [] = [] := rfl

theorem fromLog_append_singleton (l : List LogEntry) (e : LogEntry) :
    fromLog (l ++ [e]) = (fromLog l).recordAppend l.length e := by
  rw [fromLog, List.zipIdx_append, List.filterMap_append, recordAppend]
  by_cases he : e.isConfiguration <;> simp [he, fromLog]

theorem fromLog_sorted (l : List LogEntry) : (fromLog l).Pairwise (· < ·) := by
  induction l using List.reverseRecOn with
  | nil => exact List.Pairwise.nil
  | append_singleton l e ih =>
    rw [fromLog_append_singleton, recordAppend]
    split_ifs with he
    · refine List.pairwise_append.2 ⟨ih, List.pairwise_singleton .., ?_⟩
      intro o ho p hp
      obtain ⟨e', he', -⟩ := mem_fromLog.1 ho
      rw [List.mem_singleton.1 hp]
      exact (List.getElem?_eq_some_iff.1 he').1
    · exact ih

/-- A sorted list with the members of the index is the index. -/
theorem eq_fromLog (hc : c.Pairwise (· < ·)) (h : ∀ o, o ∈ c ↔ o ∈ fromLog l) : c = fromLog l :=
  List.Perm.eq_of_pairwise (fun _ _ _ _ hab hba => absurd hab (Nat.lt_asymm hba)) hc
    (fromLog_sorted l) ((List.perm_ext_iff_of_nodup (hc.imp fun h => Nat.ne_of_lt h)
      ((fromLog_sorted l).imp fun h => Nat.ne_of_lt h)).2 h)

theorem fromLog_take (l : List LogEntry) (j : ℕ) :
    (fromLog l).truncate j = fromLog (l.take j) := by
  refine eq_fromLog ((fromLog_sorted l).filter _) fun o => ?_
  simp only [truncate, List.mem_filter, mem_fromLog, decide_eq_true_eq, List.getElem?_take]
  constructor
  · rintro ⟨⟨e, he, hc⟩, ho⟩
    exact ⟨e, by rw [if_pos ho, he], hc⟩
  · rintro ⟨e, he, hc⟩
    obtain ⟨ho, he⟩ := (Option.ite_none_right_eq_some).1 he
    exact ⟨⟨e, he, hc⟩, ho⟩

/-- On a sorted list the leading run below a bound is everything below it. -/
theorem dropWhile_lt_eq_filter (hc : c.Pairwise (· < ·)) (r : ℕ) :
    c.dropWhile (· < r) = c.filter (r ≤ ·) := by
  induction c with
  | nil => rfl
  | cons o c ih =>
    obtain ⟨ho, hc⟩ := List.pairwise_cons.1 hc
    by_cases hr : o < r
    · rw [List.dropWhile_cons_of_pos (by simpa using hr), ih hc,
        List.filter_cons_of_neg (by simpa using hr)]
    · rw [List.dropWhile_cons_of_neg (by simpa using hr), List.filter_eq_self.2]
      intro p hp
      rcases List.mem_cons.1 hp with rfl | hp
      · simpa using hr
      · have := ho p hp
        simp only [decide_eq_true_eq]
        omega

theorem fromLog_drop (l : List LogEntry) (r : ℕ) :
    (fromLog l).compactPrefix r = fromLog (l.drop r) := by
  rw [compactPrefix, dropWhile_lt_eq_filter (fromLog_sorted l)]
  refine eq_fromLog ?_ fun o => ?_
  · refine List.pairwise_map.2 (((fromLog_sorted l).filter _).imp_of_mem fun ha hb hab => ?_)
    simp only [List.mem_filter, decide_eq_true_eq] at ha hb
    omega
  · simp only [List.mem_map, List.mem_filter, decide_eq_true_eq, mem_fromLog, List.getElem?_drop]
    constructor
    · rintro ⟨p, ⟨⟨e, he, hc⟩, hp⟩, rfl⟩
      exact ⟨e, by rw [Nat.add_sub_cancel' hp, he], hc⟩
    · rintro ⟨e, he, hc⟩
      exact ⟨r + o, ⟨⟨e, he, hc⟩, by omega⟩, by omega⟩

theorem entryAt_append_left {m : List LogEntry} (ho : o < l.length) :
    entryAt (l ++ m) o = entryAt l o := by
  rw [entryAt, entryAt, List.getElem?_append_left ho]

theorem findSome_congr {α β : Type*} {l : List α} {f g : α → Option β} (h : ∀ x ∈ l, f x = g x) :
    l.findSome? f = l.findSome? g := by
  induction l with
  | nil => rfl
  | cons x l ih =>
    rw [List.findSome?_cons, List.findSome?_cons, h x (by simp), ih fun y hy => h y (by simp [hy])]

theorem lt_of_mem_fromLog (ho : o ∈ fromLog l) : o < l.length := by
  obtain ⟨e, he, -⟩ := mem_fromLog.1 ho
  exact (List.getElem?_eq_some_iff.1 he).1

end ConfigurationIndex

variable {g : List LogEntry} {best : Option CommittedConfiguration}
  {xs : List CommittedConfiguration} {x y : CommittedConfiguration}
  {f : Option CommittedConfiguration → CommittedConfiguration → Option CommittedConfiguration}

/-! ## The last configuration of a log -/

/-- The last configuration entry of a log and its offset. -/
def lastConfiguration : List LogEntry → Option (ℕ × ConfigurationEntry)
  | [] => none
  | e :: l =>
    match lastConfiguration l with
    | some (o, c) => some (o + 1, c)
    | none => e.configurationEntry.map (0, ·)

/-- The last configuration of a log as the index and id of a committed configuration. -/
def configurationStateOf (g : List LogEntry) : Option CommittedConfiguration :=
  (lastConfiguration g).map fun (o, c) => { index := o + 1, configId := c.configId }

theorem lastConfiguration_append (l m : List LogEntry) :
    lastConfiguration (l ++ m) =
      ((lastConfiguration m).map fun (o, c) => (l.length + o, c)).or (lastConfiguration l) := by
  induction l with
  | nil => cases h : lastConfiguration m <;> simp [h, lastConfiguration]
  | cons e l ih =>
    rw [List.cons_append, lastConfiguration, ih, lastConfiguration]
    rcases lastConfiguration m with _ | ⟨o, c⟩ <;> rcases lastConfiguration l with _ | ⟨o', c'⟩ <;>
      simp <;> omega

theorem lastConfiguration_append_singleton (l : List LogEntry) (e : LogEntry) :
    lastConfiguration (l ++ [e]) =
      (e.configurationEntry.map fun c => (l.length, c)).or (lastConfiguration l) := by
  rw [lastConfiguration_append]
  cases h : e.configurationEntry <;> simp [lastConfiguration, h]

theorem lastConfiguration_spec {l : List LogEntry} {o : ℕ} {c : ConfigurationEntry}
    (h : lastConfiguration l = some (o, c)) :
    (∃ e, l[o]? = some e ∧ e.configurationEntry = some c) ∧
      ∀ p e, o < p → l[p]? = some e → e.configurationEntry = none := by
  induction l using List.reverseRecOn with
  | nil => simp [lastConfiguration] at h
  | append_singleton l a ih =>
    rw [lastConfiguration_append_singleton] at h
    cases ha : a.configurationEntry with
    | some c' =>
      rw [ha] at h
      obtain ⟨rfl, rfl⟩ : l.length = o ∧ c' = c := by simpa using h
      refine ⟨⟨a, by simp, ha⟩, fun p e hp he => ?_⟩
      have := (List.getElem?_eq_some_iff.1 he).1
      simp at this
      omega
    | none =>
      rw [ha] at h
      obtain ⟨⟨e, he, hc⟩, hafter⟩ := ih (by simpa using h)
      have ho := (List.getElem?_eq_some_iff.1 he).1
      refine ⟨⟨e, by rw [List.getElem?_append_left ho, he], hc⟩, fun p e' hp he' => ?_⟩
      rcases lt_or_ge p l.length with hlt | hge
      · exact hafter p e' hp (by rwa [List.getElem?_append_left hlt] at he')
      · rw [List.getElem?_append_right hge] at he'
        obtain ⟨-, rfl⟩ := (List.getElem?_singleton ..) ▸ he' |> fun h => by simpa using h
        exact ha

theorem lastConfiguration_eq_none {l : List LogEntry} :
    lastConfiguration l = none ↔ ∀ e ∈ l, e.configurationEntry = none := by
  induction l with
  | nil => simp [lastConfiguration]
  | cons e l ih =>
    rw [lastConfiguration, List.forall_mem_cons, ← ih]
    rcases lastConfiguration l with _ | ⟨o, c⟩ <;> simp

theorem configOf_eq (initial : MembershipConfig) (g : List LogEntry) :
    (raftScheme initial).configOf g =
      ((lastConfiguration g).map fun x => (x.2.configId, x.2.membershipConfig)).getD
        (0, initial) := by
  induction g using List.reverseRecOn with
  | nil => rfl
  | append_singleton l e ih =>
    rw [lastConfiguration_append_singleton, Scheme.configOf, Scheme.configs_append,
      Scheme.configs_singleton]
    have hcfg : (raftScheme initial).config e =
      e.configurationEntry.map fun c => (c.configId, c.membershipConfig) := rfl
    rw [hcfg]
    cases e.configurationEntry with
    | some c => simp [List.getLastD_eq_getLast?]
    | none => simpa [Scheme.configOf] using ih

theorem membershipOf_eq (initial : MembershipConfig) (g : List LogEntry) :
    membershipOf initial g =
      ((lastConfiguration g).map fun x => x.2.membershipConfig).getD initial := by
  rw [membershipOf, configOf_eq]
  cases lastConfiguration g <;> rfl

theorem configs_eq_nil_iff (initial : MembershipConfig) :
    (raftScheme initial).configs g = [] ↔ ∀ e ∈ g, e.configurationEntry = none := by
  simp [Scheme.configs, raftScheme, List.filterMap_eq_nil_iff]

/-! ## Configurations that stand in a log -/

/-- The configuration `x` stands in the log. -/
def ConfigurationAt (g : List LogEntry) (x : CommittedConfiguration) : Prop :=
  0 < x.index ∧ ∃ e c, g[x.index - 1]? = some e ∧ e.configurationEntry = some c ∧
    c.configId = x.configId

theorem ConfigurationAt.of_take {g' : List LogEntry} {b : ℕ} (h : ConfigurationAt g x)
    (ht : g.take b = g'.take b) (hb : x.index ≤ b) : ConfigurationAt g' x := by
  obtain ⟨hpos, e, c, he, hc, hid⟩ := h
  refine ⟨hpos, e, c, ?_, hc, hid⟩
  have hlt : x.index - 1 < b := by omega
  rw [← List.getElem?_take_of_lt hlt, ← ht, List.getElem?_take_of_lt hlt, he]

theorem configurationStateOf_take_spec {k : ℕ} (h : configurationStateOf (g.take k) = some x) :
    x.index ≤ k ∧ ConfigurationAt g x := by
  obtain ⟨⟨o, c⟩, hl, rfl⟩ := Option.map_eq_some_iff.1 h
  obtain ⟨⟨e, he, hc⟩, -⟩ := lastConfiguration_spec hl
  rw [List.getElem?_take] at he
  obtain ⟨ho, he⟩ := Option.ite_none_right_eq_some.1 he
  exact ⟨ho, by simp, e, c, by simpa using he, hc, rfl⟩

/-- No configuration of the first `k` entries stands after the last one. -/
theorem index_le_of_configurationAt {k : ℕ} (hx : ConfigurationAt g x) (hk : x.index ≤ k) :
    ∃ y, configurationStateOf (g.take k) = some y ∧ x.index ≤ y.index ∧
      (x.index = y.index → x = y) := by
  obtain ⟨hpos, e, c, he, hc, hid⟩ := hx
  have het : (g.take k)[x.index - 1]? = some e := by
    rw [List.getElem?_take_of_lt (by omega), he]
  cases hl : lastConfiguration (g.take k) with
  | none =>
    have := lastConfiguration_eq_none.1 hl e (List.mem_of_getElem? het)
    rw [hc] at this
    exact absurd this (by simp)
  | some p =>
    obtain ⟨o, c'⟩ := p
    obtain ⟨⟨e', he', hc'⟩, hafter⟩ := lastConfiguration_spec hl
    have hle : x.index - 1 ≤ o := by
      by_contra hgt
      have := hafter (x.index - 1) e (by omega) het
      rw [hc] at this
      exact absurd this (by simp)
    refine ⟨⟨o + 1, c'.configId⟩, by simp [configurationStateOf, hl], by simp; omega, fun hxo => ?_⟩
    simp only at hxo
    obtain rfl : o = x.index - 1 := by omega
    obtain rfl := Option.some_inj.1 (het.symm.trans he')
    obtain rfl := Option.some_inj.1 (hc.symm.trans hc')
    obtain ⟨i, id⟩ := x
    exact CommittedConfiguration.mk.injEq .. ▸ ⟨by simpa using hxo, hid.symm⟩

/-! ## The latest of recorded configurations -/

/-- Of recorded configurations the fold keeps the one with the greatest index. -/
theorem foldl_latest (hnone : ∀ x, f none x = some x)
    (hsome : ∀ b x, f (some b) x = if b.index ≤ x.index then some x else some b)
    (hxs : ∀ x ∈ xs, x.index ≤ y.index ∧ (x.index = y.index → x = y))
    (hbest : best = none ∨ best = some y ∨ ∃ b, best = some b ∧ b.index ≤ y.index)
    (hy : y ∈ xs ∨ best = some y) : xs.foldl f best = some y := by
  induction xs generalizing best with
  | nil => simpa using hy
  | cons x xs ih =>
    obtain ⟨hx, hxs⟩ := List.forall_mem_cons.1 hxs
    rw [List.foldl_cons]
    by_cases hxy : x = y
    · subst hxy
      have hfx : f best x = some x := by
        rcases hbest with rfl | rfl | ⟨b, rfl, hb⟩
        · exact hnone x
        · rw [hsome, if_pos le_rfl]
        · rw [hsome, if_pos hb]
      exact ih hxs (.inr (.inl hfx)) (.inr hfx)
    · have hlt : x.index < y.index := lt_of_le_of_ne hx.1 fun he => hxy (hx.2 he)
      have hy' : y ∈ xs ∨ best = some y := by
        rcases hy with hy | hy
        · exact .inl ((List.mem_cons.1 hy).resolve_left fun h => hxy h.symm)
        · exact .inr hy
      rcases hbest with rfl | rfl | ⟨b, rfl, hb⟩
      · exact ih hxs (.inr (.inr ⟨x, hnone x, hx.1⟩)) (hy'.imp_right fun h => by simp at h)
      · have hfy : f (some y) x = some y := by rw [hsome, if_neg (by omega)]
        exact ih hxs (.inr (.inl hfy)) (.inr hfy)
      · refine ih hxs (.inr (.inr ?_)) ?_
        · rw [hsome]
          split_ifs
          · exact ⟨x, rfl, hx.1⟩
          · exact ⟨b, rfl, hb⟩
        · rcases hy' with hy' | hy'
          · exact .inl hy'
          · obtain rfl := Option.some_inj.1 hy'
            exact .inr (by rw [hsome, if_neg (by omega)])

/-- The fold over recorded configurations returns one of them. -/
theorem foldl_mem (hf : ∀ b x, f b x = some x ∨ f b x = b) (h : xs.foldl f best = some y) :
    y ∈ xs ∨ best = some y := by
  induction xs generalizing best with
  | nil => exact .inr h
  | cons x xs ih =>
    rcases ih h with hy | hy
    · exact .inl (List.mem_cons_of_mem _ hy)
    · rcases hf best x with hx | hx
      · rw [hx] at hy
        exact .inl (by simp [Option.some_inj.1 hy])
      · exact .inr (hx ▸ hy)

/-- No recorded configuration has a greater index than the one the fold keeps. -/
theorem index_le_of_foldl (hnone : ∀ x, f none x = some x)
    (hsome : ∀ b x, f (some b) x = if b.index ≤ x.index then some x else some b)
    (h : xs.foldl f best = some y) :
    (∀ x ∈ xs, x.index ≤ y.index) ∧ ∀ b, best = some b → b.index ≤ y.index := by
  induction xs generalizing best with
  | nil =>
    refine ⟨by simp, fun b hb => ?_⟩
    obtain rfl := Option.some_inj.1 (hb.symm.trans h)
    exact le_rfl
  | cons x xs ih =>
    obtain ⟨hxs, hbest⟩ := ih h
    rcases best with _ | b
    · exact ⟨List.forall_mem_cons.2 ⟨hbest x (hnone x), hxs⟩, by simp⟩
    · rw [hsome] at hbest
      split_ifs at hbest with hle
      · have hx := hbest x rfl
        refine ⟨List.forall_mem_cons.2 ⟨hx, hxs⟩, fun b' hb' => ?_⟩
        obtain rfl := Option.some_inj.1 hb'
        exact hle.trans hx
      · have hb := hbest b rfl
        refine ⟨List.forall_mem_cons.2 ⟨by omega, hxs⟩, fun b' hb' => ?_⟩
        obtain rfl := Option.some_inj.1 hb'
        exact hb

theorem isSome_foldl (hf : ∀ b x, (f b x).isSome) (h : xs ≠ [] ∨ best.isSome) :
    (xs.foldl f best).isSome := by
  induction xs generalizing best with
  | nil => simpa using h
  | cons x xs ih => exact ih (.inr (hf best x))

/-! ## Reading the index -/

namespace ConfigurationIndex

/-- Searching the index backwards for a configuration below `j` finds the last one of the first
`j` entries. -/
theorem findSome_fromLog {α : Type*} (f : ℕ → ConfigurationEntry → α) (l : List LogEntry) (j : ℕ) :
    ((fromLog l).reverse.findSome? fun o =>
        if o < j then (entryAt l o).map (f o) else none) =
      (lastConfiguration (l.take j)).map fun x => f x.1 x.2 := by
  induction l using List.reverseRecOn with
  | nil => simp [lastConfiguration]
  | append_singleton l e ih =>
    have hrest : ((fromLog l).reverse.findSome? fun o =>
        if o < j then (entryAt (l ++ [e]) o).map (f o) else none) =
        (lastConfiguration (l.take j)).map fun x => f x.1 x.2 := by
      rw [← ih]
      refine findSome_congr fun o ho => ?_
      rw [entryAt_append_left (lt_of_mem_fromLog (List.mem_reverse.1 ho))]
    rw [fromLog_append_singleton, recordAppend]
    cases hc : e.configurationEntry with
    | none =>
      rw [if_neg (by simp [LogEntry.isConfiguration, hc]), hrest]
      rcases le_or_gt j l.length with hj | hj
      · rw [List.take_append_of_le_length hj]
      · rw [List.take_of_length_le hj.le, List.take_of_length_le
          (by simpa using Nat.succ_le_of_lt hj),
          lastConfiguration_append_singleton, hc]
        rfl
    | some c =>
      rw [if_pos (by simp [LogEntry.isConfiguration, hc]), List.reverse_append,
        List.reverse_singleton, List.singleton_append, List.findSome?_cons]
      have hat : entryAt (l ++ [e]) l.length = some c := by simp [entryAt, hc]
      rcases le_or_gt j l.length with hj | hj
      · rw [if_neg (by omega), hrest, List.take_append_of_le_length hj]
      · rw [if_pos hj, hat, List.take_of_length_le (by simpa using Nat.succ_le_of_lt hj),
          lastConfiguration_append_singleton, hc]
        rfl

theorem effectiveEntry_fromLog (l : List LogEntry) :
    (fromLog l).effectiveEntry l = (lastConfiguration l).map (·.2) := by
  induction l using List.reverseRecOn with
  | nil => rfl
  | append_singleton l e ih =>
    rw [lastConfiguration_append_singleton, effectiveEntry, fromLog_append_singleton, recordAppend]
    cases hc : e.configurationEntry with
    | some c => simp [LogEntry.isConfiguration, hc, entryAt]
    | none =>
      rw [if_neg (by simp [LogEntry.isConfiguration, hc])]
      simp only [Option.map_none, Option.none_or]
      rw [← ih, effectiveEntry]
      cases hlast : (fromLog l).getLast? with
      | none => rfl
      | some o =>
        exact entryAt_append_left (lt_of_mem_fromLog (List.mem_of_getLast? hlast))

theorem entryAtOrBefore_fromLog (l : List LogEntry) (first index : ℕ) :
    (fromLog l).entryAtOrBefore first l index =
      (lastConfiguration (l.take (index + 1 - first))).map (·.2) := by
  rw [← findSome_fromLog fun _ c => c, entryAtOrBefore]
  refine findSome_congr fun o _ => ?_
  by_cases ho : first + o ≤ index
  · rw [if_pos ho, if_pos (by omega), Option.map_id']
  · rw [if_neg ho, if_neg (by omega)]

/-- The offset that is found holds a configuration, so finding it first and reading it is one
search. -/
theorem committedEntry_fromLog (l : List LogEntry) (first index : ℕ) :
    (fromLog l).committedEntry first l index =
      (lastConfiguration (l.take (index + 1 - first))).map (·.2) := by
  rw [← entryAtOrBefore_fromLog, committedEntry, entryAtOrBefore]
  have hsome : ∀ o ∈ (fromLog l).reverse, ∃ c, entryAt l o = some c := fun o ho => by
    obtain ⟨e, he, hc⟩ := mem_fromLog.1 (List.mem_reverse.1 ho)
    rw [entryAt, he]
    exact Option.isSome_iff_exists.1 hc
  generalize (fromLog l).reverse = offsets at hsome
  induction offsets with
  | nil => rfl
  | cons o rest ih =>
    have hrest := ih fun o' ho' => hsome o' (List.mem_cons_of_mem _ ho')
    obtain ⟨c, hc⟩ := hsome o List.mem_cons_self
    by_cases ho : first + o ≤ index
    · simp [ho, hc]
    · simp [ho, hrest]

theorem committedStateAt_fromLog (l : List LogEntry) (first index : ℕ) :
    (fromLog l).committedStateAt first l index =
      (lastConfiguration (l.take (index + 1 - first))).map fun x =>
        { index := first + x.1, configId := x.2.configId } := by
  rw [← findSome_fromLog fun o c => (⟨first + o, c.configId⟩ : CommittedConfiguration),
    committedStateAt]
  refine findSome_congr fun o _ => ?_
  by_cases ho : index < first + o
  · rw [if_pos ho, if_neg (by omega)]
  · rw [if_neg ho, if_pos (by omega)]

end ConfigurationIndex

end Rafter
