import Rafter.Storage.FileSegment

/-!
# The file-backed segment refines the in-memory one

A file-backed segment is *durable* if a strict open of its files gives it back. Every mutation keeps
a segment durable and does to its compacted prefix and its entries what the same call does to the
in-memory segment. Reopening a durable segment changes nothing, and an interrupted compaction
reopens as a finished one, since the marker alone decides which frames are retained.

Results:

* `FileRaftLogSegment.call_refines`: one call, with the reopens among the calls;
* `Durable.trace_eq`: what a caller sees over any sequence of calls is the same of both.
-/

namespace Rafter.Storage

variable {entries : List PersistedRaftLogEntry} {through : ℕ}

/-- What the readers of a segment report. -/
structure SegmentView where
  replayEntries : List PersistedRaftLogEntry
  nextIndex : ℕ
  compactedThrough : ℕ
deriving DecidableEq

/-- A call on a segment, or a stop of the process and a strict reopen: between two calls, or after a
compaction has published its marker. -/
inductive SegmentCall where
  | appendEntries (entries : List PersistedRaftLogEntry)
  | truncateSuffix (fromIndex : ℕ)
  | compactPrefixThrough (throughIndex : ℕ)
  | reopen
  | interruptedCompaction (throughIndex : ℕ)

/-- The arguments are values of the source's types, and the entries fit a frame. -/
def SegmentCall.InRange : SegmentCall → Prop
  | appendEntries entries => ∀ entry ∈ entries, entry.InRange ∧ entry.envelopeLen < 2 ^ 32
  | truncateSuffix index | compactPrefixThrough index | interruptedCompaction index =>
    index ≤ u64Max
  | reopen => True

instance : (c : SegmentCall) → Decidable c.InRange
  | .appendEntries _ => inferInstanceAs (Decidable (∀ _ ∈ _, _))
  | .truncateSuffix _ | .compactPrefixThrough _ | .interruptedCompaction _ =>
    inferInstanceAs (Decidable (_ ≤ _))
  | .reopen => inferInstanceAs (Decidable True)

namespace InMemoryRaftLogSegment

variable {s t : InMemoryRaftLogSegment}

/-- The segment a caller sees. -/
def view (s : InMemoryRaftLogSegment) : SegmentView :=
  ⟨s.replayEntries, s.nextIndex, s.compactedThrough⟩

/-- A call on the in-memory segment, none if it fails. Stopping and reopening mean nothing to it;
an interrupted compaction is one that took place. -/
def call (s : InMemoryRaftLogSegment) : SegmentCall → Option InMemoryRaftLogSegment
  | .appendEntries entries => (s.appendEntries entries).toOption
  | .truncateSuffix fromIndex => (s.truncateSuffix fromIndex).toOption
  | .compactPrefixThrough throughIndex | .interruptedCompaction throughIndex =>
    (s.compactPrefixThrough throughIndex).toOption
  | .reopen => some s

/-- Whether each call succeeds, and what is seen after it. -/
def trace : InMemoryRaftLogSegment → List SegmentCall → List (Bool × SegmentView)
  | _, [] => []
  | s, c :: calls =>
    let next := (s.call c).getD s
    ((s.call c).isSome, next.view) :: next.trace calls

/-- The retained entries and the boundary they follow determine a segment. -/
theorem eq_of_entries (hthrough : s.compactedThrough = t.compactedThrough)
    (hentries : s.entries.entries = t.entries.entries) : s = t := by
  obtain ⟨a, ⟨f, es, hes⟩, hf⟩ := s
  obtain ⟨b, ⟨g, fs, hfs⟩, hg⟩ := t
  obtain rfl : a = b := hthrough
  obtain rfl : es = fs := hentries
  obtain rfl : f = g := hf.trans hg.symm
  rfl

theorem rejectBounds_ok_iff {u : Unit} :
    rejectBounds entries = .ok u ↔ ∀ entry ∈ entries, entry.index ≠ u64Max := by
  unfold rejectBounds
  induction entries with
  | nil => simp [pure, Except.pure]
  | cons entry rest ih =>
    show (rejectAppendBounds entry.index >>= fun _ => rest.forM _) = .ok u ↔ _
    simp only [Bytes.bind_eq_ok_iff, rejectAppendBounds_ok_iff, ih, List.forall_mem_cons]
    constructor
    · rintro ⟨⟨⟩, hhead, hrest⟩
      exact ⟨hhead, hrest⟩
    · rintro ⟨hhead, hrest⟩
      exact ⟨(), hhead, hrest⟩

theorem appendEntries_eq_ok_iff :
    s.appendEntries entries = .ok t ↔ (∀ entry ∈ entries, entry.index ≠ u64Max) ∧
      Contiguous entries s.entries.nextIndex ∧ t.compactedThrough = s.compactedThrough ∧
      t.entries.entries = s.entries.entries ++ entries := by
  simp only [appendEntries, Bytes.bind_eq_ok_iff, rejectBounds_ok_iff]
  constructor
  · rintro ⟨-, hbounds, h⟩
    split at h
    · exact absurd h (by simp)
    · rename_i hcont
      obtain rfl := Except.ok.inj h
      exact ⟨hbounds, validateContiguous_ok_iff.1 hcont, rfl, rfl⟩
  · rintro ⟨hbounds, hcont, hthrough, hentries⟩
    have hok : validateContiguous entries s.entries.nextIndex = .ok () :=
      validateContiguous_ok_iff.2 hcont
    refine ⟨(), hbounds, ?_⟩
    split
    · rename_i herror
      rw [hok] at herror
      exact absurd herror (by simp)
    · exact congrArg _ (eq_of_entries hthrough.symm hentries.symm)

theorem truncateSuffix_eq_ok_iff {fromIndex : ℕ} :
    s.truncateSuffix fromIndex = .ok t ↔ s.compactedThrough < fromIndex ∧
      fromIndex ≤ s.entries.nextIndex ∧ t.compactedThrough = s.compactedThrough ∧
      t.entries.entries = s.entries.entriesBefore fromIndex := by
  simp only [truncateSuffix, Bytes.bind_eq_ok_iff, rejectTruncateBounds_ok_iff,
    Bytes.pure_eq_ok_iff]
  constructor
  · rintro ⟨-, ⟨hlow, hhigh⟩, rfl⟩
    exact ⟨hlow, hhigh, rfl, rfl⟩
  · rintro ⟨hlow, hhigh, hthrough, hentries⟩
    exact ⟨(), ⟨hlow, hhigh⟩, eq_of_entries hthrough.symm hentries.symm⟩

theorem compactPrefixThrough_eq_ok_iff {throughIndex : ℕ} :
    s.compactPrefixThrough throughIndex = .ok t ↔ throughIndex ≠ u64Max ∧
      (throughIndex ≤ s.compactedThrough ∧ t = s ∨ s.compactedThrough < throughIndex ∧
        t.compactedThrough = throughIndex ∧
        t.entries.entries = s.entries.entriesAfter throughIndex) := by
  simp only [compactPrefixThrough, Bytes.bind_eq_ok_iff, rejectCompactBounds_ok_iff]
  have hentries : s.compactedThrough < throughIndex →
      (s.entries.compactPrefixThrough throughIndex).entries = s.entries.entriesAfter throughIndex :=
    fun h => ContiguousLogEntries.entries_compactPrefixThrough (by rw [s.first]; omega)
  constructor
  · rintro ⟨-, hmax, h⟩
    refine ⟨hmax, ?_⟩
    split_ifs at h with hle
    · exact .inl ⟨hle, (Except.ok.inj h).symm⟩
    · obtain rfl := Except.ok.inj h
      exact .inr ⟨by omega, rfl, hentries (by omega)⟩
  · rintro ⟨hmax, ⟨hle, rfl⟩ | ⟨hlt, hthrough, ht⟩⟩
    · exact ⟨(), hmax, dif_pos hle⟩
    · refine ⟨(), hmax, (dif_neg (by omega)).trans (congrArg _ ?_)⟩
      exact eq_of_entries hthrough.symm ((hentries hlt).trans ht.symm)

end InMemoryRaftLogSegment

theorem retained_append {a b : List PersistedRaftLogEntry} :
    retained through (a ++ b) = retained through a ++ retained through b :=
  List.filter_append ..

theorem retained_of_contiguous {start : ℕ} (h : Contiguous entries start)
    (hstart : through < start) :
    retained through entries = entries := by
  refine List.filter_eq_self.2 fun entry hmem => ?_
  have := (h.index_mem hmem).1
  simp only [decide_eq_true_eq]
  omega

theorem retained_retained {before : ℕ} (h : before ≤ through)
    (entries : List PersistedRaftLogEntry) :
    retained through (retained before entries) = retained through entries := by
  rw [retained, retained, retained, List.filter_filter]
  congr 1
  funext entry
  rw [← Bool.decide_and]
  exact decide_eq_decide.2 ⟨fun h' => h'.1, fun h' => ⟨h', by omega⟩⟩

/-- Entries below the maximum index that fit a frame can be written. -/
theorem writeRaftLogFrames_isOk (hindex : ∀ entry ∈ entries, entry.index ≠ u64Max)
    (hlen : ∀ entry ∈ entries, entry.envelopeLen < 2 ^ 32) :
    ∃ bytes, writeRaftLogFrames entries = .ok bytes := by
  induction entries with
  | nil => exact ⟨[], rfl⟩
  | cons entry rest ih =>
    rw [List.forall_mem_cons] at hindex hlen
    obtain ⟨encoded, hencode, hlenEncoded⟩ := encodeRaftLogEntry_isOk hindex.1 hlen.1
    obtain ⟨frames, hframes⟩ := ih hindex.2 hlen.2
    have hframe : raftLogFrame entry = .ok (Bytes.frame 4 encoded) :=
      raftLogFrame_eq_ok_iff.2 ⟨encoded, hencode, by have := hlen.1; omega, rfl⟩
    refine ⟨Bytes.frame 4 encoded ++ frames, ?_⟩
    simp only [writeRaftLogFrames, Bytes.bind_eq_ok_iff, Bytes.pure_eq_ok_iff]
    exact ⟨_, hframe, _, hframes, rfl⟩

namespace FileRaftLogSegment

/-- The in-memory segment with the same boundary and entries. -/
def toMemory (s : FileRaftLogSegment) : InMemoryRaftLogSegment :=
  ⟨s.compactedThrough, s.entries, s.first⟩

/-- The segment a caller sees. -/
def view (s : FileRaftLogSegment) : SegmentView :=
  ⟨s.replayEntries, s.nextIndex, s.compactedThrough⟩

/-- A call on the file-backed segment, none if it fails. -/
def call (s : FileRaftLogSegment) : SegmentCall → Option FileRaftLogSegment
  | .appendEntries entries => (s.appendEntries entries).toOption
  | .truncateSuffix fromIndex => (s.truncateSuffix fromIndex).toOption
  | .compactPrefixThrough throughIndex => (s.compactPrefixThrough throughIndex).toOption
  | .reopen => (openStrict s.files).toOption
  | .interruptedCompaction throughIndex =>
    (s.compactUntilMarker throughIndex).toOption.bind fun files => (openStrict files).toOption

/-- Whether each call succeeds, and what is seen after it. -/
def trace : FileRaftLogSegment → List SegmentCall → List (Bool × SegmentView)
  | _, [] => []
  | s, c :: calls =>
    let next := (s.call c).getD s
    ((s.call c).isSome, next.view) :: next.trace calls

/-- A strict open of the segment's files gives it back. -/
def Durable (s : FileRaftLogSegment) : Prop := openStrict s.files = .ok s

/-- What a durable segment has on disk. -/
theorem durable_iff {s : FileRaftLogSegment} :
    s.Durable ↔ readCompactionMarker s.files.marker = .ok s.compactedThrough ∧
      ∃ items, LogFrames items s.files.log ∧
        s.entries.entries = retained s.compactedThrough items := by
  rw [Durable, openStrict_eq_ok_iff]
  exact and_iff_right rfl

theorem readCompactionMarker_encode (h : through < u64Max) :
    readCompactionMarker (some (encodeRaftLogCompactionMarker through)) = .ok through := by
  rw [readCompactionMarker, Bytes.mapError_eq_ok_iff]
  exact decodeRaftLogCompactionMarker_eq_ok_iff.2 ⟨h, rfl⟩

/-- A call succeeds on both segments with the same effect, and the file-backed one stays durable,
or it fails on both. -/
def Refines (file : Option FileRaftLogSegment) (memory : Option InMemoryRaftLogSegment) : Prop :=
  memory = file.map toMemory ∧ ∀ s ∈ file, s.Durable

theorem refines_ok {ε δ : Type} {s : FileRaftLogSegment} (hs : s.Durable) :
    Refines (Except.ok s : Except ε _).toOption (Except.ok s.toMemory : Except δ _).toOption := by
  refine ⟨rfl, fun t ht => ?_⟩
  obtain rfl := Option.some.inj ht
  exact hs

theorem refines_of_ok {ε δ : Type} {file : Except ε FileRaftLogSegment}
    {memory : Except δ InMemoryRaftLogSegment}
    (hok : ∀ s, file = .ok s → s.Durable ∧ memory = .ok s.toMemory)
    (hfail : ∀ t, memory = .ok t → ∃ s, file = .ok s) :
    Refines file.toOption memory.toOption := by
  cases file with
  | ok s =>
    obtain ⟨hdurable, rfl⟩ := hok s rfl
    exact refines_ok hdurable
  | error e =>
    cases memory with
    | ok t =>
      obtain ⟨s, hs⟩ := hfail t rfl
      exact absurd hs (by simp)
    | error d => exact ⟨rfl, fun t ht => absurd ht (by simp [Except.toOption])⟩

section Mutations

variable {s : FileRaftLogSegment}
variable {throughIndex : ℕ}

theorem Durable.append {bytes : List UInt8} (hs : s.Durable) (hframes : LogFrames entries bytes)
    (hcont : Contiguous entries (s.entries.firstIndex + s.entries.entries.length)) : Durable
      { files := { s.files with log := s.files.log ++ bytes }
        compactedThrough := s.compactedThrough
        entries := s.entries.extendValidated entries hcont
        first := s.first } := by
  obtain ⟨hmarker, items, hitems, hentries⟩ := durable_iff.1 hs
  have hfirst := s.first
  refine durable_iff.2 ⟨hmarker, items ++ entries, hitems.append hframes, ?_⟩
  show s.entries.entries ++ entries = retained s.compactedThrough (items ++ entries)
  rw [retained_append, retained_of_contiguous hcont (by omega), ← hentries]

theorem appendEntries_refines (hs : s.Durable)
    (hrange : ∀ entry ∈ entries, entry.InRange ∧ entry.envelopeLen < 2 ^ 32) :
    Refines (s.appendEntries entries).toOption (s.toMemory.appendEntries entries).toOption := by
  refine refines_of_ok (fun t ht => ?_) fun t ht => ?_
  · unfold appendEntries at ht
    split at ht
    · exact absurd ht (by simp)
    · rename_i bytes hbytes
      obtain ⟨hbounds, hcont, hwrite⟩ := appendFrames_eq_ok_iff.1 hbytes
      split_ifs at ht with hnil
      · obtain rfl := Except.ok.inj ht
        subst hnil
        refine ⟨hs, InMemoryRaftLogSegment.appendEntries_eq_ok_iff.2 ⟨hbounds, hcont, rfl, ?_⟩⟩
        rw [List.append_nil]
      · obtain rfl := Except.ok.inj ht
        have hframes : LogFrames entries bytes := frames_iff.2 ⟨fun e he => (hrange e he).1, hwrite⟩
        exact ⟨hs.append hframes _,
          InMemoryRaftLogSegment.appendEntries_eq_ok_iff.2 ⟨hbounds, hcont, rfl, rfl⟩⟩
  · obtain ⟨hbounds, hcont, -⟩ := InMemoryRaftLogSegment.appendEntries_eq_ok_iff.1 ht
    obtain ⟨bytes, hwrite⟩ := writeRaftLogFrames_isOk hbounds fun e he => (hrange e he).2
    have hbytes := appendFrames_eq_ok_iff.2 ⟨hbounds, hcont, hwrite⟩
    unfold appendEntries
    split
    · rename_i e herror
      exact absurd (hbytes.symm.trans herror) (by simp)
    · split_ifs
      · exact ⟨_, rfl⟩
      · exact ⟨_, rfl⟩

/-- Retained entries can be written again. -/
theorem Durable.rewrite (hs : s.Durable) {part : List PersistedRaftLogEntry}
    (hsub : ∀ entry ∈ part, entry ∈ s.entries.entries) :
    ∃ bytes, LogFrames part bytes ∧ writeRaftLogFrames part = .ok bytes := by
  obtain ⟨-, items, hitems, hentries⟩ := durable_iff.1 hs
  have hmem : ∀ entry ∈ part, entry ∈ items := by
    intro entry hentry
    have hretained := hsub entry hentry
    rw [hentries] at hretained
    exact (List.mem_filter.1 hretained).1
  obtain ⟨bytes, hbytes⟩ := hitems.exists_of_subset hmem
  exact ⟨bytes, hbytes, (frames_iff.1 hbytes).2⟩

theorem truncateSuffix_refines {fromIndex : ℕ} (hs : s.Durable) :
    Refines (s.truncateSuffix fromIndex).toOption
    (s.toMemory.truncateSuffix fromIndex).toOption := by
  have hsub : ∀ entry ∈ s.entries.entriesBefore fromIndex, entry ∈ s.entries.entries :=
    fun entry hmem => List.mem_of_mem_take hmem
  obtain ⟨bytes, hframes, hwrite⟩ := hs.rewrite hsub
  obtain ⟨hmarker, -⟩ := durable_iff.1 hs
  have hmemory : ∀ t, s.toMemory.truncateSuffix fromIndex = .ok t ↔ _ :=
    fun t => InMemoryRaftLogSegment.truncateSuffix_eq_ok_iff
  simp only [truncateSuffix, hwrite]
  refine refines_of_ok (fun t ht => ?_) fun t ht => ?_
  · simp only [Bytes.bind_eq_ok_iff, rejectTruncateBounds_ok_iff] at ht
    obtain ⟨-, ⟨hlow, hhigh⟩, ht⟩ := ht
    split_ifs at ht with hend
    · obtain rfl := Except.ok.inj ht
      refine ⟨hs, (hmemory _).2 ⟨hlow, hhigh, rfl, ?_⟩⟩
      show s.entries.entries = s.entries.entriesBefore fromIndex
      rw [ContiguousLogEntries.entriesBefore, s.entries.contiguous.partitionPoint_lt, hend,
        s.entries.nextIndex_eq, Nat.add_sub_cancel_left, Nat.min_self, List.take_length]
    · obtain rfl := Except.ok.inj ht
      refine ⟨durable_iff.2 ⟨hmarker, _, hframes, ?_⟩, (hmemory _).2 ⟨hlow, hhigh, rfl, rfl⟩⟩
      have hcont : Contiguous (s.entries.entriesBefore fromIndex) s.entries.firstIndex :=
        s.entries.contiguous.take _
      have hstart : s.compactedThrough < s.entries.firstIndex := by
        rw [s.first]
        omega
      exact (retained_of_contiguous hcont hstart).symm
  · obtain ⟨hlow, hhigh, -⟩ := (hmemory t).1 ht
    simp only [Bytes.bind_eq_ok_iff, rejectTruncateBounds_ok_iff]
    by_cases hend : fromIndex = s.entries.nextIndex
    · exact ⟨s, (), ⟨hlow, hhigh⟩, if_pos hend⟩
    · exact ⟨_, (), ⟨hlow, hhigh⟩, if_neg hend⟩

/-- Once the marker is published the frames at or below it no longer count, whether they have been
rewritten or not. -/
theorem durable_compact (hmax : throughIndex < u64Max) (h : ¬ throughIndex ≤ s.compactedThrough)
    {log : List UInt8}
    (hlog : ∃ items, LogFrames items log ∧ retained throughIndex items = s.entries.entriesAfter
      throughIndex) :
    Durable (((s.publishCompactionMarker throughIndex).compactCached throughIndex
      h).publishLogRewrite
      log) := by
  obtain ⟨items, hitems, hretained⟩ := hlog
  refine durable_iff.2 ⟨readCompactionMarker_encode hmax, items, hitems, ?_⟩
  show (s.entries.compactPrefixThrough throughIndex).entries = retained throughIndex items
  have hfirst := s.first
  rw [hretained, ContiguousLogEntries.entries_compactPrefixThrough (by omega)]

theorem toMemory_compact (hmax : throughIndex ≠ u64Max) (h : ¬ throughIndex ≤ s.compactedThrough)
    (log : List UInt8) :
    s.toMemory.compactPrefixThrough throughIndex = .ok
      (((s.publishCompactionMarker throughIndex).compactCached throughIndex h).publishLogRewrite
        log).toMemory := by
  have hfirst : s.entries.firstIndex ≤ throughIndex := by
    rw [s.first]
    omega
  refine InMemoryRaftLogSegment.compactPrefixThrough_eq_ok_iff.2
    ⟨hmax, .inr ⟨Nat.lt_of_not_le h, rfl, ?_⟩⟩
  exact ContiguousLogEntries.entries_compactPrefixThrough hfirst

theorem toMemory_compact_covered (hmax : throughIndex ≠ u64Max)
    (h : throughIndex ≤ s.compactedThrough) :
    s.toMemory.compactPrefixThrough throughIndex = .ok s.toMemory :=
  InMemoryRaftLogSegment.compactPrefixThrough_eq_ok_iff.2 ⟨hmax, .inl ⟨h, rfl⟩⟩

/-- The frames that survive a compaction are the retained ones. -/
theorem Durable.rewriteAfter (hs : s.Durable) (throughIndex : ℕ) :
    ∃ bytes, writeRaftLogFrames (s.entries.entriesAfter throughIndex) = .ok bytes ∧
      ∃ items, LogFrames items bytes ∧
        retained throughIndex items = s.entries.entriesAfter throughIndex := by
  have hsub : ∀ entry ∈ s.entries.entriesAfter throughIndex, entry ∈ s.entries.entries :=
    fun entry hmem => List.mem_of_mem_drop hmem
  obtain ⟨bytes, hframes, hwrite⟩ := hs.rewrite hsub
  refine ⟨bytes, hwrite, _, hframes, ?_⟩
  rw [s.entries.entriesAfter_eq]
  exact retained_retained (le_refl _) _

/-- So do the frames of a log that was not rewritten. -/
theorem Durable.retainedAfter (hs : s.Durable) (h : ¬ throughIndex ≤ s.compactedThrough) :
    ∃ items, LogFrames items s.files.log ∧
      retained throughIndex items = s.entries.entriesAfter throughIndex := by
  obtain ⟨-, items, hitems, hentries⟩ := durable_iff.1 hs
  refine ⟨items, hitems, ?_⟩
  rw [s.entries.entriesAfter_eq, hentries]
  exact (retained_retained (by omega) items).symm

theorem compactPrefixThrough_refines (hs : s.Durable) (hrange : throughIndex ≤ u64Max) :
    Refines (s.compactPrefixThrough throughIndex).toOption
      (s.toMemory.compactPrefixThrough throughIndex).toOption := by
  simp only [compactPrefixThrough]
  refine refines_of_ok (fun t ht => ?_) fun t ht => ?_
  · simp only [Bytes.bind_eq_ok_iff, rejectCompactBounds_ok_iff] at ht
    obtain ⟨-, hmax, ht⟩ := ht
    split_ifs at ht with hle
    · obtain rfl := Except.ok.inj ht
      exact ⟨hs, toMemory_compact_covered hmax hle⟩
    · obtain ⟨bytes, hwrite, hlog⟩ := hs.rewriteAfter throughIndex
      simp only [hwrite, Bytes.bind_eq_ok_iff, Bytes.mapError_eq_ok_iff, Except.ok.injEq,
        exists_eq_left', Bytes.pure_eq_ok_iff] at ht
      subst ht
      exact ⟨durable_compact (by omega) hle hlog, toMemory_compact hmax hle bytes⟩
  · obtain ⟨hmax, -⟩ := InMemoryRaftLogSegment.compactPrefixThrough_eq_ok_iff.1 ht
    simp only [Bytes.bind_eq_ok_iff, rejectCompactBounds_ok_iff]
    by_cases hle : throughIndex ≤ s.compactedThrough
    · exact ⟨s, (), hmax, dif_pos hle⟩
    · obtain ⟨bytes, hwrite, -⟩ := hs.rewriteAfter throughIndex
      refine ⟨((s.publishCompactionMarker throughIndex).compactCached throughIndex
        hle).publishLogRewrite
        bytes, (), hmax, ?_⟩
      rw [dif_neg hle, hwrite]
      rfl

theorem call_interruptedCompaction {files : SegmentFiles}
    (h : s.compactUntilMarker throughIndex = .ok files) :
    s.call (.interruptedCompaction throughIndex) = (openStrict files).toOption := by
  rw [call, h]
  rfl

/-- A compaction that stopped after its marker reopens as one that was finished. -/
theorem interruptedCompaction_refines (hs : s.Durable) (hrange : throughIndex ≤ u64Max) :
    Refines (s.call (.interruptedCompaction throughIndex))
      (s.toMemory.compactPrefixThrough throughIndex).toOption := by
  by_cases hmax : throughIndex = u64Max
  · have hfile : s.compactUntilMarker throughIndex = .error .throughIndexAtMaximum := by
      rw [compactUntilMarker, rejectCompactBounds, if_pos hmax]
      rfl
    have hmemory : s.toMemory.compactPrefixThrough throughIndex = .error
      .throughIndexAtMaximum := by
      rw [InMemoryRaftLogSegment.compactPrefixThrough, rejectCompactBounds, if_pos hmax]
      rfl
    rw [call, hfile, hmemory]
    exact ⟨rfl, fun t ht => absurd ht (by simp [Except.toOption])⟩
  · have hbounds : rejectCompactBounds throughIndex = .ok () := rejectCompactBounds_ok_iff.2 hmax
    by_cases hle : throughIndex ≤ s.compactedThrough
    · have hfile : s.compactUntilMarker throughIndex = .ok s.files := by
        rw [compactUntilMarker, hbounds]
        exact if_pos hle
      rw [call_interruptedCompaction hfile, toMemory_compact_covered hmax hle, hs]
      exact refines_ok hs
    · obtain ⟨bytes, hwrite, -⟩ := hs.rewriteAfter throughIndex
      have hfile : s.compactUntilMarker throughIndex =
          .ok (s.publishCompactionMarker throughIndex).files := by
        rw [compactUntilMarker, hbounds, hwrite]
        exact if_neg hle
      have hdurable := durable_compact (by omega) hle (hs.retainedAfter hle)
      have hopen : openStrict (s.publishCompactionMarker throughIndex).files = .ok
          (((s.publishCompactionMarker throughIndex).compactCached throughIndex
            hle).publishLogRewrite
            s.files.log) := hdurable
      rw [call_interruptedCompaction hfile, hopen, toMemory_compact hmax hle s.files.log]
      exact refines_ok hdurable

/-- Every call on a durable segment does what it does on the in-memory one. -/
theorem call_refines (hs : s.Durable) {c : SegmentCall} (hc : c.InRange) :
    Refines (s.call c) (s.toMemory.call c) := by
  cases c with
  | appendEntries entries => exact appendEntries_refines hs hc
  | truncateSuffix fromIndex => exact truncateSuffix_refines hs
  | compactPrefixThrough throughIndex => exact compactPrefixThrough_refines hs hc
  | reopen =>
    show Refines (openStrict s.files).toOption (Except.ok s.toMemory : Except Unit _).toOption
    rw [hs]
    exact refines_ok hs
  | interruptedCompaction throughIndex => exact interruptedCompaction_refines hs hc

end Mutations

/-- Over any sequence of calls a durable segment and the in-memory one are seen the same. -/
theorem Durable.trace_eq {s : FileRaftLogSegment} (hs : s.Durable) {calls : List SegmentCall}
    (hcalls : ∀ c ∈ calls, c.InRange) : s.trace calls = s.toMemory.trace calls := by
  induction calls generalizing s with
  | nil => rfl
  | cons c calls ih =>
    obtain ⟨hc, hcalls⟩ := List.forall_mem_cons.1 hcalls
    obtain ⟨hmemory, hdurable⟩ := call_refines hs hc
    rw [trace, InMemoryRaftLogSegment.trace, hmemory]
    cases hcall : s.call c with
    | none => exact congrArg _ (ih hs hcalls)
    | some t =>
      rw [hcall] at hdurable
      exact congrArg _ (ih (hdurable t rfl) hcalls)

/-- The segment a strict open creates where there are no files. -/
def created : FileRaftLogSegment :=
  ⟨⟨[], none⟩, 0, InMemoryRaftLogSegment.new.entries, InMemoryRaftLogSegment.new.first⟩

theorem created_durable : created.Durable :=
  durable_iff.2 ⟨rfl, [], .nil, rfl⟩

/-- From the creation of both segments on, and for every sequence of calls, reopens and
compactions interrupted after their marker, the calls succeed on the same side and the readers
agree after each of them. -/
theorem fileSegment_refines_memory (calls : List SegmentCall) (hcalls : ∀ c ∈ calls, c.InRange) :
    ∃ s, openStrict ⟨[], none⟩ = .ok s ∧ s.trace calls = InMemoryRaftLogSegment.new.trace calls :=
  ⟨created, created_durable, created_durable.trace_eq hcalls⟩

/-- Appends on both sides of a truncation, a reopen, an interrupted compaction and one past the
tail. -/
def sampleCalls : List SegmentCall :=
  [.appendEntries [⟨1, 1, .noop⟩, ⟨2, 1, .application [7]⟩, ⟨3, 2, .noop⟩], .truncateSuffix 3,
    .reopen, .interruptedCompaction 1, .appendEntries [⟨3, 4, .noop⟩], .compactPrefixThrough 5,
    .truncateSuffix 4]

theorem fileSegment_refines_memory_sampleCalls :
    ∃ s, openStrict ⟨[], none⟩ = .ok s ∧
      s.trace sampleCalls = InMemoryRaftLogSegment.new.trace sampleCalls :=
  fileSegment_refines_memory sampleCalls (by decide +kernel)

end FileRaftLogSegment

end Rafter.Storage
