import Rafter.Bytes.Frames
import Rafter.Storage.LogEntry

/-!
# Raft log segments

`crates/rafter-storage/src/raft_log_segment/`: the contiguous retained suffix (`continuity.rs`), the
in-memory segment (`memory.rs`) and the frames of a segment file (`frames.rs`). A segment carries
the proof that its entries are contiguous from its compacted prefix on.

Results:

* `validateContiguous_ok_iff`, `Contiguous.takeWhile_lt`: what the continuity checks establish and
  where the boundaries fall;
* `frames_iff`: a segment log is the frames of entries exactly if it is what
  `write_raft_log_frames` writes for them.
-/

namespace Rafter.Storage

open Bytes (Frames Framed FrameStop FrameScan)

variable {entries : List PersistedRaftLogEntry} {u : Unit} {start throughIndex : ℕ}

/-! ## Contiguity -/

/-- The entries have consecutive indexes from `start` on. -/
def Contiguous : List PersistedRaftLogEntry → ℕ → Prop
  | [], _ => True
  | entry :: rest, start => entry.index = start ∧ Contiguous rest (start + 1)

instance decidableContiguous : (entries : List PersistedRaftLogEntry) → (start : ℕ) →
    Decidable (Contiguous entries start)
  | [], _ => inferInstanceAs (Decidable True)
  | entry :: rest, start =>
    have := decidableContiguous rest (start + 1)
    inferInstanceAs (Decidable (entry.index = start ∧ Contiguous rest (start + 1)))

/-- `NonContiguousRaftEntry`. -/
structure NonContiguousRaftEntry where
  expected : ℕ
  actual : ℕ
deriving DecidableEq

/-- `validate_contiguous`. -/
def validateContiguous : List PersistedRaftLogEntry → ℕ → Except NonContiguousRaftEntry Unit
  | [], _ => .ok ()
  | entry :: rest, expected =>
    if entry.index ≠ expected then .error ⟨expected, entry.index⟩
    else validateContiguous rest (expected + 1)

theorem validateContiguous_ok_iff :
    validateContiguous entries start = .ok u ↔ Contiguous entries start := by
  induction entries generalizing start with
  | nil => simp [validateContiguous, Contiguous]
  | cons entry rest ih =>
    rw [validateContiguous, Contiguous]
    by_cases h : entry.index = start <;> simp [h, ih]

namespace Contiguous

variable {more : List PersistedRaftLogEntry}

theorem append_iff : Contiguous (entries ++ more) start ↔
    Contiguous entries start ∧ Contiguous more (start + entries.length) := by
  induction entries generalizing start with
  | nil => simp [Contiguous]
  | cons entry rest ih =>
    rw [List.cons_append, Contiguous, Contiguous, ih, List.length_cons, and_assoc,
      Nat.add_right_comm start 1, Nat.add_assoc start]

variable (h : Contiguous entries start)

include h

theorem index_mem {entry : PersistedRaftLogEntry}
    (hmem : entry ∈ entries) : start ≤ entry.index ∧ entry.index < start + entries.length := by
  induction entries generalizing start with
  | nil => simp at hmem
  | cons head rest ih =>
    obtain ⟨hhead, hrest⟩ := h
    rw [List.length_cons]
    rcases List.mem_cons.1 hmem with rfl | hmem
    · omega
    · have := ih hrest hmem
      omega

theorem take (n : ℕ) : Contiguous (entries.take n) start := by
  rw [← List.take_append_drop n entries, append_iff] at h
  exact h.1

theorem drop (n : ℕ) :
    Contiguous (entries.drop n) (start + min n entries.length) := by
  rw [← List.take_append_drop n entries, append_iff, List.length_take] at h
  exact h.2

/-- The entries below a boundary are the first ones, as many as fit below it. -/
theorem takeWhile_lt (bound : ℕ) :
    entries.takeWhile (fun entry => decide (entry.index < bound)) =
      entries.take (bound - start) := by
  induction entries generalizing start with
  | nil => simp
  | cons entry rest ih =>
    obtain ⟨hindex, hrest⟩ := h
    by_cases hlt : entry.index < bound
    · obtain ⟨k, hk⟩ : ∃ k, bound - start = k + 1 := ⟨bound - start - 1, by omega⟩
      rw [List.takeWhile_cons_of_pos (by simpa using hlt), hk, List.take_succ_cons, ih hrest]
      congr 2
      omega
    · have hzero : bound - start = 0 := by omega
      rw [List.takeWhile_cons_of_neg (by simpa using hlt), hzero, List.take_zero]

/-- The entries from a boundary on are the last ones. -/
theorem filter_le (bound : ℕ) :
    entries.filter (fun entry => decide (bound ≤ entry.index)) = entries.drop (bound - start) := by
  induction entries generalizing start with
  | nil => simp
  | cons entry rest ih =>
    obtain ⟨hindex, hrest⟩ := h
    by_cases hlt : entry.index < bound
    · obtain ⟨k, hk⟩ : ∃ k, bound - start = k + 1 := ⟨bound - start - 1, by omega⟩
      rw [List.filter_cons_of_neg (by simpa using hlt), hk, List.drop_succ_cons, ih hrest]
      congr 1
      omega
    · have hzero : bound - start = 0 := by omega
      have hall : ∀ e ∈ entry :: rest, decide (bound ≤ e.index) = true := by
        intro e he
        have hcont : Contiguous (entry :: rest) start := ⟨hindex, hrest⟩
        have := (hcont.index_mem he).1
        simp only [decide_eq_true_eq]
        omega
      rw [hzero, List.drop_zero, List.filter_eq_self.2 hall]

omit h

end Contiguous

/-- `partition_point`, on a list whose elements with the property come first. -/
def partitionPoint (p : PersistedRaftLogEntry → Bool) (entries : List PersistedRaftLogEntry) : ℕ :=
  (entries.takeWhile p).length

theorem Contiguous.partitionPoint_lt (h : Contiguous entries start) (bound : ℕ) :
    partitionPoint (fun entry => decide (entry.index < bound)) entries =
      min (bound - start) entries.length := by
  rw [partitionPoint, h.takeWhile_lt, List.length_take]

/-- `ContiguousLogEntries`: retained entries that cover one contiguous range. -/
structure ContiguousLogEntries where
  firstIndex : ℕ
  entries : List PersistedRaftLogEntry
  contiguous : Contiguous entries firstIndex
deriving DecidableEq

namespace ContiguousLogEntries

/-- `ContiguousLogEntries::empty_after`. -/
def emptyAfter (compactedThrough : ℕ) : ContiguousLogEntries := ⟨compactedThrough + 1, [], trivial⟩

/-- `ContiguousLogEntries::from_entries`. -/
def fromEntries (firstIndex : ℕ) (entries : List PersistedRaftLogEntry) :
    Except NonContiguousRaftEntry ContiguousLogEntries :=
  match h : validateContiguous entries firstIndex with
  | .error e => .error e
  | .ok _ => .ok ⟨firstIndex, entries, validateContiguous_ok_iff.1 h⟩

/-- `ContiguousLogEntries::next_index`. -/
def nextIndex (s : ContiguousLogEntries) : ℕ :=
  match s.entries.getLast? with
  | some entry => entry.index + 1
  | none => s.firstIndex

/-- `ContiguousLogEntries::extend_validated`, after the check it asserts. -/
def extendValidated (s : ContiguousLogEntries) (entries : List PersistedRaftLogEntry)
    (h : Contiguous entries (s.firstIndex + s.entries.length)) : ContiguousLogEntries :=
  ⟨s.firstIndex, s.entries ++ entries, Contiguous.append_iff.2 ⟨s.contiguous, h⟩⟩

/-- `ContiguousLogEntries::truncate_suffix`. -/
def truncateSuffix (s : ContiguousLogEntries) (fromIndex : ℕ) : ContiguousLogEntries :=
  ⟨s.firstIndex, s.entries.take (partitionPoint (fun e => decide (e.index < fromIndex)) s.entries),
    s.contiguous.take _⟩

/-- `ContiguousLogEntries::entries_before`. -/
def entriesBefore (s : ContiguousLogEntries) (fromIndex : ℕ) : List PersistedRaftLogEntry :=
  s.entries.take (partitionPoint (fun e => decide (e.index < fromIndex)) s.entries)

/-- `ContiguousLogEntries::entries_after`. -/
def entriesAfter (s : ContiguousLogEntries) (throughIndex : ℕ) : List PersistedRaftLogEntry :=
  s.entries.drop (partitionPoint (fun e => decide (e.index ≤ throughIndex)) s.entries)

theorem nextIndex_eq (s : ContiguousLogEntries) :
    s.nextIndex = s.firstIndex + s.entries.length := by
  obtain ⟨start, entries, h⟩ := s
  rcases List.eq_nil_or_concat entries with rfl | ⟨before, last, rfl⟩
  · rfl
  · rw [List.concat_eq_append] at h
    obtain ⟨-, hlast, -⟩ := Contiguous.append_iff.1 h
    simp only [nextIndex, List.concat_eq_append, List.getLast?_append, List.getLast?_singleton,
      Option.some_or, List.length_append, List.length_singleton, hlast]
    omega

/-- Dropping the entries below a boundary that is not before the first index leaves the suffix
contiguous from it. -/
theorem contiguous_drop (s : ContiguousLogEntries) {bound : ℕ} (h : s.firstIndex ≤ bound) :
    Contiguous (s.entries.drop
      (partitionPoint (fun e => decide (e.index < bound)) s.entries)) bound := by
  rw [s.contiguous.partitionPoint_lt]
  by_cases hlen : bound - s.firstIndex ≤ s.entries.length
  · have hdrop := s.contiguous.drop (min (bound - s.firstIndex) s.entries.length)
    have hbound : s.firstIndex +
        min (min (bound - s.firstIndex) s.entries.length) s.entries.length = bound := by
      omega
    rwa [hbound] at hdrop
  · rw [Nat.min_eq_right (by omega), List.drop_length]
    trivial

/-- `ContiguousLogEntries::compact_prefix_through`. -/
def compactPrefixThrough (s : ContiguousLogEntries) (throughIndex : ℕ) : ContiguousLogEntries :=
  if h : throughIndex + 1 ≤ s.firstIndex then s
  else
    ⟨throughIndex + 1,
      s.entries.drop (partitionPoint (fun e => decide (e.index < throughIndex + 1)) s.entries),
      s.contiguous_drop (Nat.le_of_lt (Nat.lt_of_not_le h))⟩

variable {s : ContiguousLogEntries}

theorem fromEntries_eq_ok_iff {firstIndex : ℕ} :
    fromEntries firstIndex entries = .ok s ↔ s.firstIndex = firstIndex ∧ s.entries = entries := by
  unfold fromEntries
  split
  · rename_i e herror
    refine iff_of_false (by simp) ?_
    rintro ⟨rfl, rfl⟩
    have hok : validateContiguous s.entries s.firstIndex = .ok () :=
      validateContiguous_ok_iff.2 s.contiguous
    rw [hok] at herror
    exact absurd herror (by simp)
  · rw [Except.ok.injEq]
    constructor
    · rintro rfl
      exact ⟨rfl, rfl⟩
    · rintro ⟨rfl, rfl⟩
      rfl

theorem entriesAfter_eq (s : ContiguousLogEntries) (throughIndex : ℕ) :
    s.entriesAfter throughIndex =
      s.entries.filter (fun e => decide (throughIndex < e.index)) := by
  have hpoint : (fun e : PersistedRaftLogEntry => decide (e.index ≤ throughIndex)) =
      fun e => decide (e.index < throughIndex + 1) := by
    funext e
    exact decide_eq_decide.2 Nat.lt_succ_iff.symm
  have hfilter := s.contiguous.filter_le (throughIndex + 1)
  rw [entriesAfter, hpoint, s.contiguous.partitionPoint_lt]
  simp only [Nat.succ_le_iff] at hfilter
  rw [hfilter]
  rcases Nat.le_total (throughIndex + 1 - s.firstIndex) s.entries.length with hle | hle
  · rw [Nat.min_eq_left hle]
  · rw [Nat.min_eq_right hle, List.drop_length, List.drop_of_length_le hle]

theorem entries_compactPrefixThrough (h : s.firstIndex ≤ throughIndex) :
    (s.compactPrefixThrough throughIndex).entries = s.entriesAfter throughIndex := by
  rw [compactPrefixThrough, dif_neg (by omega), entriesAfter]
  simp only [Nat.lt_succ_iff]

theorem firstIndex_compactPrefixThrough (h : s.firstIndex ≤ throughIndex) :
    (s.compactPrefixThrough throughIndex).firstIndex = throughIndex + 1 := by
  rw [compactPrefixThrough, dif_neg (by omega)]

end ContiguousLogEntries

/-! ## Errors and bounds -/

/-- `RaftLogSegmentAppendError`. -/
inductive RaftLogSegmentAppendError where
  | nonContiguous (expected actual : ℕ)
  | indexAtMaximum
  | encode (error : EncodeRaftLogEntryError)
deriving DecidableEq

/-- `RaftLogSegmentTruncateError`. -/
inductive RaftLogSegmentTruncateError where
  | outOfBounds (nextIndex actual : ℕ)
  | beforeCompactedPrefix (compactedThrough actual : ℕ)
  | encode (error : EncodeRaftLogEntryError)
deriving DecidableEq

/-- `RaftLogSegmentCompactError`. -/
inductive RaftLogSegmentCompactError where
  | throughIndexAtMaximum
  | encode (error : EncodeRaftLogEntryError)
deriving DecidableEq

/-- `reject_append_bounds`. -/
def rejectAppendBounds (index : ℕ) : Except RaftLogSegmentAppendError Unit :=
  if index = u64Max then .error .indexAtMaximum else .ok ()

/-- `reject_compact_bounds`. -/
def rejectCompactBounds (throughIndex : ℕ) : Except RaftLogSegmentCompactError Unit :=
  if throughIndex = u64Max then .error .throughIndexAtMaximum else .ok ()

/-- `reject_truncate_bounds`. -/
def rejectTruncateBounds (fromIndex compactedThrough nextIndex : ℕ) :
    Except RaftLogSegmentTruncateError Unit :=
  if fromIndex ≤ compactedThrough then .error (.beforeCompactedPrefix compactedThrough fromIndex)
  else if nextIndex < fromIndex then .error (.outOfBounds nextIndex fromIndex)
  else .ok ()

theorem rejectAppendBounds_ok_iff {index : ℕ} :
    rejectAppendBounds index = .ok u ↔ index ≠ u64Max := by
  unfold rejectAppendBounds
  split_ifs with h <;> simp [h]

theorem rejectCompactBounds_ok_iff :
    rejectCompactBounds throughIndex = .ok u ↔ throughIndex ≠ u64Max := by
  unfold rejectCompactBounds
  split_ifs with h <;> simp [h]

theorem rejectTruncateBounds_ok_iff {fromIndex compactedThrough nextIndex : ℕ} :
    rejectTruncateBounds fromIndex compactedThrough nextIndex = .ok u ↔
      compactedThrough < fromIndex ∧ fromIndex ≤ nextIndex := by
  unfold rejectTruncateBounds
  split_ifs with h h' <;> simp <;> omega

/-! ## The in-memory segment -/

/-- `InMemoryRaftLogSegment`: the retained entries start right after the compacted prefix. -/
structure InMemoryRaftLogSegment where
  compactedThrough : ℕ
  entries : ContiguousLogEntries
  first : entries.firstIndex = compactedThrough + 1
deriving DecidableEq

namespace InMemoryRaftLogSegment

/-- `InMemoryRaftLogSegment::new`. -/
def new : InMemoryRaftLogSegment := ⟨0, .emptyAfter 0, rfl⟩

/-- The bound check of `append_entries` on every entry. -/
def rejectBounds (entries : List PersistedRaftLogEntry) : Except RaftLogSegmentAppendError Unit :=
  entries.forM fun entry => rejectAppendBounds entry.index

/-- `append_entries`. -/
def appendEntries (s : InMemoryRaftLogSegment) (entries : List PersistedRaftLogEntry) :
    Except RaftLogSegmentAppendError InMemoryRaftLogSegment := do
  rejectBounds entries
  match h : validateContiguous entries s.entries.nextIndex with
  | .error e => .error (.nonContiguous e.expected e.actual)
  | .ok _ => .ok ⟨s.compactedThrough, s.entries.extendValidated entries (by
      rw [← s.entries.nextIndex_eq]
      exact validateContiguous_ok_iff.1 h), s.first⟩

/-- `truncate_suffix`. -/
def truncateSuffix (s : InMemoryRaftLogSegment) (fromIndex : ℕ) :
    Except RaftLogSegmentTruncateError InMemoryRaftLogSegment := do
  rejectTruncateBounds fromIndex s.compactedThrough s.entries.nextIndex
  return ⟨s.compactedThrough, s.entries.truncateSuffix fromIndex, s.first⟩

/-- `compact_prefix_through`. -/
def compactPrefixThrough (s : InMemoryRaftLogSegment) (throughIndex : ℕ) :
    Except RaftLogSegmentCompactError InMemoryRaftLogSegment := do
  rejectCompactBounds throughIndex
  if h : throughIndex ≤ s.compactedThrough then return s
  else return ⟨throughIndex, s.entries.compactPrefixThrough throughIndex,
    ContiguousLogEntries.firstIndex_compactPrefixThrough (by rw [s.first]; omega)⟩

/-- `replay_entries`. -/
def replayEntries (s : InMemoryRaftLogSegment) : List PersistedRaftLogEntry := s.entries.entries

/-- `next_index`. -/
def nextIndex (s : InMemoryRaftLogSegment) : ℕ := s.entries.nextIndex

end InMemoryRaftLogSegment

/-! ## Frames of a segment file -/

/-- `encoded_frame_len` and `append_encoded_frame`, on the envelope of one entry. -/
def raftLogFrame (entry : PersistedRaftLogEntry) : Except EncodeRaftLogEntryError (List UInt8) := do
  let encoded ← encodeRaftLogEntry entry
  if encoded.length < 2 ^ 32 then return Bytes.frame 4 encoded
  else .error (.payloadTooLarge encoded.length)

/-- `write_raft_log_frames`. -/
def writeRaftLogFrames : List PersistedRaftLogEntry → Except EncodeRaftLogEntryError (List UInt8)
  | [] => .ok []
  | entry :: rest => do
    let frame ← raftLogFrame entry
    let frames ← writeRaftLogFrames rest
    return frame ++ frames

/-- `RaftLogReplayError`. -/
inductive RaftLogReplayError where
  | partialFrameHeader (offset remaining : ℕ)
  | partialEntry (offset expected remaining : ℕ)
  | corruptEntry (offset : ℕ) (source : DecodeRaftLogEntryError)
deriving DecidableEq

/-- The error of `RaftLogFrameReader::next_frame` at an offset. -/
def replayError (offset : ℕ) : FrameStop DecodeRaftLogEntryError → RaftLogReplayError
  | .partialHeader remaining => .partialFrameHeader offset remaining
  | .partialItem expected remaining => .partialEntry offset expected remaining
  | .corrupt source => .corruptEntry offset source

/-- `RaftLogFrameScan`. -/
abbrev RaftLogFrameScan := FrameScan DecodeRaftLogEntryError PersistedRaftLogEntry

/-- `read_raft_log_frames`. -/
def readRaftLogFrames (log : List UInt8) : RaftLogFrameScan := Bytes.scan 4 decodeRaftLogEntry log

/-- The log is the frames of the entries. -/
abbrev LogFrames (entries : List PersistedRaftLogEntry) (log : List UInt8) : Prop :=
  Frames 4 decodeRaftLogEntry entries log

theorem raftLogFrame_eq_ok_iff {entry : PersistedRaftLogEntry} {frame : List UInt8} :
    raftLogFrame entry = .ok frame ↔ ∃ encoded, encodeRaftLogEntry entry = .ok encoded ∧
      encoded.length < 256 ^ 4 ∧ frame = Bytes.frame 4 encoded := by
  rw [raftLogFrame, Bytes.bind_eq_ok_iff]
  refine exists_congr fun encoded => and_congr_right fun _ => ?_
  split_ifs with h
  · rw [eq_comm (a := frame)]
    exact ⟨fun heq => ⟨by omega, Except.ok.inj heq⟩, fun heq => congrArg _ heq.2⟩
  · exact iff_of_false (by simp) fun heq => h (by omega)

/-- The frames of a log are what `write_raft_log_frames` writes for its entries. -/
theorem frames_iff {log : List UInt8} : LogFrames entries log ↔
      (∀ entry ∈ entries, entry.InRange) ∧ writeRaftLogFrames entries = .ok log := by
  constructor
  · intro h
    induction h with
    | nil => exact ⟨by simp, rfl⟩
    | @cons entry encoded rest bytes hlen hdecode _ ih =>
      obtain ⟨hrange, hencode⟩ := decodeRaftLogEntry_eq_ok_iff.1 hdecode
      refine ⟨fun e he => ?_, ?_⟩
      · rcases List.mem_cons.1 he with rfl | he
        · exact hrange
        · exact ih.1 e he
      · rw [writeRaftLogFrames]
        simp only [Bytes.bind_eq_ok_iff]
        exact ⟨_, raftLogFrame_eq_ok_iff.2 ⟨encoded, hencode, hlen, rfl⟩, bytes, ih.2, rfl⟩
  · rintro ⟨hrange, hwrite⟩
    induction entries generalizing log with
    | nil =>
      obtain rfl := Except.ok.inj hwrite
      exact .nil
    | cons entry rest ih =>
      rw [writeRaftLogFrames] at hwrite
      simp only [Bytes.bind_eq_ok_iff] at hwrite
      obtain ⟨frame, hframe, frames, hframes, hlog⟩ := hwrite
      obtain ⟨encoded, hencode, hlen, rfl⟩ := raftLogFrame_eq_ok_iff.1 hframe
      obtain rfl := Except.ok.inj hlog
      have hentry := hrange entry List.mem_cons_self
      refine .cons hlen (decodeRaftLogEntry_eq_ok_iff.2 ⟨hentry, hencode⟩) (ih ?_ hframes)
      exact fun e he => hrange e (List.mem_cons_of_mem _ he)

end Rafter.Storage
