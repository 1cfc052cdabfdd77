import Rafter.Storage.Segment

/-!
# The file-backed log segment

`crates/rafter-storage/src/raft_log_segment/`: strict and repairing open (`open.rs`), and the
file-backed segment with its rewrites (`file.rs`, `rewrite.rs`).

The files of a segment are its log and its compaction marker. A replacement is prepared in a
temporary file and renamed into place; here it replaces the stable file in one step. I/O errors,
and with them the health of a handle, are outside the model.

Results:

* `FileRaftLogSegment.openStrict_eq_ok_iff`: what a strict open accepts;
* `FileRaftLogSegment.appendFrames_eq_ok_iff`: what the append loop accepts, and the bytes it
  writes.
-/

namespace Rafter.Storage

open Bytes (Frames Framed FrameStop FrameScan)

/-! ## Open -/

/-- The stable files of a segment. A missing log is created empty. -/
structure SegmentFiles where
  log : List UInt8
  marker : Option (List UInt8)
deriving DecidableEq

/-- `OpenRaftLogSegmentError`. -/
inductive OpenRaftLogSegmentError where
  | replay (error : RaftLogReplayError)
  | compactionMarker (error : DecodeRaftLogCompactionMarkerError)
  | nonContiguous (expected actual : ℕ)
deriving DecidableEq

/-- `FileRaftLogSegment`. -/
structure FileRaftLogSegment where
  files : SegmentFiles
  compactedThrough : ℕ
  entries : ContiguousLogEntries
  first : entries.firstIndex = compactedThrough + 1

/-- `OpenMode`. -/
inductive OpenMode where
  | strict
  | repairUncommittedTail (durableCommitIndex : ℕ)
deriving DecidableEq

/-- `read_compaction_marker`. -/
def readCompactionMarker : Option (List UInt8) → Except OpenRaftLogSegmentError ℕ
  | none => .ok 0
  | some bytes => (decodeRaftLogCompactionMarker bytes).mapError .compactionMarker

/-- The entries of a scan above the compacted prefix. -/
def retained (compactedThrough : ℕ) (entries : List PersistedRaftLogEntry) :
    List PersistedRaftLogEntry :=
  entries.filter fun entry => decide (compactedThrough < entry.index)

/-- `replay_entries_strict`. -/
def replayEntriesStrict (scan : RaftLogFrameScan) (compactedThrough : ℕ) :
    Except OpenRaftLogSegmentError ContiguousLogEntries :=
  match scan.stop with
  | some (offset, stop) => .error (.replay (replayError offset stop))
  | none =>
    (ContiguousLogEntries.fromEntries (compactedThrough + 1)
      (retained compactedThrough (scan.frames.map Framed.item))).mapError
        fun e => .nonContiguous e.expected e.actual

/-- The loop of `replay_entries_repairing_uncommitted_tail`: the entries it keeps, the index it
expects after them, and where it cuts the log if it meets a gap. -/
def repairFrames (compactedThrough durableCommitIndex : ℕ) :
    ℕ → List (Framed PersistedRaftLogEntry) →
      Except OpenRaftLogSegmentError (List PersistedRaftLogEntry × ℕ × Option ℕ)
  | expected, [] => .ok ([], expected, none)
  | expected, frame :: rest =>
    if frame.item.index ≤ compactedThrough then
      repairFrames compactedThrough durableCommitIndex expected rest
    else if frame.item.index ≠ expected then
      if expected ≤ durableCommitIndex then .error (.nonContiguous expected frame.item.index)
      else .ok ([], expected, some frame.offset)
    else do
      let (entries, next, truncateAt) ←
        repairFrames compactedThrough durableCommitIndex (expected + 1) rest
      return (frame.item :: entries, next, truncateAt)

/-- Where the log is cut: at the gap that was met, or else where the scan stopped. -/
def truncateOffset (durableCommitIndex expected : ℕ) (gapAt : Option ℕ)
    (stop : Option (ℕ × FrameStop DecodeRaftLogEntryError)) :
    Except OpenRaftLogSegmentError (Option ℕ) :=
  match gapAt, stop with
  | some offset, _ => .ok (some offset)
  | none, none => .ok none
  | none, some (offset, stop) =>
    if expected ≤ durableCommitIndex then .error (.replay (replayError offset stop))
    else .ok (some offset)

/-- `replay_entries_repairing_uncommitted_tail`. -/
def replayEntriesRepairingUncommittedTail (scan : RaftLogFrameScan)
    (compactedThrough durableCommitIndex : ℕ) :
    Except OpenRaftLogSegmentError (ContiguousLogEntries × Option ℕ) := do
  let (entries, expected, gapAt) ←
    repairFrames compactedThrough durableCommitIndex (compactedThrough + 1) scan.frames
  let truncateAt ← truncateOffset durableCommitIndex expected gapAt scan.stop
  let entries ← (ContiguousLogEntries.fromEntries (compactedThrough + 1) entries).mapError
    fun e => .nonContiguous e.expected e.actual
  return (entries, truncateAt)

/-- `replay_entries_for_open`. -/
def replayEntriesForOpen (scan : RaftLogFrameScan) (compactedThrough : ℕ) :
    OpenMode → Except OpenRaftLogSegmentError (ContiguousLogEntries × Option ℕ)
  | .strict => (replayEntriesStrict scan compactedThrough).map fun entries => (entries, none)
  | .repairUncommittedTail durableCommitIndex =>
    replayEntriesRepairingUncommittedTail scan compactedThrough durableCommitIndex

variable {compactedThrough : ℕ} {entries : ContiguousLogEntries}

theorem replayEntriesStrict_eq_ok_iff {log : List UInt8} :
    replayEntriesStrict (readRaftLogFrames log) compactedThrough = .ok entries ↔
      entries.firstIndex = compactedThrough + 1 ∧
        ∃ items, LogFrames items log ∧ entries.entries = retained compactedThrough items := by
  have hscan : ∀ items, (readRaftLogFrames log).stop = none ∧
      (readRaftLogFrames log).frames.map Framed.item = items ↔ LogFrames items log :=
    fun items => Bytes.scan_eq_iff (by omega)
  unfold replayEntriesStrict
  cases hstop : (readRaftLogFrames log).stop with
  | some stop =>
    refine iff_of_false (by simp) ?_
    rintro ⟨-, items, hitems, -⟩
    rw [((hscan items).2 hitems).1] at hstop
    exact absurd hstop (by simp)
  | none =>
    rw [Bytes.mapError_eq_ok_iff, ContiguousLogEntries.fromEntries_eq_ok_iff]
    refine and_congr_right fun _ => ?_
    constructor
    · intro h
      exact ⟨_, (hscan _).1 ⟨hstop, rfl⟩, h⟩
    · rintro ⟨items, hitems, h⟩
      rw [h, ((hscan items).2 hitems).2]

theorem replayEntriesForOpen_firstIndex {scan : RaftLogFrameScan} {mode : OpenMode}
    {truncateAt : Option ℕ}
    (h : replayEntriesForOpen scan compactedThrough mode = .ok (entries, truncateAt)) :
    entries.firstIndex = compactedThrough + 1 := by
  cases mode with
  | strict =>
    obtain ⟨found, hstrict, hout⟩ := Bytes.map_eq_ok_iff.1 h
    rw [← (Prod.mk.inj hout).1]
    unfold replayEntriesStrict at hstrict
    split at hstrict
    · exact absurd hstrict (by simp)
    · rw [Bytes.mapError_eq_ok_iff] at hstrict
      exact (ContiguousLogEntries.fromEntries_eq_ok_iff.1 hstrict).1
  | repairUncommittedTail durableCommitIndex =>
    simp only [replayEntriesForOpen, replayEntriesRepairingUncommittedTail, Bytes.bind_eq_ok_iff,
      Bytes.mapError_eq_ok_iff, Bytes.pure_eq_ok_iff] at h
    obtain ⟨_, _, _, _, found, hentries, hout⟩ := h
    rw [← (Prod.mk.inj hout).1]
    exact (ContiguousLogEntries.fromEntries_eq_ok_iff.1 hentries).1

/-- The log after `set_len` at the offset, if there is one. -/
def cutAt (log : List UInt8) : Option ℕ → List UInt8
  | some offset => log.take offset
  | none => log

namespace FileRaftLogSegment

/-- `open_with_creation_sync`. -/
def openWith (mode : OpenMode) (files : SegmentFiles) :
    Except OpenRaftLogSegmentError FileRaftLogSegment := do
  let compactedThrough ← readCompactionMarker files.marker
  match h : replayEntriesForOpen (readRaftLogFrames files.log) compactedThrough mode with
  | .error e => .error e
  | .ok (entries, truncateAt) =>
    .ok
      { files := { files with log := cutAt files.log truncateAt }
        compactedThrough := compactedThrough
        entries := entries
        first := replayEntriesForOpen_firstIndex h }

/-- `FileRaftLogSegment::open`. -/
def openStrict : SegmentFiles → Except OpenRaftLogSegmentError FileRaftLogSegment :=
  openWith .strict

/-- `FileRaftLogSegment::open_repairing_uncommitted_tail`. -/
def openRepairingUncommittedTail (files : SegmentFiles) (durableCommitIndex : ℕ) :
    Except OpenRaftLogSegmentError FileRaftLogSegment :=
  openWith (.repairUncommittedTail durableCommitIndex) files

/-- A strict open gives back the segment whose files are its frames and its marker. -/
theorem openStrict_eq_ok_iff {files : SegmentFiles} {s : FileRaftLogSegment} :
    openStrict files = .ok s ↔ s.files = files ∧
      readCompactionMarker files.marker = .ok s.compactedThrough ∧
      ∃ items, LogFrames items files.log ∧ s.entries.entries = retained s.compactedThrough
        items := by
  simp only [openStrict, openWith, Bytes.bind_eq_ok_iff]
  constructor
  · rintro ⟨compactedThrough, hmarker, h⟩
    split at h
    · exact absurd h (by simp)
    · rename_i entries truncateAt hreplay
      obtain rfl := Except.ok.inj h
      obtain ⟨found, hstrict, hout⟩ := Bytes.map_eq_ok_iff.1 hreplay
      obtain ⟨rfl, rfl⟩ := Prod.mk.inj hout
      exact ⟨rfl, hmarker, (replayEntriesStrict_eq_ok_iff.1 hstrict).2⟩
  · rintro ⟨rfl, hmarker, hitems⟩
    have hstrict := replayEntriesStrict_eq_ok_iff.2 ⟨s.first, hitems⟩
    have hreplay : replayEntriesForOpen (readRaftLogFrames s.files.log) s.compactedThrough .strict =
        .ok (s.entries, none) := Bytes.map_eq_ok_iff.2 ⟨_, hstrict, rfl⟩
    refine ⟨_, hmarker, ?_⟩
    split
    · rename_i e herror
      rw [hreplay] at herror
      exact absurd herror (by simp)
    · rename_i entries truncateAt hok
      rw [hreplay, Except.ok.injEq, Prod.mk.injEq] at hok
      obtain ⟨rfl, rfl⟩ := hok
      rfl

/-! ## Mutations -/

/-- The loop of `append_entries_borrowed`: the frames to write. -/
def appendFrames : ℕ → List PersistedRaftLogEntry → Except RaftLogSegmentAppendError (List UInt8)
  | _, [] => .ok []
  | expected, entry :: rest => do
    rejectAppendBounds entry.index
    if entry.index ≠ expected then .error (.nonContiguous expected entry.index)
    else do
      let frame ← (raftLogFrame entry).mapError .encode
      let frames ← appendFrames (expected + 1) rest
      return frame ++ frames

theorem appendFrames_eq_ok_iff {expected : ℕ} {entries : List PersistedRaftLogEntry}
    {bytes : List UInt8} :
    appendFrames expected entries = .ok bytes ↔ (∀ entry ∈ entries, entry.index ≠ u64Max) ∧
      Contiguous entries expected ∧ writeRaftLogFrames entries = .ok bytes := by
  induction entries generalizing expected bytes with
  | nil => simp [appendFrames, Contiguous, writeRaftLogFrames]
  | cons entry rest ih =>
    simp only [appendFrames, Bytes.bind_eq_ok_iff, rejectAppendBounds_ok_iff]
    by_cases hindex : entry.index = expected
    · simp only [hindex, ne_eq, not_true_eq_false, if_false, Bytes.bind_eq_ok_iff,
        Bytes.mapError_eq_ok_iff, Bytes.pure_eq_ok_iff, ih, Contiguous, writeRaftLogFrames,
        List.forall_mem_cons]
      constructor
      · rintro ⟨-, hmax, frame, hframe, frames, ⟨hbounds, hcont, hframes⟩, hout⟩
        exact ⟨⟨hmax, hbounds⟩, ⟨trivial, hcont⟩, frame, hframe, frames, hframes, hout⟩
      · rintro ⟨⟨hmax, hbounds⟩, ⟨-, hcont⟩, frame, hframe, frames, hframes, hout⟩
        exact ⟨(), hmax, frame, hframe, frames, ⟨hbounds, hcont, hframes⟩, hout⟩
    · simp [hindex, Contiguous]

/-- `append_entries`. -/
def appendEntries (s : FileRaftLogSegment) (entries : List PersistedRaftLogEntry) :
    Except RaftLogSegmentAppendError FileRaftLogSegment :=
  match h : appendFrames s.entries.nextIndex entries with
  | .error e => .error e
  | .ok bytes =>
    if entries = [] then .ok s
    else .ok
      { files := { s.files with log := s.files.log ++ bytes }
        compactedThrough := s.compactedThrough
        entries := s.entries.extendValidated entries (by
          rw [← s.entries.nextIndex_eq]
          exact (appendFrames_eq_ok_iff.1 h).2.1)
        first := s.first }

/-- `publish_log_rewrite`. -/
def publishLogRewrite (s : FileRaftLogSegment) (prepared : List UInt8) : FileRaftLogSegment :=
  { s with files := { s.files with log := prepared } }

/-- `publish_compaction_marker`. -/
def publishCompactionMarker (s : FileRaftLogSegment) (compactedThrough : ℕ) : FileRaftLogSegment :=
  { s with files :=
      { s.files with marker := some (encodeRaftLogCompactionMarker compactedThrough) } }

/-- `truncate_suffix`. -/
def truncateSuffix (s : FileRaftLogSegment) (fromIndex : ℕ) :
    Except RaftLogSegmentTruncateError FileRaftLogSegment := do
  rejectTruncateBounds fromIndex s.compactedThrough s.entries.nextIndex
  if fromIndex = s.entries.nextIndex then return s
  else
    let prepared ← (writeRaftLogFrames (s.entries.entriesBefore fromIndex)).mapError .encode
    let s := s.publishLogRewrite prepared
    return { s with entries := s.entries.truncateSuffix fromIndex, first := s.first }

/-- The cached view after the marker has been published. -/
def compactCached (s : FileRaftLogSegment) (throughIndex : ℕ)
    (h : ¬ throughIndex ≤ s.compactedThrough) : FileRaftLogSegment :=
  { s with
    compactedThrough := throughIndex
    entries := s.entries.compactPrefixThrough throughIndex
    first := ContiguousLogEntries.firstIndex_compactPrefixThrough (by rw [s.first]; omega) }

/-- `compact_prefix_through`. -/
def compactPrefixThrough (s : FileRaftLogSegment) (throughIndex : ℕ) :
    Except RaftLogSegmentCompactError FileRaftLogSegment := do
  rejectCompactBounds throughIndex
  if h : throughIndex ≤ s.compactedThrough then return s
  else do
    let prepared ← (writeRaftLogFrames (s.entries.entriesAfter throughIndex)).mapError .encode
    let s := (s.publishCompactionMarker throughIndex).compactCached throughIndex h
    return s.publishLogRewrite prepared

/-- The files a compaction leaves if the process stops after the marker is published and before the
frames are rewritten. -/
def compactUntilMarker (s : FileRaftLogSegment) (throughIndex : ℕ) :
    Except RaftLogSegmentCompactError SegmentFiles := do
  rejectCompactBounds throughIndex
  if throughIndex ≤ s.compactedThrough then return s.files
  else do
    let _ ← (writeRaftLogFrames (s.entries.entriesAfter throughIndex)).mapError
      RaftLogSegmentCompactError.encode
    return (s.publishCompactionMarker throughIndex).files

/-- `replay_entries`. -/
def replayEntries (s : FileRaftLogSegment) : List PersistedRaftLogEntry := s.entries.entries

/-- `next_index`. -/
def nextIndex (s : FileRaftLogSegment) : ℕ := s.entries.nextIndex

end FileRaftLogSegment

end Rafter.Storage
