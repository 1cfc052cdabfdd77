import Rafter.Storage.SegmentRefinement

/-!
# Repair of an uncommitted tail

`FileRaftLogSegment::open_repairing_uncommitted_tail` over a log of arbitrary bytes: a prefix of the
log that is frames, with entries that are contiguous above the compacted prefix, is *valid*. The
repair cuts the log at the end of its longest valid prefix. It refuses only if there is something to
cut and the valid prefix does not reach the durable commit index; a log that is valid to its end is
opened as it is, however short it is.

Results:

* `openRepairing_longestValidPrefix`: what the repair does to a log of any bytes.
-/

namespace Rafter.Storage

variable {through : ℕ} {entries : List PersistedRaftLogEntry}
variable {commit expected : ℕ} {scan : RaftLogFrameScan} {gapAt : Option ℕ}

open Bytes (Framed FrameStop)

/-- The first `len` bytes of the log are frames whose entries above the compacted prefix are the
given ones, contiguous. -/
def ValidPrefix (compactedThrough : ℕ) (log : List UInt8) (len : ℕ)
    (entries : List PersistedRaftLogEntry) : Prop :=
  len ≤ log.length ∧ Contiguous entries (compactedThrough + 1) ∧
    ∃ items, LogFrames items (log.take len) ∧ entries = retained compactedThrough items

/-- The longest valid prefix of the log. -/
def LongestValidPrefix (compactedThrough : ℕ) (log : List UInt8) (len : ℕ)
    (entries : List PersistedRaftLogEntry) : Prop :=
  ValidPrefix compactedThrough log len entries ∧
    ∀ len' entries', ValidPrefix compactedThrough log len' entries' → len' ≤ len

theorem retained_cons {entry : PersistedRaftLogEntry} {rest : List PersistedRaftLogEntry} :
    retained through (entry :: rest) =
      if through < entry.index then entry :: retained through rest else retained through rest := by
  simp [retained, List.filter_cons]

/-- The loop keeps the retained entries up to the first frame that does not continue them. -/
theorem repairFrames_cases (through commit : ℕ) (frames : List (Framed PersistedRaftLogEntry))
    (expected : ℕ) :
    (Contiguous (retained through (frames.map Framed.item)) expected ∧
      repairFrames through commit expected frames =
        .ok (retained through (frames.map Framed.item),
          expected + (retained through (frames.map Framed.item)).length, none)) ∨
    ∃ before gap after, frames = before ++ gap :: after ∧
      Contiguous (retained through (before.map Framed.item)) expected ∧ through < gap.item.index ∧
      gap.item.index ≠ expected + (retained through (before.map Framed.item)).length ∧
      repairFrames through commit expected frames =
        if expected + (retained through (before.map Framed.item)).length ≤ commit then
          .error (.nonContiguous
            (expected + (retained through (before.map Framed.item)).length) gap.item.index)
        else .ok (retained through (before.map Framed.item),
          expected + (retained through (before.map Framed.item)).length, some gap.offset) := by
  induction frames generalizing expected with
  | nil => exact .inl ⟨trivial, rfl⟩
  | cons frame frames ih =>
    rw [repairFrames]
    by_cases hcovered : frame.item.index ≤ through
    · -- a covered frame counts neither for the entries nor for the expected index
      have hcons : ∀ rest, retained through (frame.item :: rest) = retained through rest :=
        fun rest => by rw [retained_cons, if_neg (by omega)]
      rw [if_pos hcovered, List.map_cons, hcons]
      rcases ih expected with h | ⟨before, gap, after, rfl, h⟩
      · exact .inl h
      · refine .inr ⟨frame :: before, gap, after, rfl, ?_⟩
        rw [List.map_cons, hcons]
        exact h
    · rw [if_neg hcovered]
      by_cases hgap : frame.item.index = expected
      · have hcons : ∀ rest, retained through (frame.item :: rest) =
            frame.item :: retained through rest :=
          fun rest => by rw [retained_cons, if_pos (by omega)]
        have hlen : ∀ rest : List PersistedRaftLogEntry,
            expected + (frame.item :: rest).length = expected + 1 + rest.length := by
          intro rest
          rw [List.length_cons]
          omega
        rw [if_neg (not_not.2 hgap), List.map_cons, hcons, hlen]
        rcases ih (expected + 1) with ⟨hcont, hrepair⟩ | ⟨before, gap, after, rfl, hcont, h,
          hne, hrepair⟩
        · refine .inl ⟨⟨hgap, hcont⟩, ?_⟩
          rw [hrepair]
          rfl
        · refine .inr ⟨frame :: before, gap, after, rfl, ?_⟩
          rw [List.map_cons, hcons, hlen]
          refine ⟨⟨hgap, hcont⟩, h, hne, ?_⟩
          rw [hrepair]
          split_ifs
          · rfl
          · rfl
      · rw [if_pos hgap]
        exact .inr ⟨[], frame, frames, rfl, trivial, by omega, hgap, rfl⟩

/-- A valid prefix is the longest one if no frame that continues it follows. -/
theorem ValidPrefix.longest_of_blocked {items : List PersistedRaftLogEntry}
    {whole rest : List UInt8} (hframes : LogFrames items whole)
    (hcont : Contiguous (retained through items) (through + 1))
    (hblocked : ∀ entry item left, item.length < 256 ^ 4 → decodeRaftLogEntry item = .ok entry →
      rest = Bytes.frame 4 item ++ left → through < entry.index ∧
        entry.index ≠ through + 1 + (retained through items).length) :
    LongestValidPrefix through (whole ++ rest) whole.length (retained through items) := by
  refine ⟨⟨by simp, hcont, items, by rwa [List.take_left], rfl⟩, ?_⟩
  rintro len entries ⟨hlen, hcont', items', hframes', rfl⟩
  by_contra hlonger
  -- the longer prefix has the same items first, and its next frame is the blocked one
  have hsplit : whole ++ rest = (whole ++ rest).take len ++ (whole ++ rest).drop len :=
    (List.take_append_drop ..).symm
  obtain ⟨more, z, rfl, hz, hmore⟩ := hframes.prefix_of_length_le hframes' hsplit
    (by rw [List.length_take]; omega) (by omega)
  cases hmore with
  | nil =>
    have hshort := congrArg List.length hz
    rw [List.length_take, List.append_nil] at hshort
    omega
  | @cons entry item more bytes hitem hdecode hmore =>
    rw [hz, List.append_assoc] at hsplit
    have hrest := List.append_cancel_left hsplit
    rw [List.append_assoc] at hrest
    obtain ⟨habove, hne⟩ := hblocked entry item _ hitem hdecode hrest
    rw [retained_append, retained_cons, if_pos habove, Contiguous.append_iff] at hcont'
    exact hne hcont'.2.1

/-- What the repair makes of a log: the longest valid prefix, unless there is more to cut than it
may. -/
def Repairs (through commit : ℕ) (log : List UInt8) (len : ℕ)
    (entries : List PersistedRaftLogEntry) : Prop :=
  if len < log.length ∧ through + entries.length < commit then
    ∃ e, replayEntriesRepairingUncommittedTail (readRaftLogFrames log) through commit = .error e
  else ∃ found truncateAt, found.firstIndex = through + 1 ∧ found.entries = entries ∧
    replayEntriesRepairingUncommittedTail (readRaftLogFrames log) through commit =
      .ok (found, truncateAt) ∧
    cutAt log truncateAt = log.take len

/-- Validated entries after the loop has found where to cut. -/
theorem repair_eq_ok {truncateAt : Option ℕ} (hcont : Contiguous entries (through + 1))
    (hframes : repairFrames through commit (through + 1) scan.frames = .ok
      (entries, expected, gapAt))
    (hoffset : truncateOffset commit expected gapAt scan.stop = .ok truncateAt) :
    replayEntriesRepairingUncommittedTail scan through commit =
      .ok (⟨through + 1, entries, hcont⟩, truncateAt) := by
  simp only [replayEntriesRepairingUncommittedTail, Bytes.bind_eq_ok_iff, Bytes.mapError_eq_ok_iff,
    Bytes.pure_eq_ok_iff]
  exact ⟨_, hframes, truncateAt, hoffset, _,
    ContiguousLogEntries.fromEntries_eq_ok_iff.2 ⟨rfl, rfl⟩, rfl⟩

theorem repair_eq_error {e : OpenRaftLogSegmentError}
    (hframes : repairFrames through commit (through + 1) scan.frames = .ok
      (entries, expected, gapAt))
    (hoffset : truncateOffset commit expected gapAt scan.stop = .error e) :
    replayEntriesRepairingUncommittedTail scan through commit = .error e := by
  simp only [replayEntriesRepairingUncommittedTail, hframes]
  show (truncateOffset commit expected gapAt scan.stop >>= _) = _
  rw [hoffset]
  rfl

theorem longestValidPrefix_repairs (through commit : ℕ) (log : List UInt8) :
    ∃ len entries, LongestValidPrefix through log len entries ∧
      Repairs through commit log len entries := by
  obtain ⟨⟨frames, stop⟩, hscan⟩ : ∃ scan, readRaftLogFrames log = scan := ⟨_, rfl⟩
  have hwidth : 0 < 4 := by omega
  rcases repairFrames_cases through commit frames (through + 1) with
    ⟨hcont, hrepair⟩ | ⟨before, gap, after, rfl, hcont, habove, hne, hrepair⟩
  · -- no gap: the scan itself decides
    have hall : Bytes.scan 4 decodeRaftLogEntry log = ⟨frames ++ [], stop⟩ := by
      rw [List.append_nil]
      exact hscan
    obtain ⟨whole, rest, fuel, rfl, hwhole, hfuel, hrest⟩ := Bytes.scan_split hwidth hall
    refine ⟨whole.length, retained through (frames.map Framed.item), ?_, ?_⟩
    · refine ValidPrefix.longest_of_blocked hwhole hcont fun entry item left hitem hdecode
    hleft => ?_
      subst hleft
      cases stop with
      | none =>
        have hnil := congrArg List.length (Bytes.scanFrom_end hfuel hrest)
        rw [List.length_append, Bytes.length_frame, List.length_nil] at hnil
        omega
      | some stop =>
        obtain ⟨-, -, hnext⟩ := Bytes.scanFrom_stop hrest
        rw [Bytes.nextFrame_frame hitem hdecode] at hnext
        exact absurd hnext (by simp)
    · unfold Repairs
      rw [hscan]
      cases stop with
      | none =>
        obtain rfl := Bytes.scanFrom_end hfuel hrest
        rw [if_neg (by simp)]
        refine ⟨_, none, rfl, rfl, repair_eq_ok hcont hrepair rfl, ?_⟩
        simp [cutAt]
      | some stop =>
        obtain ⟨hat, hne, -⟩ := Bytes.scanFrom_stop hrest
        have hpos := List.length_pos_iff.2 hne
        rw [List.length_append]
        split_ifs with hrefuse
        · exact ⟨_, repair_eq_error hrepair (if_pos (by omega))⟩
        · refine ⟨_, some stop.1, rfl, rfl, repair_eq_ok hcont hrepair (if_neg (by omega)), ?_⟩
          rw [cutAt, hat]
  · -- the frame at the gap is where the prefix ends
    obtain ⟨whole, rest, fuel, rfl, hwhole, hfuel, hrest⟩ := Bytes.scan_split hwidth hscan
    obtain ⟨item, left, fuel, rfl, hat, hitem, hdecode, rfl, -⟩ := Bytes.scanFrom_eq_cons hrest
    have hlt : whole.length < (whole ++ (Bytes.frame 4 item ++ left)).length := by
      rw [List.length_append, List.length_append, Bytes.length_frame]
      omega
    refine ⟨whole.length, retained through (before.map Framed.item), ?_, ?_⟩
    · refine ValidPrefix.longest_of_blocked hwhole hcont fun entry item' left' hitem' hdecode'
    hleft => ?_
      obtain ⟨rfl, -⟩ := Bytes.Frames.head_unique hitem hdecode hitem' hdecode' hleft
      exact ⟨habove, hne⟩
    · unfold Repairs
      rw [hscan]
      split_ifs with hrefuse
      · refine ⟨.nonContiguous
          (through + 1 + (retained through (before.map Framed.item)).length) gap.item.index, ?_⟩
        simp only [replayEntriesRepairingUncommittedTail, hrepair]
        rw [if_pos (by omega)]
        rfl
      · rw [if_neg (by omega)] at hrepair
        exact ⟨_, some gap.offset, rfl, rfl, repair_eq_ok hcont hrepair rfl, by rw [cutAt, hat]⟩

theorem Contiguous.exists_index {start index : ℕ} (h : Contiguous entries start)
    (hlow : start ≤ index) (hhigh : index < start + entries.length) :
    ∃ entry ∈ entries, entry.index = index := by
  induction entries generalizing start with
  | nil =>
    rw [List.length_nil] at hhigh
    omega
  | cons entry rest ih =>
    obtain ⟨hindex, hrest⟩ := h
    rw [List.length_cons] at hhigh
    by_cases hhead : index = start
    · exact ⟨entry, List.mem_cons_self, hindex.trans hhead.symm⟩
    · obtain ⟨found, hmem, hfound⟩ := ih hrest (by omega) (by omega)
      exact ⟨found, List.mem_cons_of_mem _ hmem, hfound⟩

/-- Valid prefixes of one log are nested. -/
theorem ValidPrefix.entries_prefix {len len' : ℕ} {log : List UInt8}
    {entries' : List PersistedRaftLogEntry} (h : ValidPrefix through log len entries)
    (h' : ValidPrefix through log len' entries') (hle : len ≤ len') : entries <+: entries' := by
  obtain ⟨hlen, -, items, hframes, rfl⟩ := h
  obtain ⟨hlen', -, items', hframes', rfl⟩ := h'
  have hsplit : log.take len ++ log.drop len = log.take len' ++ log.drop len' := by
    rw [List.take_append_drop, List.take_append_drop]
  obtain ⟨more, z, rfl, -, -⟩ := hframes.prefix_of_length_le hframes' hsplit
    (by rw [List.length_take, List.length_take]; omega) (by omega)
  rw [retained_append]
  exact List.prefix_append ..

theorem eq_ok_of_toOption {ε α : Type} {x : Except ε α} {a : α} (h : x.toOption = some a) :
    x = .ok a := by
  cases x with
  | error e => exact absurd h (by simp [Except.toOption])
  | ok b => exact congrArg _ (Option.some.inj h)

namespace FileRaftLogSegment

variable {files : SegmentFiles} {through : ℕ}

theorem openWith_eq_ok (mode : OpenMode) {entries : ContiguousLogEntries} {truncateAt : Option ℕ}
    (hmarker : readCompactionMarker files.marker = .ok through)
    (hreplay : replayEntriesForOpen (readRaftLogFrames files.log) through mode =
      .ok (entries, truncateAt)) :
    ∃ s, openWith mode files = .ok s ∧ s.compactedThrough = through ∧ s.entries = entries ∧
      s.files = { files with log := cutAt files.log truncateAt } := by
  refine ⟨⟨_, through, entries, replayEntriesForOpen_firstIndex hreplay⟩, ?_, rfl, rfl, rfl⟩
  rw [openWith, Bytes.bind_eq_ok_iff]
  refine ⟨through, hmarker, ?_⟩
  split
  · rename_i e herror
    exact absurd (hreplay.symm.trans herror) (by simp)
  · rename_i found at' hfound
    obtain ⟨rfl, rfl⟩ := Prod.mk.inj (Except.ok.inj (hreplay.symm.trans hfound))
    rfl

theorem openWith_eq_error (mode : OpenMode) {e : OpenRaftLogSegmentError}
    (hmarker : readCompactionMarker files.marker = .ok through)
    (hreplay : replayEntriesForOpen (readRaftLogFrames files.log) through mode = .error e) :
    openWith mode files = .error e := by
  rw [openWith, hmarker]
  dsimp only [bind, Except.bind]
  split
  · rename_i e' herror
    rw [Except.error.inj (hreplay.symm.trans herror)]
  · rename_i found at' hfound
    exact absurd (hreplay.symm.trans hfound) (by simp)

/-- For a log of any bytes, any readable marker and any durable commit index, the repair refuses
exactly if the log goes on after its longest valid prefix and that prefix does not reach the commit
index. Otherwise the log is cut to that prefix, a strict open gives back the same segment, nothing
that a valid prefix of the log held is lost, and if anything was cut every index up to the commit
index is there. -/
theorem openRepairing_longestValidPrefix (files : SegmentFiles) (through commit : ℕ)
    (hmarker : readCompactionMarker files.marker = .ok through) :
    ∃ len entries, LongestValidPrefix through files.log len entries ∧
      if len < files.log.length ∧ through + entries.length < commit then
        ∃ e, openRepairingUncommittedTail files commit = .error e
      else ∃ s, openRepairingUncommittedTail files commit = .ok s ∧
        s.files = { files with log := files.log.take len } ∧ s.compactedThrough = through ∧
        s.replayEntries = entries ∧ openStrict s.files = .ok s ∧
        (∀ len' entries', ValidPrefix through files.log len' entries' →
          entries' <+: s.replayEntries) ∧
        (s.files.log ≠ files.log → ∀ index, through < index → index ≤ commit →
          ∃ entry ∈ s.replayEntries, entry.index = index) := by
  obtain ⟨len, entries, hlongest, hrepairs⟩ := longestValidPrefix_repairs through commit files.log
  refine ⟨len, entries, hlongest, ?_⟩
  unfold Repairs at hrepairs
  split_ifs at hrepairs ⊢ with hrefuse
  · obtain ⟨e, he⟩ := hrepairs
    exact ⟨e, openWith_eq_error (.repairUncommittedTail commit) hmarker he⟩
  · obtain ⟨found, truncateAt, -, rfl, hreplay, hcut⟩ := hrepairs
    obtain ⟨s, hs, rfl, rfl, hfiles⟩ :=
      openWith_eq_ok (.repairUncommittedTail commit) hmarker hreplay
    rw [hcut] at hfiles
    obtain ⟨⟨hlen, hcont, items, hframes, hitems⟩, hmax⟩ := hlongest
    refine ⟨s, hs, hfiles, rfl, rfl, ?_, fun len' entries' hvalid => ?_,
      fun hcutLog index hlow hhigh => ?_⟩
    · refine openStrict_eq_ok_iff.2 ⟨rfl, ?_, items, ?_, hitems⟩
      · rw [hfiles]
        exact hmarker
      · rw [hfiles]
        exact hframes
    · exact hvalid.entries_prefix ⟨hlen, hcont, items, hframes, hitems⟩ (hmax _ _ hvalid)
    · have hshorter : len < files.log.length := by
        refine lt_of_le_of_ne hlen fun heq => hcutLog ?_
        rw [hfiles, heq, List.take_length]
      exact hcont.exists_index hlow (by omega)

/-- The frame of a no-op at index 1 in term 1. -/
def crashLog : List UInt8 :=
  [0, 0, 0, 26, 82, 70, 76, 69, 1, 0, 0, 0, 0, 0, 0, 0, 1, 0, 0, 0, 0, 0, 0, 0, 1, 3, 242, 210, 24,
    154]

/-- Two frames and the first bytes of a third. -/
def tornLog : List UInt8 :=
  (writeRaftLogFrames [⟨1, 1, .noop⟩, ⟨2, 1, .noop⟩]).toOption.getD [] ++ crashLog.take 9

/-- With commit index 1 the torn tail is cut and both entries stay. -/
theorem openRepairing_longestValidPrefix_torn :
    ∃ len s, LongestValidPrefix 0 tornLog len [⟨1, 1, .noop⟩, ⟨2, 1, .noop⟩] ∧
      openRepairingUncommittedTail ⟨tornLog, none⟩ 1 = .ok s ∧ s.files.log = tornLog.take len ∧
      s.files.log ≠ tornLog ∧ openStrict s.files = .ok s := by
  have hopen : (openRepairingUncommittedTail ⟨tornLog, none⟩ 1).toOption.map
      (fun s => (s.replayEntries, decide (s.files.log = tornLog))) =
      some ([⟨1, 1, .noop⟩, ⟨2, 1, .noop⟩], false) := by decide +kernel
  obtain ⟨s, hs, hfound⟩ := Option.map_eq_some_iff.1 hopen
  obtain ⟨hentries, hcut⟩ := Prod.mk.inj hfound
  replace hs := eq_ok_of_toOption hs
  obtain ⟨len, entries, hlongest, hrepair⟩ :=
    openRepairing_longestValidPrefix ⟨tornLog, none⟩ 0 1 rfl
  split_ifs at hrepair with hrefuse
  · obtain ⟨e, he⟩ := hrepair
    rw [hs] at he
    cases he
  · obtain ⟨s', hs', hfiles, -, rfl, hstrict, -⟩ := hrepair
    obtain rfl := Except.ok.inj (hs.symm.trans hs')
    exact ⟨len, s, hentries ▸ hlongest, hs, congrArg SegmentFiles.log hfiles,
      of_decide_eq_false hcut, hstrict⟩

/-- A crash may leave the first frame of a write of two and nothing after it. The log is then valid
to its end, and it is opened although the durable commit index is 2. -/
theorem openRepairing_shortLog :
    ∃ (full s : FileRaftLogSegment),
      created.appendEntries [⟨1, 1, .noop⟩, ⟨2, 1, .noop⟩] = .ok full ∧
      full.files.marker = none ∧ crashLog <+: full.files.log ∧
      LongestValidPrefix 0 crashLog crashLog.length [⟨1, 1, .noop⟩] ∧
      openRepairingUncommittedTail ⟨crashLog, none⟩ 2 = .ok s ∧
      s.replayEntries = [⟨1, 1, .noop⟩] := by
  have hfull : (created.appendEntries [⟨1, 1, .noop⟩, ⟨2, 1, .noop⟩]).toOption.map
      (fun s => (s.files.marker, decide (crashLog <+: s.files.log))) = some (none, true) := by
    decide +kernel
  have hopen : (openRepairingUncommittedTail ⟨crashLog, none⟩ 2).toOption.map replayEntries =
      some [⟨1, 1, .noop⟩] := by decide +kernel
  have hwrite : writeRaftLogFrames [⟨1, 1, .noop⟩] = .ok crashLog := by decide +kernel
  obtain ⟨full, hfull, hlog⟩ := Option.map_eq_some_iff.1 hfull
  obtain ⟨s, hs, hentries⟩ := Option.map_eq_some_iff.1 hopen
  obtain ⟨hmarker, hprefix⟩ := Prod.mk.inj hlog
  have hframes : LogFrames [⟨1, 1, .noop⟩] crashLog := frames_iff.2 ⟨by decide +kernel, hwrite⟩
  refine ⟨full, s, eq_ok_of_toOption hfull, hmarker, of_decide_eq_true hprefix, ⟨?_, ?_⟩,
    eq_ok_of_toOption hs, hentries⟩
  · exact ⟨le_refl _, by decide, _, by rwa [List.take_length], rfl⟩
  · rintro len entries ⟨hlen, -⟩
    exact hlen

end FileRaftLogSegment

end Rafter.Storage
