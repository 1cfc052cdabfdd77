import Rafter.Bytes.BigEndian

/-!
# Streams of length-framed items

A stream is a concatenation of frames, each a length of `width` bytes and that many bytes of an
item. `scan` decodes a stream frame by frame and stops at the first frame that is cut short or that
does not decode; it reports the offset of every frame.

Results:

* `scan_split`: at every point of a scan the input so far is exactly the frames scanned so far,
  and what remains scans to the rest;
* `scan_eq_iff`: a scan reaches the end of its input exactly if the input is the frames of its
  items;
* `Frames.prefix_of_length_le`: of two framed prefixes of one input the shorter one has fewer of the
  same items.
-/

namespace Bytes

variable {ε α : Type}

/-! ## Frames -/

/-- An item with its length in front. -/
def frame (width : ℕ) (item : List UInt8) : List UInt8 := toBe width item.length ++ item

@[simp] theorem length_frame {width : ℕ} {item : List UInt8} :
    (frame width item).length = width + item.length := by
  simp [frame]

/-- Why a scan stopped. -/
inductive FrameStop (ε : Type) where
  | partialHeader (remaining : ℕ)
  | partialItem (expected remaining : ℕ)
  | corrupt (source : ε)
deriving DecidableEq

/-- A decoded item and where its frame starts. -/
structure Framed (α : Type) where
  offset : ℕ
  item : α
deriving DecidableEq

/-- The frames of a stream, and where and why the scan stopped before its end. -/
structure FrameScan (ε α : Type) where
  frames : List (Framed α)
  stop : Option (ℕ × FrameStop ε)
deriving DecidableEq

section Scan

variable (width : ℕ) (decode : List UInt8 → Except ε α)

/-- Decode the frame at the front of an input that is not empty: the item, and the bytes its frame
takes. -/
def nextFrame (input : List UInt8) : Except (FrameStop ε) (α × ℕ) :=
  if input.length < width then .error (.partialHeader input.length)
  else
    let len := ofBe (input.take width)
    let body := input.drop width
    if body.length < len then .error (.partialItem len body.length)
    else match decode (body.take len) with
      | .error e => .error (.corrupt e)
      | .ok a => .ok (a, width + len)

/-- Scan from an offset; the fuel bounds the number of frames. -/
def scanFrom : ℕ → ℕ → List UInt8 → FrameScan ε α
  | 0, _, _ => ⟨[], none⟩
  | fuel + 1, offset, input =>
    if input.length = 0 then ⟨[], none⟩
    else match nextFrame width decode input with
      | .error stop => ⟨[], some (offset, stop)⟩
      | .ok (a, taken) =>
        let rest := scanFrom fuel (offset + taken) (input.drop taken)
        ⟨⟨offset, a⟩ :: rest.frames, rest.stop⟩

/-- Scan a whole stream: a frame takes at least one byte, so its length is fuel enough. -/
def scan (input : List UInt8) : FrameScan ε α := scanFrom width decode input.length 0 input

/-- The input is the frames of the items. -/
inductive Frames : List α → List UInt8 → Prop where
  | nil : Frames [] []
  | cons {a : α} {item : List UInt8} {rest : List α} {bytes : List UInt8}
      (hlen : item.length < 256 ^ width) (hdecode : decode item = .ok a)
      (hrest : Frames rest bytes) : Frames (a :: rest) (frame width item ++ bytes)

end Scan

section Lemmas

variable {width : ℕ} {decode : List UInt8 → Except ε α}
variable {item input x : List UInt8} {a : α} {offset fuel : ℕ} {items : List α}

theorem nextFrame_frame (hlen : item.length < 256 ^ width) (hdecode : decode item = .ok a)
    (rest : List UInt8) :
    nextFrame width decode (frame width item ++ rest) = .ok (a, width + item.length) := by
  have hheader : (frame width item ++ rest).take width = toBe width item.length := by
    rw [frame, List.append_assoc]
    exact List.take_left' (length_toBe ..)
  have hbody : (frame width item ++ rest).drop width = item ++ rest := by
    rw [frame, List.append_assoc]
    exact List.drop_left' (length_toBe ..)
  have hlong : ¬ (frame width item ++ rest).length < width := by
    rw [List.length_append, length_frame]
    omega
  have hfits : ¬ (item ++ rest).length < item.length := by
    rw [List.length_append]
    omega
  rw [nextFrame, if_neg hlong]
  dsimp only
  rw [hheader, hbody, ofBe_toBe hlen, if_neg hfits, List.take_left, hdecode]

/-- The frame that was decoded stands at the front of the input. -/
theorem nextFrame_eq_ok {taken : ℕ} (h : nextFrame width decode input = .ok (a, taken)) :
    ∃ item rest, item.length < 256 ^ width ∧ decode item = .ok a ∧ taken = width + item.length ∧
      input = frame width item ++ rest := by
  unfold nextFrame at h
  dsimp only at h
  split_ifs at h with hshort hpartial
  split at h
  · exact absurd h (by simp)
  · rename_i b hdecode
    have hheader : (input.take width).length = width := by
      rw [List.length_take]
      omega
    have hlt := ofBe_lt (input.take width)
    have hbytes := toBe_ofBe (input.take width)
    rw [hheader] at hlt hbytes
    obtain ⟨rfl, rfl⟩ := Prod.mk.inj (Except.ok.inj h)
    have hitem : ((input.drop width).take (ofBe (input.take width))).length =
        ofBe (input.take width) := by
      rw [List.length_take]
      omega
    refine ⟨_, (input.drop width).drop (ofBe (input.take width)), ?_, hdecode, ?_, ?_⟩
    · rwa [hitem]
    · rw [hitem]
    · rw [frame, hitem, hbytes, List.append_assoc, List.take_append_drop, List.take_append_drop]

/-! ## Scans -/

theorem scanFrom_nil (fuel offset : ℕ) : scanFrom width decode fuel offset [] = ⟨[], none⟩ := by
  cases fuel with
  | zero => rfl
  | succ fuel => rw [scanFrom, if_pos List.length_nil]

theorem scanFrom_frame {rest : List UInt8} (hwidth : 0 < width) (hlen : item.length < 256 ^ width)
    (hdecode : decode item = .ok a) :
    scanFrom width decode (fuel + 1) offset (frame width item ++ rest) =
      ⟨⟨offset, a⟩ :: (scanFrom width decode fuel (offset + (width + item.length)) rest).frames,
        (scanFrom width decode fuel (offset + (width + item.length)) rest).stop⟩ := by
  have hne : (frame width item ++ rest).length ≠ 0 := by
    rw [List.length_append, length_frame]
    omega
  have hdrop : (frame width item ++ rest).drop (width + item.length) = rest :=
    List.drop_left' length_frame
  rw [scanFrom, if_neg hne, nextFrame_frame hlen hdecode]
  dsimp only
  rw [hdrop]

variable {after : List (Framed α)} {stop : Option (ℕ × FrameStop ε)}

/-- What a scan that starts with a frame has read. -/
theorem scanFrom_eq_cons {f : Framed α}
    (h : scanFrom width decode fuel offset input = ⟨f :: after, stop⟩) :
    ∃ item rest fuel', fuel = fuel' + 1 ∧ f.offset = offset ∧ item.length < 256 ^ width ∧
      decode item = .ok f.item ∧ input = frame width item ++ rest ∧
      scanFrom width decode fuel' (offset + (frame width item).length) rest = ⟨after, stop⟩ := by
  cases fuel with
  | zero => simp [scanFrom] at h
  | succ fuel =>
    rw [scanFrom] at h
    split at h
    · simp at h
    split at h
    · simp at h
    · rename_i a taken hnext
      obtain ⟨item, rest, hlen, hdecode, rfl, rfl⟩ := nextFrame_eq_ok hnext
      have hdrop : (frame width item ++ rest).drop (width + item.length) = rest :=
        List.drop_left' length_frame
      simp only [hdrop, FrameScan.mk.injEq, List.cons.injEq] at h
      obtain ⟨⟨rfl, hafter⟩, hstop⟩ := h
      refine ⟨item, rest, fuel, rfl, rfl, hlen, hdecode, rfl, ?_⟩
      rw [length_frame, ← hafter, ← hstop]

/-- Every point of a scan splits its input: the frames before it, and what scans to the rest. -/
theorem scanFrom_split (hwidth : 0 < width) {before : List (Framed α)} (hfuel : input.length ≤ fuel)
    (h : scanFrom width decode fuel offset input = ⟨before ++ after, stop⟩) :
    ∃ whole rest fuel', input = whole ++ rest ∧ Frames width decode (before.map Framed.item) whole ∧
      rest.length ≤ fuel' ∧
      scanFrom width decode fuel' (offset + whole.length) rest = ⟨after, stop⟩ := by
  induction before generalizing fuel offset input with
  | nil => exact ⟨[], input, fuel, rfl, .nil, hfuel, by simpa using h⟩
  | cons f before ih =>
    obtain ⟨item, rest, fuel, rfl, -, hlen, hdecode, rfl, hscan⟩ := scanFrom_eq_cons h
    rw [List.length_append, length_frame] at hfuel
    obtain ⟨whole, left, fuel', rfl, hwhole, hfuel', hrest⟩ := ih (by omega) hscan
    refine ⟨frame width item ++ whole, left, fuel', (List.append_assoc ..).symm,
      .cons hlen hdecode hwhole, hfuel', ?_⟩
    rw [List.length_append, ← Nat.add_assoc]
    exact hrest

/-- A scan with nothing before its stop. -/
theorem scanFrom_stop {at' : ℕ} {stop : FrameStop ε}
    (h : scanFrom width decode fuel offset input = ⟨[], some (at', stop)⟩) :
    at' = offset ∧ input ≠ [] ∧ nextFrame width decode input = .error stop := by
  cases fuel with
  | zero => simp [scanFrom] at h
  | succ fuel =>
    rw [scanFrom] at h
    split_ifs at h with hempty
    · simp at h
    · split at h
      · rename_i stop' hnext
        simp only [FrameScan.mk.injEq, Option.some.injEq, Prod.mk.injEq, true_and] at h
        obtain ⟨rfl, rfl⟩ := h
        exact ⟨rfl, fun hnil => hempty (by rw [hnil, List.length_nil]), hnext⟩
      · simp at h

/-- A scan that finds nothing and does not stop has reached the end. -/
theorem scanFrom_end (hfuel : input.length ≤ fuel)
    (h : scanFrom width decode fuel offset input = ⟨[], none⟩) : input = [] := by
  cases fuel with
  | zero => exact List.length_eq_zero_iff.1 (by omega)
  | succ fuel =>
    rw [scanFrom] at h
    split_ifs at h with hempty
    · exact List.length_eq_zero_iff.1 hempty
    · split at h <;> simp at h

/-- The frames of items followed by anything scan to the items first. -/
theorem Frames.scanFrom_append (hwidth : 0 < width) {whole : List UInt8}
    (h : Frames width decode items whole) (rest : List UInt8) (offset : ℕ)
    (hfuel : whole.length + rest.length ≤ fuel) :
    ∃ frames fuel', frames.map Framed.item = items ∧ rest.length ≤ fuel' ∧
      scanFrom width decode fuel offset (whole ++ rest) =
        ⟨frames ++ (scanFrom width decode fuel' (offset + whole.length) rest).frames,
          (scanFrom width decode fuel' (offset + whole.length) rest).stop⟩ := by
  induction h generalizing offset fuel with
  | nil => exact ⟨[], fuel, rfl, by simpa using hfuel, rfl⟩
  | @cons a item items bytes hlen hdecode hitems ih =>
    rw [List.length_append, length_frame] at hfuel
    obtain ⟨fuel, rfl⟩ : ∃ k, fuel = k + 1 := ⟨fuel - 1, by omega⟩
    obtain ⟨frames, fuel', hframes, hfuel', hscan⟩ :=
      @ih fuel (offset + (width + item.length)) (by omega)
    refine ⟨⟨offset, a⟩ :: frames, fuel', by rw [List.map_cons, hframes], hfuel', ?_⟩
    have hoffset : offset + (frame width item ++ bytes).length =
        offset + (width + item.length) + bytes.length := by
      rw [List.length_append, length_frame]
      omega
    rw [List.append_assoc, scanFrom_frame hwidth hlen hdecode, hscan, hoffset]
    rfl

/-! ## Whole streams -/

theorem scan_split (hwidth : 0 < width) {before : List (Framed α)}
    (h : scan width decode input = ⟨before ++ after, stop⟩) :
    ∃ whole rest fuel, input = whole ++ rest ∧ Frames width decode (before.map Framed.item) whole ∧
      rest.length ≤ fuel ∧ scanFrom width decode fuel whole.length rest = ⟨after, stop⟩ := by
  obtain ⟨whole, rest, fuel, rfl, hwhole, hfuel, hscan⟩ := scanFrom_split hwidth (le_refl _) h
  rw [Nat.zero_add] at hscan
  exact ⟨whole, rest, fuel, rfl, hwhole, hfuel, hscan⟩

/-- The scan reaches the end exactly on the frames of the items it finds. -/
theorem scan_eq_iff (hwidth : 0 < width) : (scan width decode input).stop = none ∧
      (scan width decode input).frames.map Framed.item = items ↔
      Frames width decode items input := by
  constructor
  · rintro ⟨hstop, rfl⟩
    have hscan : scan width decode input = ⟨(scan width decode input).frames ++ [], none⟩ := by
      rw [List.append_nil, ← hstop]
    obtain ⟨whole, rest, fuel, hinput, hwhole, hfuel, hrest⟩ := scan_split hwidth hscan
    obtain rfl := scanFrom_end hfuel hrest
    rw [List.append_nil] at hinput
    rwa [← hinput] at hwhole
  · intro h
    obtain ⟨frames, fuel, hframes, -, hscan⟩ := h.scanFrom_append hwidth [] 0 (le_refl _)
    rw [List.append_nil, List.length_nil, Nat.add_zero, scanFrom_nil] at hscan
    rw [scan, hscan]
    exact ⟨rfl, by rw [List.append_nil, hframes]⟩

namespace Frames

variable {items' : List α}

theorem append {y : List UInt8} (h : Frames width decode items x)
    (h' : Frames width decode items' y) : Frames width decode (items ++ items') (x ++ y) := by
  induction h with
  | nil => exact h'
  | cons hlen hdecode _ ih =>
    rw [List.append_assoc]
    exact .cons hlen hdecode ih

theorem item_of_mem (h : Frames width decode items x) (hmem : a ∈ items) :
    ∃ item, item.length < 256 ^ width ∧ decode item = .ok a := by
  induction h with
  | nil => exact absurd hmem List.not_mem_nil
  | cons hlen hdecode _ ih =>
    rcases List.mem_cons.1 hmem with rfl | hmem
    · exact ⟨_, hlen, hdecode⟩
    · exact ih hmem

/-- Items of a stream have a stream of their own. -/
theorem exists_of_subset {part : List α} (h : Frames width decode items x)
    (hsub : ∀ a ∈ part, a ∈ items) : ∃ y, Frames width decode part y := by
  induction part with
  | nil => exact ⟨[], .nil⟩
  | cons a part ih =>
    obtain ⟨item, hlen, hdecode⟩ := h.item_of_mem (hsub a List.mem_cons_self)
    obtain ⟨y, hy⟩ := ih fun b hb => hsub b (List.mem_cons_of_mem _ hb)
    exact ⟨_, .cons hlen hdecode hy⟩

/-- The frame at the front of an input is determined by it. -/
theorem head_unique {b : α} {item' rest rest' : List UInt8} (hlen : item.length < 256 ^ width)
    (hdecode : decode item = .ok a) (hlen' : item'.length < 256 ^ width)
    (hdecode' : decode item' = .ok b) (h : frame width item ++ rest = frame width item' ++ rest') :
    a = b ∧ item.length = item'.length
      ∧ rest = rest' := by
  have hnext := nextFrame_frame hlen hdecode rest
  rw [h, nextFrame_frame hlen' hdecode'] at hnext
  obtain ⟨hab, htaken⟩ := Prod.mk.inj (Except.ok.inj hnext)
  have hsame : item.length = item'.length := by omega
  refine ⟨hab.symm, hsame, ?_⟩
  exact (List.append_inj h (by rw [length_frame, length_frame, hsame])).2

/-- Of two framed prefixes of one input the shorter one has fewer of the same items. -/
theorem prefix_of_length_le {y u v : List UInt8} (h : Frames width decode items x)
    (h' : Frames width decode items' y) (hinput : x ++ u = y ++ v) (hle : x.length ≤ y.length)
    (hwidth : 0 < width) :
    ∃ more z, items' = items ++ more ∧ y = x ++ z ∧ Frames width decode more z := by
  induction h generalizing items' y with
  | nil => exact ⟨items', y, rfl, rfl, h'⟩
  | @cons a item items bytes hlen hdecode hitems ih =>
    cases h' with
    | nil =>
      rw [List.length_append, length_frame, List.length_nil] at hle
      omega
    | @cons b item' items' bytes' hlen' hdecode' hitems' =>
      rw [List.append_assoc, List.append_assoc] at hinput
      obtain ⟨rfl, hsame, hrest⟩ := head_unique hlen hdecode hlen' hdecode' hinput
      rw [List.length_append, List.length_append, length_frame, length_frame] at hle
      obtain ⟨more, z, rfl, rfl, hmore⟩ := ih hitems' hrest (by omega)
      have hframe : frame width item = frame width item' :=
        (List.append_inj hinput (by rw [length_frame, length_frame, hsame])).1
      refine ⟨more, z, rfl, ?_, hmore⟩
      rw [hframe, List.append_assoc]

end Frames

end Lemmas

end Bytes
