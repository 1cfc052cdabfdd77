import Rafter.Bytes.BigEndian

/-!
# Checksummed envelopes

An envelope is a magic number, a version byte and a body, followed by a checksum of all of it. The
checksum function is a parameter; all that is used of it is that its values fit in their field.

Results:

* `verify_eq_ok_iff`: the checksum is verified exactly on the bytes it was appended to;
* `whole_eq_ok_iff`: a codec read to the end of its input takes exactly what it writes;
* `openEnvelope_eq_ok_iff`: an envelope opens exactly if it is the one that encodes the value.
-/

namespace Bytes

variable {ε δ α : Type}

/-! ## Trailing checksums -/

/-- Append the checksum of the bytes in `width` bytes. -/
def checksummed (width : ℕ) (sum : List UInt8 → ℕ) (body : List UInt8) : List UInt8 :=
  body ++ toBe width (sum body)

/-- Verify and remove a trailing checksum of `width` bytes. -/
def verifyChecksum (eof mismatch : ℕ → ℕ → ε) (width : ℕ) (sum : List UInt8 → ℕ)
    (input : List UInt8) :
    Except ε (List UInt8) :=
  if input.length < width then .error (eof width input.length)
  else
    let body := input.take (input.length - width)
    let expected := ofBe (input.drop (input.length - width))
    let actual := sum body
    if expected = actual then .ok body else .error (mismatch expected actual)

section Checksum

variable {eof mismatch : ℕ → ℕ → ε} {width : ℕ} {sum : List UInt8 → ℕ} {body input : List UInt8}

@[simp] theorem length_checksummed : (checksummed width sum body).length = body.length + width := by
  simp [checksummed]

theorem verify_checksummed (hsum : ∀ body, sum body < 256 ^ width) :
    verifyChecksum eof mismatch width sum (checksummed width sum body) = .ok body := by
  have hlen : ¬ (checksummed width sum body).length < width := by
    rw [length_checksummed]
    omega
  have hsplit : (checksummed width sum body).length - width = body.length := by
    rw [length_checksummed]
    omega
  have hbody : (checksummed width sum body).take body.length = body := List.take_left
  have hfield : (checksummed width sum body).drop body.length = toBe width (sum body) :=
    List.drop_left
  rw [verifyChecksum, if_neg hlen, hsplit, hbody, hfield]
  exact if_pos (ofBe_toBe (hsum body))

theorem verify_eq_ok_iff (hsum : ∀ body, sum body < 256 ^ width) :
    verifyChecksum eof mismatch width sum input = .ok body ↔
    input = checksummed width sum body := by
  constructor
  · intro h
    unfold verifyChecksum at h
    dsimp only at h
    split_ifs at h with hlen hmatch
    obtain rfl := Except.ok.inj h
    have hfield : (input.drop (input.length - width)).length = width := by
      rw [List.length_drop]
      omega
    have hbytes := toBe_ofBe (input.drop (input.length - width))
    rw [hfield, hmatch] at hbytes
    rw [checksummed, hbytes, List.take_append_drop]
  · rintro rfl
    exact verify_checksummed hsum

end Checksum

/-! ## Reading to the end -/

/-- Run a reader over the whole input; `trailing` is the error when bytes remain. -/
def Reader.whole (trailing : ℕ → ε) (read : Reader ε α) (input : List UInt8) : Except ε α := do
  let (a, rest) ← read.run input
  if rest.length = 0 then .ok a else .error (trailing rest.length)

variable {trailing : ℕ → ε} {read : Reader ε α} {input : List UInt8}

theorem whole_eq_ok_iff_reads {a : α} :
    Reader.whole trailing read input = .ok a ↔ Reads read input a [] := by
  rw [Reader.whole, bind_eq_ok_iff]
  constructor
  · rintro ⟨⟨b, rest⟩, hread, hend⟩
    dsimp only at hend
    split_ifs at hend with hrest
    obtain rfl := Except.ok.inj hend
    obtain rfl := List.length_eq_zero_iff.1 hrest
    exact hread
  · intro hread
    exact ⟨(a, []), hread, rfl⟩

/-- A codec read to the end takes exactly what it writes. -/
theorem Codes.whole_eq_ok_iff {write : α → Writer δ Unit} {dom : α → Prop}
    (h : Codes (fun _ => True) read write dom) {a : α} :
    Reader.whole trailing read input = .ok a ↔ dom a ∧ Writes (write a) input := by
  rw [whole_eq_ok_iff_reads]
  constructor
  · intro hread
    obtain ⟨-, hdom, bytes, hbytes, rfl⟩ := h.write_read hread
    rw [List.append_nil]
    exact ⟨hdom, hbytes⟩
  · rintro ⟨hdom, hwrite⟩
    have hread := h.read_write trivial hdom hwrite []
    rwa [List.append_nil] at hread

/-! ## Envelopes -/

/-- The errors of opening an envelope. -/
structure EnvelopeErrors (ε : Type) where
  unexpectedEof : ℕ → ℕ → ε
  invalidMagic : List UInt8 → ε
  unsupportedVersion : ℕ → ε
  checksumMismatch : ℕ → ℕ → ε
  trailingBytes : ℕ → ε

/-- Stop with an error unless the condition holds. -/
def Reader.require (condition : Prop) [Decidable condition] (e : ε) : Reader ε Unit :=
  Reader.check (if condition then .ok () else .error e)

@[simp] theorem reads_require {condition : Prop} [Decidable condition] {e : ε}
    {input rest : List UInt8} {u : Unit} :
    Reads (Reader.require condition e) input u rest ↔ condition ∧ rest = input := by
  rw [Reader.require, reads_check]
  by_cases h : condition <;> simp [h]

/-- Read the magic number and the version byte in front of a body. -/
def Reader.envelope (errors : EnvelopeErrors ε) (magic : List UInt8) (version : ℕ)
    (body : Reader ε α) : Reader ε α := do
  let found ← Reader.take errors.unexpectedEof magic.length
  Reader.require (found = magic) (errors.invalidMagic found)
  let byte ← Reader.uint errors.unexpectedEof 1
  Reader.require (byte = version) (errors.unsupportedVersion byte)
  body

/-- Write the magic number and the version byte in front of a body. -/
def Writer.envelope (magic : List UInt8) (version : ℕ) (body : Writer δ Unit) : Writer δ Unit := do
  Writer.emit magic
  Writer.uint 1 version
  body

/-- Verify the checksum of an envelope and read all of its body. -/
def openEnvelope (errors : EnvelopeErrors ε) (sum : List UInt8 → ℕ) (magic : List UInt8)
    (version : ℕ) (body : Reader ε α) (input : List UInt8) : Except ε α := do
  let checked ← verifyChecksum errors.unexpectedEof errors.checksumMismatch 4 sum input
  Reader.whole errors.trailingBytes (Reader.envelope errors magic version body) checked

/-- The envelope around a body. -/
def sealEnvelope (sum : List UInt8 → ℕ) (magic : List UInt8) (version : ℕ) (body : Writer δ Unit) :
    Except δ (List UInt8) := do
  let bytes ← (Writer.envelope magic version body).output
  return checksummed 4 sum bytes

section Envelope

variable {errors : EnvelopeErrors ε} {sum : List UInt8 → ℕ} {magic : List UInt8} {version : ℕ}
  {read : Reader ε α} {write : α → Writer δ Unit} {dom : α → Prop} {input : List UInt8} {a : α}

theorem sealEnvelope_eq_ok_iff {body : Writer δ Unit} {bytes : List UInt8} :
    sealEnvelope sum magic version body = .ok bytes ↔
      ∃ content, Writes body content ∧
        bytes = checksummed 4 sum (magic ++ (toBe 1 version ++ content)) := by
  rw [sealEnvelope, bind_eq_ok_iff]
  simp only [output_eq_ok_iff, Writer.envelope, Writer.uint, writes_bind, writes_emit]
  constructor
  · rintro ⟨_, ⟨_, _, rfl, ⟨_, content, rfl, hcontent, rfl⟩, rfl⟩, h⟩
    exact ⟨content, hcontent, (Except.ok.inj h).symm⟩
  · rintro ⟨content, hcontent, rfl⟩
    exact ⟨_, ⟨_, _, rfl, ⟨_, content, rfl, hcontent, rfl⟩, rfl⟩, rfl⟩

theorem envelope_codes (hversion : version < 256) (h : Codes (fun _ => True) read write dom) :
    Codes (fun _ => True) (Reader.envelope errors magic version read)
      (fun a => Writer.envelope magic version (write a)) dom where
  read_write := by
    intro a bytes _ hdom hwrite rest
    simp only [Writer.envelope, Writer.uint, writes_bind, writes_emit] at hwrite
    obtain ⟨_, _, rfl, ⟨_, content, rfl, hcontent, rfl⟩, rfl⟩ := hwrite
    rw [List.append_assoc, List.append_assoc]
    refine reads_bind.2 ⟨_, _, reads_take.2 ⟨rfl, rfl⟩, ?_⟩
    refine reads_bind.2 ⟨(), _, reads_require.2 ⟨rfl, rfl⟩, ?_⟩
    refine reads_bind.2 ⟨version, _, reads_uint.2 ⟨by omega, rfl⟩, ?_⟩
    refine reads_bind.2 ⟨(), _, reads_require.2 ⟨rfl, rfl⟩, ?_⟩
    exact h.read_write trivial hdom hcontent rest
  write_read := by
    intro input a rest hread
    obtain ⟨found, _, htake, hread⟩ := reads_bind.1 hread
    obtain ⟨⟨⟩, _, hmagic, hread⟩ := reads_bind.1 hread
    obtain ⟨byte, _, hbyte, hread⟩ := reads_bind.1 hread
    obtain ⟨⟨⟩, _, hcheck, hread⟩ := reads_bind.1 hread
    obtain ⟨-, hdom, content, hcontent, rfl⟩ := h.write_read hread
    obtain ⟨rfl, rfl⟩ := reads_require.1 hcheck
    obtain ⟨-, rfl⟩ := reads_uint.1 hbyte
    obtain ⟨rfl, rfl⟩ := reads_require.1 hmagic
    obtain ⟨-, rfl⟩ := reads_take.1 htake
    refine ⟨trivial, hdom, found ++ (toBe 1 byte ++ content), ?_, by simp⟩
    simp only [Writer.envelope, Writer.uint, writes_bind, writes_emit]
    exact ⟨_, _, rfl, ⟨_, content, rfl, hcontent, rfl⟩, rfl⟩

/-- An envelope opens to a value exactly if it is the one that encodes it. -/
theorem openEnvelope_eq_ok_iff (hsum : ∀ body, sum body < 256 ^ 4) (hversion : version < 256)
    (h : Codes (fun _ => True) read write dom) :
    openEnvelope errors sum magic version read input = .ok a ↔
      dom a ∧ sealEnvelope sum magic version (write a) = .ok input := by
  rw [openEnvelope, bind_eq_ok_iff, sealEnvelope, bind_eq_ok_iff]
  simp only [verify_eq_ok_iff hsum, (envelope_codes hversion h).whole_eq_ok_iff, output_eq_ok_iff]
  constructor
  · rintro ⟨body, rfl, hdom, hwrite⟩
    exact ⟨hdom, body, hwrite, rfl⟩
  · rintro ⟨hdom, body, hwrite, hsealed⟩
    exact ⟨body, (Except.ok.inj hsealed).symm, hdom, hwrite⟩

end Envelope

end Bytes
