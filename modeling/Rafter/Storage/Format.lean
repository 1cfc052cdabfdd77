import Rafter.Bytes.Envelope
import Rafter.Types.Range
import Rafter.Types.Validate

/-!
# Primitives of the storage formats

`crates/rafter-storage/src/format/`: the cursor, the checksummed envelope (`envelope.rs`), the
successor bound on log positions (`log_position.rs`) and the compacted-prefix marker
(`v1/log_compaction.rs`).

Results:

* `envelope_eq_ok_iff`: what `verify_checksum`, the magic and version checks and `finish` accept is
  exactly what `finish_checksummed` produced;
* `decodeRaftLogCompactionMarker_eq_ok_iff`: the marker of a boundary is the only bytes that decode
  to it.
-/

namespace Rafter.Storage

open Bytes (Codes Writes Reads EnvelopeErrors)

variable {ε δ : Type}

/-! ## Integers -/

section Cursor

variable (errors : EnvelopeErrors ε)

/-- A byte. -/
def u8 : Bytes.Reader ε ℕ := Bytes.Reader.uint errors.unexpectedEof 1
/-- A number of four bytes. -/
def u32 : Bytes.Reader ε ℕ := Bytes.Reader.uint errors.unexpectedEof 4
/-- A number of eight bytes. -/
def u64 : Bytes.Reader ε ℕ := Bytes.Reader.uint errors.unexpectedEof 8

/-- `advanceable_log_index` on the next integer. -/
def advanceableLogIndex (atMaximum : ε) : Bytes.Reader ε ℕ := do
  let raw ← u64 errors
  Bytes.Reader.check (if raw = u64Max then .error atMaximum else .ok raw)

end Cursor

/-- A byte. -/
def writeU8 (value : ℕ) : Bytes.Writer δ Unit := Bytes.Writer.uint 1 value
/-- A number of eight bytes. -/
def writeU64 (value : ℕ) : Bytes.Writer δ Unit := Bytes.Writer.uint 8 value

section Codecs

variable {errors : EnvelopeErrors ε}

theorem u8_codes : Codes (fun _ => True) (u8 errors) (writeU8 : ℕ → Bytes.Writer δ Unit)
    (· < 256) :=
  Bytes.uint_codes.congr fun n => by simp

theorem u64_codes : Codes (fun _ => True) (u64 errors) (writeU64 : ℕ → Bytes.Writer δ Unit)
    (· ≤ u64Max) :=
  Bytes.uint_codes.congr fun n => by rw [le_u64Max_iff]

theorem advanceableLogIndex_codes {atMaximum : ε} :
    Codes (fun _ => True) (advanceableLogIndex errors atMaximum)
      (writeU64 : ℕ → Bytes.Writer δ Unit) (· < u64Max) := by
  refine u64_codes.checked id (fun n hn => le_of_lt hn) fun raw n hraw => ?_
  by_cases hmax : raw = u64Max
  · rw [if_pos hmax]
    refine iff_of_false (by simp) ?_
    rintro ⟨rfl, -, hlt⟩
    exact absurd hmax (ne_of_lt hlt)
  · rw [if_neg hmax, Except.ok.injEq]
    constructor
    · rintro rfl
      exact ⟨rfl, trivial, lt_of_le_of_ne hraw hmax⟩
    · rintro ⟨rfl, -, -⟩
      rfl

end Codecs

/-! ## Envelopes -/

/-- What a storage decoder of this shape accepts is exactly what its encoder produces. -/
theorem envelope_eq_ok_iff {α : Type} {errors : EnvelopeErrors ε} {magic : List UInt8}
    {version : ℕ} {read : Bytes.Reader ε α} {write : α → Bytes.Writer δ Unit} {dom : α → Prop}
    (hversion : version < 256) (h : Codes (fun _ => True) read write dom) {input : List UInt8}
    {a : α} :
    Bytes.openEnvelope errors crc32 magic version read input = .ok a ↔
      dom a ∧ Bytes.sealEnvelope crc32 magic version (write a) = .ok input := by
  have hsum : ∀ body, crc32 body < 256 ^ 4 := by
    intro body
    have hlt := crc32_lt body
    omega
  exact Bytes.openEnvelope_eq_ok_iff hsum hversion h

/-! ## The compacted-prefix marker -/

/-- The ASCII bytes of a magic number. -/
def magicBytes (text : String) : List UInt8 := text.toList.map fun c => UInt8.ofNat c.toNat

/-- The first bytes of a marker. -/
def raftLogCompactionMagic : List UInt8 := magicBytes "RFLC"

/-- The version of a marker. -/
def raftLogCompactionVersion : ℕ := 1

/-- `DecodeRaftLogCompactionMarkerError`. -/
inductive DecodeRaftLogCompactionMarkerError where
  | unexpectedEof (needed remaining : ℕ)
  | invalidMagic (magic : List UInt8)
  | unsupportedVersion (version : ℕ)
  | compactedThroughAtMaximum
  | checksumMismatch (expected actual : ℕ)
  | trailingBytes (remaining : ℕ)
deriving DecidableEq

/-- The errors of the envelope. -/
def compactionMarkerErrors : EnvelopeErrors DecodeRaftLogCompactionMarkerError where
  unexpectedEof := .unexpectedEof
  invalidMagic := .invalidMagic
  unsupportedVersion := .unsupportedVersion
  checksumMismatch := .checksumMismatch
  trailingBytes := .trailingBytes

/-- `encode_raft_log_compaction_marker`. -/
def encodeRaftLogCompactionMarker (compactedThrough : ℕ) : List UInt8 :=
  Bytes.checksummed 4 crc32 (raftLogCompactionMagic ++
    (Bytes.toBe 1 raftLogCompactionVersion ++ Bytes.toBe 8 compactedThrough))

/-- `decode_raft_log_compaction_marker`. -/
def decodeRaftLogCompactionMarker (input : List UInt8) :
    Except DecodeRaftLogCompactionMarkerError ℕ :=
  Bytes.openEnvelope compactionMarkerErrors crc32 raftLogCompactionMagic raftLogCompactionVersion
    (advanceableLogIndex compactionMarkerErrors .compactedThroughAtMaximum) input

theorem decodeRaftLogCompactionMarker_eq_ok_iff {input : List UInt8} {compactedThrough : ℕ} :
    decodeRaftLogCompactionMarker input = .ok compactedThrough ↔
      compactedThrough < u64Max ∧ input = encodeRaftLogCompactionMarker compactedThrough := by
  have hcodes : Codes (fun _ => True)
      (advanceableLogIndex compactionMarkerErrors .compactedThroughAtMaximum)
      (writeU64 : ℕ → Bytes.Writer Empty Unit) (· < u64Max) := advanceableLogIndex_codes
  rw [decodeRaftLogCompactionMarker, envelope_eq_ok_iff (by decide) hcodes,
    Bytes.sealEnvelope_eq_ok_iff]
  simp only [writeU64, Bytes.Writer.uint, Bytes.writes_emit, exists_eq_left,
    encodeRaftLogCompactionMarker]

end Rafter.Storage
