import Mathlib.Algebra.Order.Ring.Nat
import Mathlib.Tactic.Ring
import Rafter.Bytes.Codec

/-!
# Big-endian integers and length-prefixed bytes

Results:

* `ofBe_toBe`, `toBe_ofBe`: a number below `256 ^ width` and its `width` bytes determine one
  another;
* `uint_codes`, `sized_codes`, `counted_codes`: the codecs of an integer of fixed width, of a byte
  string and of a list with its length in front.
-/

namespace Bytes

variable {ε δ α : Type}

/-! ## Integers of a fixed width -/

/-- The low `width` bytes of `n`, most significant first. -/
def toBe : ℕ → ℕ → List UInt8
  | 0, _ => []
  | width + 1, n => UInt8.ofNat (n / 256 ^ width) :: toBe width n

/-- The number that bytes spell, most significant first. -/
def ofBe : List UInt8 → ℕ
  | [] => 0
  | byte :: rest => byte.toNat * 256 ^ rest.length + ofBe rest

@[simp] theorem length_toBe (width n : ℕ) : (toBe width n).length = width := by
  induction width with
  | zero => rfl
  | succ width ih => rw [toBe, List.length_cons, ih]

theorem ofBe_lt (bytes : List UInt8) : ofBe bytes < 256 ^ bytes.length := by
  induction bytes with
  | nil => simp [ofBe]
  | cons byte rest ih =>
    have hbyte : byte.toNat + 1 ≤ 256 := byte.toNat_lt
    calc ofBe (byte :: rest) < byte.toNat * 256 ^ rest.length + 256 ^ rest.length := by
          rw [ofBe]; omega
      _ = (byte.toNat + 1) * 256 ^ rest.length := by ring
      _ ≤ 256 * 256 ^ rest.length := Nat.mul_le_mul_right _ hbyte
      _ = 256 ^ (byte :: rest).length := by rw [List.length_cons, pow_succ]; ring

theorem ofBe_toBe_mod (width n : ℕ) : ofBe (toBe width n) = n % 256 ^ width := by
  induction width with
  | zero => simp [toBe, ofBe, Nat.mod_one]
  | succ width ih =>
    have hbyte : (UInt8.ofNat (n / 256 ^ width)).toNat = n / 256 ^ width % 256 := by simp
    rw [toBe, ofBe, length_toBe, ih, hbyte, pow_succ, Nat.mod_mul, mul_comm]
    omega

theorem ofBe_toBe {width n : ℕ} (h : n < 256 ^ width) : ofBe (toBe width n) = n := by
  rw [ofBe_toBe_mod, Nat.mod_eq_of_lt h]

/-- The bytes of a number depend on its residue only. -/
theorem toBe_add_mul (width n k : ℕ) : toBe width (k * 256 ^ width + n) = toBe width n := by
  induction width generalizing k with
  | zero => rfl
  | succ width ih =>
    have hsplit : k * 256 ^ (width + 1) + n = (k * 256) * 256 ^ width + n := by ring
    have hpos : 0 < 256 ^ width := Nat.pow_pos (by omega)
    have hdiv : ((k * 256) * 256 ^ width + n) / 256 ^ width = k * 256 + n / 256 ^ width := by
      rw [add_comm, Nat.add_mul_div_right _ _ hpos, add_comm]
    have hbyte : UInt8.ofNat (k * 256 + n / 256 ^ width) = UInt8.ofNat (n / 256 ^ width) := by
      apply UInt8.toNat_inj.1
      simp only [UInt8.toNat_ofNat']
      omega
    rw [hsplit, toBe, toBe, hdiv, hbyte, ih]

theorem toBe_ofBe (bytes : List UInt8) : toBe bytes.length (ofBe bytes) = bytes := by
  induction bytes with
  | nil => rfl
  | cons byte rest ih =>
    have hpos : 0 < 256 ^ rest.length := Nat.pow_pos (by omega)
    have hdiv : (byte.toNat * 256 ^ rest.length + ofBe rest) / 256 ^ rest.length = byte.toNat := by
      rw [add_comm, Nat.add_mul_div_right _ _ hpos, Nat.div_eq_of_lt (ofBe_lt rest), zero_add]
    rw [List.length_cons, ofBe, toBe, hdiv, toBe_add_mul, ih, UInt8.ofNat_toNat]

/-! ## Their codec -/

/-- Read an unsigned integer of `width` bytes. -/
def Reader.uint (eof : ℕ → ℕ → ε) (width : ℕ) : Reader ε ℕ := do
  let bytes ← Reader.take eof width
  return ofBe bytes

/-- Write the low `width` bytes of a number. -/
def Writer.uint (width n : ℕ) : Writer δ Unit := Writer.emit (toBe width n)

/-- Write a length, or refuse one that its width cannot hold. -/
def Writer.length (tooLarge : ℕ → δ) (width len : ℕ) : Writer δ Unit :=
  if len < 256 ^ width then Writer.uint width len else Writer.refuse (tooLarge len)

section Codecs

variable {eof : ℕ → ℕ → ε} {tooLarge : ℕ → δ} {width : ℕ}

theorem reads_uint {input rest : List UInt8} {n : ℕ} :
    Reads (Reader.uint eof width) input n rest ↔ n < 256 ^ width ∧
    input = toBe width n ++ rest := by
  rw [Reader.uint, reads_bind]
  constructor
  · rintro ⟨bytes, left, htake, hpure⟩
    obtain ⟨rfl, rfl⟩ := reads_pure.1 hpure
    obtain ⟨rfl, rfl⟩ := reads_take.1 htake
    exact ⟨ofBe_lt bytes, by rw [toBe_ofBe]⟩
  · rintro ⟨hlt, rfl⟩
    exact ⟨_, rest, reads_take.2 ⟨length_toBe width n, rfl⟩, reads_pure.2
      ⟨(ofBe_toBe hlt).symm, rfl⟩⟩

theorem uint_codes : Codes (fun _ => True) (Reader.uint eof width)
    (Writer.uint width : ℕ → Writer δ Unit) (fun n => n < 256 ^ width) where
  read_write := by
    intro n bytes _ hlt hwrite rest
    rw [writes_emit.1 hwrite]
    exact reads_uint.2 ⟨hlt, rfl⟩
  write_read := by
    intro input n rest hread
    obtain ⟨hlt, rfl⟩ := reads_uint.1 hread
    exact ⟨trivial, hlt, _, writes_emit.2 rfl, rfl⟩

theorem writes_length {len : ℕ} {bytes : List UInt8} :
    Writes (Writer.length tooLarge width len) bytes ↔ len < 256 ^ width ∧
    bytes = toBe width len := by
  unfold Writer.length
  split_ifs with hlt
  · simp [Writer.uint, hlt]
  · simp [hlt]

theorem length_codes : Codes (fun _ => True) (Reader.uint eof width)
    (Writer.length tooLarge width) (fun _ => True) where
  read_write := by
    intro len bytes _ _ hwrite rest
    obtain ⟨hlt, rfl⟩ := writes_length.1 hwrite
    exact reads_uint.2 ⟨hlt, rfl⟩
  write_read := by
    intro input len rest hread
    obtain ⟨hlt, rfl⟩ := reads_uint.1 hread
    exact ⟨trivial, trivial, toBe width len, writes_length.2 ⟨hlt, rfl⟩, rfl⟩

/-- Bytes whose number is known. -/
theorem take_codes (len : ℕ) : Codes (fun bytes => bytes.length = len) (Reader.take eof len)
    (Writer.emit : List UInt8 → Writer δ Unit) (fun _ => True) where
  read_write := by
    intro bytes out hlen _ hwrite rest
    rw [writes_emit.1 hwrite]
    exact reads_take.2 ⟨hlen, rfl⟩
  write_read := by
    intro input bytes rest hread
    obtain ⟨hlen, rfl⟩ := reads_take.1 hread
    exact ⟨hlen, trivial, bytes, writes_emit.2 rfl, rfl⟩

/-- Read a byte string with its length in front. -/
def Reader.sized (eof : ℕ → ℕ → ε) (width : ℕ) : Reader ε (List UInt8) := do
  let len ← Reader.uint eof width
  Reader.take eof len

/-- Write a byte string with its length in front. -/
def Writer.sized (tooLarge : ℕ → δ) (width : ℕ) (bytes : List UInt8) : Writer δ Unit := do
  Writer.length tooLarge width bytes.length
  Writer.emit bytes

theorem sized_codes : Codes (fun _ => True) (Reader.sized eof width)
    (Writer.sized tooLarge width) (fun _ => True) := by
  refine Codes.freeField List.length length_codes fun len => ?_
  exact (take_codes len).congr fun _ => by simp

/-- Integers one after another take their width each. -/
theorem writes_forM_uint (numbers : List ℕ) : ∃ bytes,
    Writes (numbers.forM (Writer.uint width) : Writer δ Unit) bytes ∧
      bytes.length = width * numbers.length := by
  induction numbers with
  | nil => exact ⟨[], writes_pure.2 rfl, by simp⟩
  | cons n numbers ih =>
    obtain ⟨bytes, hbytes, hlen⟩ := ih
    refine ⟨toBe width n ++ bytes, writes_bind.2 ⟨_, _, writes_emit.2 rfl, hbytes, rfl⟩, ?_⟩
    rw [List.length_append, length_toBe, hlen, List.length_cons]
    ring

/-- A list with its length in front. -/
theorem counted_codes {read : Reader ε α} {write : α → Writer δ Unit} {dom : α → Prop}
    (h : Codes (fun _ => True) read write dom) :
    Codes (fun _ => True) (Reader.uint eof width >>= fun n => Reader.count read n)
      (fun items => Writer.length tooLarge width items.length >>= fun _ => items.forM write)
      (fun items => ∀ a ∈ items, dom a) := by
  refine Codes.freeField List.length length_codes fun n => ?_
  exact (h.count n).congr fun _ => by simp

end Codecs

end Bytes
