import Mathlib.Data.Nat.Bitwise
import Rafter.Types.Snapshot

/-!
# The checksum is CRC-32

`crates/rafter-crc32/src/checksum.rs`. The tables of `crc32` fold eight bytes at a time; the
reference feeds a register one message bit at a time, least significant bit of each byte first, with
the reflected IEEE polynomial. Shifting the register is linear in exclusive or, so a byte is eight
shifts of the register with the byte added to it, and table `slice` holds the bytes shifted by
`8 * (slice + 1)` places.

Results:

* `crc32_is_the_bitwise_crc`: the checksum is the reference, however its input is cut into pieces.
-/

namespace Rafter

/-! ## The incremental hasher and the reference -/

/-- `RunningCrc32`. -/
structure RunningCrc32 where
  state : ℕ
deriving DecidableEq

namespace RunningCrc32

/-- `RunningCrc32::new`. -/
def new : RunningCrc32 := ⟨0xFFFFFFFF⟩

/-- `RunningCrc32::update`. -/
def update (crc : RunningCrc32) (bytes : List UInt8) : RunningCrc32 := ⟨crcBlocks crc.state bytes⟩

/-- `RunningCrc32::value`. -/
def value (crc : RunningCrc32) : ℕ := crc.state.xor 0xFFFFFFFF

end RunningCrc32

/-- One message bit: the register moves down one place, and the polynomial is added when the bit
that leaves it differs from the message bit. -/
def crcFeed (register : ℕ) (bit : Bool) : ℕ :=
  if register.testBit 0 != bit then (register / 2) ^^^ 0xEDB88320 else register / 2

/-- The bits of a byte, least significant first. -/
def byteBits (byte : UInt8) : List Bool := (List.range 8).map byte.toNat.testBit

/-- CRC-32 of IEEE 802.3, bit by bit. -/
def crc32Bitwise (bytes : List UInt8) : ℕ :=
  (bytes.flatMap byteBits).foldl crcFeed 0xFFFFFFFF ^^^ 0xFFFFFFFF

/-! ## Shifting is linear -/

theorem crcBit_xor (x y : ℕ) : crcBit (x ^^^ y) = crcBit x ^^^ crcBit y := by
  have hbit : ∀ z, crcBit z = (z / 2) ^^^ (if z % 2 = 1 then 0xEDB88320 else 0) := by
    intro z
    unfold crcBit
    split_ifs
    · rfl
    · rw [Nat.xor_zero]
  rw [hbit, hbit x, hbit y, Nat.xor_div_two]
  by_cases hx : x % 2 = 1 <;> by_cases hy : y % 2 = 1 <;>
    simp only [Nat.xor_mod_two_eq_one, hx, hy, iff_self, not_true, if_true, if_false, iff_true,
      iff_false, not_false_eq_true, Nat.xor_zero]
  · rw [Nat.xor_assoc (x / 2), Nat.xor_left_comm _ (y / 2), Nat.xor_self, Nat.xor_zero]
  · rw [Nat.xor_assoc, Nat.xor_assoc, Nat.xor_comm (y / 2)]
  · rw [Nat.xor_assoc]

theorem crcBit_iterate_xor (n x y : ℕ) :
    crcBit^[n] (x ^^^ y) = crcBit^[n] x ^^^ crcBit^[n] y := by
  induction n generalizing x y with
  | zero => rfl
  | succ n ih =>
    simp only [Function.iterate_succ_apply]
    rw [crcBit_xor]
    exact ih _ _

/-- Shifting a multiple of `2 ^ n` by `n` places meets no bit of the polynomial. -/
theorem crcBit_iterate_mul (n x : ℕ) : crcBit^[n] (2 ^ n * x) = x := by
  induction n generalizing x with
  | zero => simp
  | succ n ih =>
    have hstep : crcBit (2 ^ (n + 1) * x) = 2 ^ n * x := by
      have heven : 2 ^ (n + 1) * x = 2 * (2 ^ n * x) := by
        rw [pow_succ, Nat.mul_comm (2 ^ n), Nat.mul_assoc]
      unfold crcBit
      rw [heven, if_neg (by omega)]
      omega
    rw [Function.iterate_succ_apply, hstep]
    exact ih x

theorem mul_div_xor_mod (n x : ℕ) : 2 ^ n * (x / 2 ^ n) ^^^ x % 2 ^ n = x := by
  have hpos : 0 < 2 ^ n := Nat.two_pow_pos n
  have hhigh : (2 ^ n * (x / 2 ^ n) ^^^ x % 2 ^ n) / 2 ^ n = x / 2 ^ n := by
    rw [Nat.xor_div_two_pow, Nat.mul_div_cancel_left _ hpos, Nat.div_eq_of_lt (Nat.mod_lt x hpos),
      Nat.xor_zero]
  have hlow : (2 ^ n * (x / 2 ^ n) ^^^ x % 2 ^ n) % 2 ^ n = x % 2 ^ n := by
    rw [Nat.xor_mod_two_pow, Nat.mul_mod_right, Nat.zero_xor, Nat.mod_mod]
  rw [← Nat.div_add_mod (2 ^ n * (x / 2 ^ n) ^^^ x % 2 ^ n) (2 ^ n), hhigh, hlow, Nat.div_add_mod]

theorem crcBit_iterate_eq (n x : ℕ) : crcBit^[n] x = x / 2 ^ n ^^^ crcBit^[n] (x % 2 ^ n) := by
  conv_lhs => rw [← mul_div_xor_mod n x]
  rw [crcBit_iterate_xor, crcBit_iterate_mul]

/-- The low byte passes through eight places more than the rest. -/
theorem crcBit_iterate_split (n x : ℕ) :
    crcBit^[n + 8] x = crcBit^[n + 8] (x % 256) ^^^ crcBit^[n] (x / 256) := by
  rw [Function.iterate_add_apply, crcBit_iterate_eq 8, crcBit_iterate_xor, Nat.xor_comm,
    ← Function.iterate_add_apply]
  simp only [Nat.reducePow]

/-! ## Bytes -/

/-- The reference's bits of a number below `2 ^ n`, all at once. -/
theorem foldl_crcFeed {n x : ℕ} (hx : x < 2 ^ n) (register : ℕ) :
    ((List.range n).map x.testBit).foldl crcFeed register = crcBit^[n] (register ^^^ x) := by
  induction n generalizing x register with
  | zero =>
    obtain rfl : x = 0 := by omega
    simp
  | succ n ih =>
    have hfeed : crcFeed register (x.testBit 0) ^^^ x / 2 = crcBit (register ^^^ x) := by
      unfold crcFeed crcBit
      rw [Nat.xor_div_two, Nat.testBit_zero, Nat.testBit_zero]
      by_cases hr : register % 2 = 1 <;> by_cases hb : x % 2 = 1 <;>
        simp only [Nat.xor_mod_two_eq_one, hr, hb] <;> simp
      · exact Nat.xor_right_comm _ _ _
      · exact Nat.xor_right_comm _ _ _
    have htail : (List.range n).map (x.testBit ∘ Nat.succ) = (List.range n).map
      (x / 2).testBit := by
      refine List.map_congr_left fun i _ => ?_
      exact Nat.testBit_succ x i
    rw [List.range_succ_eq_map, List.map_cons, List.map_map, htail, List.foldl_cons,
      ih (by omega), hfeed, Function.iterate_succ_apply]

/-- One byte in the byte-wise loop. -/
def crcByte (state : ℕ) (byte : UInt8) : ℕ := crcBit^[8] (state ^^^ byte.toNat)

theorem crcTable_eq (slice byte : ℕ) : crcTable slice byte = crcBit^[8 * (slice + 1)] byte := by
  induction slice with
  | zero => rfl
  | succ slice ih =>
    have hstep : crcTable (slice + 1) byte = crcBit^[8] (crcTable slice byte) :=
      (crcBit_iterate_eq 8 _).symm
    rw [hstep, ih, ← Function.iterate_add_apply]
    congr 1
    omega

/-- The remainder loop's body. -/
theorem crcTail_eq (state : ℕ) (byte : UInt8) :
    (state / 256).xor (crcTable 0 ((state.xor byte.toNat) % 256)) = crcByte state byte := by
  have hbyte : byte.toNat / 2 ^ 8 = 0 := Nat.div_eq_of_lt byte.toNat_lt
  have hhigh : (state ^^^ byte.toNat) / 2 ^ 8 = state / 256 := by
    rw [Nat.xor_div_two_pow, hbyte, Nat.xor_zero]
  unfold crcByte
  rw [crcBit_iterate_eq 8, hhigh]
  rfl

/-- Four bytes of a word, each shifted through the places of those before it. -/
theorem crcBit_word (n x : ℕ) :
    crcBit^[n + 32] x = crcBit^[n + 32] (x % 256) ^^^ (crcBit^[n + 24] (x / 256 % 256) ^^^
      (crcBit^[n + 16] (x / 65536 % 256) ^^^ crcBit^[n + 8] (x / 16777216))) := by
  rw [crcBit_iterate_split (n + 24), crcBit_iterate_split (n + 16) (x / 256),
    crcBit_iterate_split (n + 8) (x / 256 / 256)]
  simp only [Nat.div_div_eq_div_mul]

theorem crcBlock_eq {state word : ℕ} {a b c d : UInt8} (e f g h : UInt8)
    (hword : word = state ^^^ (a.toNat + 256 * b.toNat + 65536 * c.toNat + 16777216 * d.toNat)) :
    (crcTable 7 (word % 256)).xor ((crcTable 6 (word / 256 % 256)).xor
      ((crcTable 5 (word / 65536 % 256)).xor ((crcTable 4 (word / 16777216)).xor
        ((crcTable 3 e.toNat).xor ((crcTable 2 f.toNat).xor
          ((crcTable 1 g.toNat).xor (crcTable 0 h.toNat))))))) =
      [a, b, c, d, e, f, g, h].foldl crcByte state := by
  have ha := a.toNat_lt
  have hb := b.toNat_lt
  have hc := c.toNat_lt
  obtain ⟨le, hle⟩ : ∃ le, le = a.toNat + 256 * b.toNat + 65536 * c.toNat + 16777216 * d.toNat :=
    ⟨_, rfl⟩
  have h0 : le % 256 = a.toNat := by omega
  have h1 : le / 256 % 256 = b.toNat := by omega
  have h2 : le / 65536 % 256 = c.toNat := by omega
  have h3 : le / 16777216 = d.toNat := by omega
  -- The first four bytes shifted through all eight, once from the word and once from the fold.
  have hbytes := crcBit_word 32 le
  rw [h0, h1, h2, h3] at hbytes
  rw [← hle] at hword
  have hfour := crcBit_word 32 word
  nth_rewrite 1 [hword] at hfour
  rw [crcBit_iterate_xor (32 + 32), hbytes] at hfour
  have hxor : ∀ m n : ℕ, m.xor n = m ^^^ n := fun _ _ => rfl
  simp only [hxor, crcTable_eq, List.foldl_cons, List.foldl_nil, crcByte, crcBit_iterate_xor,
    ← Function.iterate_add_apply]
  simp only [← Nat.xor_assoc, Nat.reduceAdd, Nat.reduceMul] at hfour ⊢
  rw [hfour]

/-- The eight-byte blocks and the remainder are the byte-wise fold. -/
theorem crcBlocks_eq (state : ℕ) (bytes : List UInt8) :
    crcBlocks state bytes = bytes.foldl crcByte state := by
  induction state, bytes using crcBlocks.induct with
  | case1 state a b c d e f g h rest word ih =>
    have hword : word =
        state ^^^ (a.toNat + 256 * b.toNat + 65536 * c.toNat + 16777216 * d.toNat) := rfl
    rw [crcBlocks, ih, crcBlock_eq e f g h hword, ← List.foldl_append]
    rfl
  | case2 state tail hshort =>
    rw [crcBlocks]
    · refine List.foldl_ext _ _ _ fun state byte _ => ?_
      exact crcTail_eq state byte
    · exact hshort

/-! ## The range of a checksum -/

theorem crcBit_lt {crc : ℕ} (h : crc < 2 ^ 32) : crcBit crc < 2 ^ 32 := by
  have hhalf : crc / 2 < 2 ^ 32 := by omega
  unfold crcBit
  split_ifs
  · exact Nat.xor_lt_two_pow hhalf (by omega)
  · exact hhalf

theorem crcBit_iterate_lt {crc : ℕ} (n : ℕ) (h : crc < 2 ^ 32) : crcBit^[n] crc < 2 ^ 32 := by
  induction n generalizing crc with
  | zero => exact h
  | succ n ih => exact ih (crcBit_lt h)

theorem foldl_crcByte_lt {state : ℕ} (bytes : List UInt8) (h : state < 2 ^ 32) :
    bytes.foldl crcByte state < 2 ^ 32 := by
  induction bytes generalizing state with
  | nil => exact h
  | cons byte bytes ih =>
    have hbyte := byte.toNat_lt
    exact ih (crcBit_iterate_lt 8 (Nat.xor_lt_two_pow h (by omega)))

theorem crc32_lt (bytes : List UInt8) : crc32 bytes < 2 ^ 32 := by
  have hstart : 0xFFFFFFFF < 2 ^ 32 := by omega
  unfold crc32
  rw [crcBlocks_eq]
  exact Nat.xor_lt_two_pow (foldl_crcByte_lt bytes hstart) hstart

/-! ## The checksum -/

theorem foldl_crcFeed_bytes (bytes : List UInt8) (register : ℕ) :
    (bytes.flatMap byteBits).foldl crcFeed register = bytes.foldl crcByte register := by
  induction bytes generalizing register with
  | nil => rfl
  | cons byte bytes ih =>
    have hbyte : (byteBits byte).foldl crcFeed register = crcByte register byte :=
      foldl_crcFeed byte.toNat_lt register
    rw [List.flatMap_cons, List.foldl_append, hbyte, List.foldl_cons]
    exact ih _

theorem RunningCrc32.foldl_update (crc : RunningCrc32) (pieces : List (List UInt8)) :
    (pieces.foldl update crc).state = pieces.flatten.foldl crcByte crc.state := by
  induction pieces generalizing crc with
  | nil => rfl
  | cons piece pieces ih =>
    rw [List.foldl_cons, ih, List.flatten_cons, List.foldl_append]
    congr 1
    exact crcBlocks_eq crc.state piece

/-- Every byte string has the checksum of the bit-by-bit reference, and so has every way of feeding
it to the incremental hasher in pieces. -/
theorem crc32_is_the_bitwise_crc :
    (∀ bytes, crc32 bytes = crc32Bitwise bytes) ∧
      ∀ pieces : List (List UInt8),
        (pieces.foldl RunningCrc32.update RunningCrc32.new).value = crc32 pieces.flatten := by
  constructor
  · intro bytes
    unfold crc32 crc32Bitwise
    rw [crcBlocks_eq, foldl_crcFeed_bytes]
    rfl
  · intro pieces
    unfold RunningCrc32.value crc32
    rw [RunningCrc32.foldl_update, crcBlocks_eq]
    rfl

/-- The check value of the reference definition. -/
example : crc32Bitwise [0x31, 0x32, 0x33, 0x34, 0x35, 0x36, 0x37, 0x38, 0x39] = 0xCBF43926 := by
  decide +kernel

end Rafter
