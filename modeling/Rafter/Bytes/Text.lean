import Mathlib.Data.List.Basic
import Rafter.Bytes.Codec

/-!
# UTF-8 text

Text is written with `String.utf8EncodeChar` and read with `ByteArray.utf8Decode?`, which accepts
well-formed UTF-8 only: no overlong form, no surrogate, nothing above the last code point.

Results:

* `decodeText_eq_some_iff`: bytes decode to a text exactly when they are its encoding;
* `encodeText_ascii`: ASCII text has one byte for each character.
-/

namespace Bytes

variable {text : List Char} {bytes : List UInt8}

/-- The bytes of a text (`str::as_bytes`). -/
def encodeText (text : List Char) : List UInt8 := text.flatMap String.utf8EncodeChar

theorem encodeText_cons (c : Char) (text : List Char) :
    encodeText (c :: text) = String.utf8EncodeChar c ++ encodeText text :=
  List.flatMap_cons

/-- The text that bytes spell, if they are well-formed (`std::str::from_utf8`). -/
def decodeText (bytes : List UInt8) : Option (List Char) :=
  bytes.toByteArray.utf8Decode?.map Array.toList

theorem decodeText_eq_some_iff : decodeText bytes = some text ↔ bytes = encodeText text := by
  rw [decodeText, Option.map_eq_some_iff]
  constructor
  · rintro ⟨chars, hchars, rfl⟩
    have hencode := ByteArray.utf8Encode_get_utf8Decode? (b := bytes.toByteArray)
      (h := by rw [hchars]; rfl)
    simp only [hchars, Option.get_some] at hencode
    have hdata := congrArg ByteArray.data hencode
    rw [List.utf8Encode, List.data_toByteArray, List.data_toByteArray] at hdata
    exact (List.toArray_inj hdata).symm
  · rintro rfl
    exact ⟨text.toArray, List.utf8Decode?_utf8Encode, rfl⟩

/-! ## ASCII text -/

theorem encodeText_ascii (h : ∀ c ∈ text, c.toNat < 0x80) :
    encodeText text = text.map fun c => UInt8.ofNat c.toNat := by
  induction text with
  | nil => rfl
  | cons c text ih =>
    have hle : c.val.toNat ≤ 127 := Nat.le_of_lt_succ (h c List.mem_cons_self)
    have hrest := ih fun d hd => h d (List.mem_cons_of_mem c hd)
    rw [encodeText_cons, hrest, String.utf8EncodeChar, if_pos hle]
    rfl

end Bytes
