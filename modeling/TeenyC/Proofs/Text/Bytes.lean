import Mathlib.Data.List.Basic
import TeenyC.Text.Encoding

/-
  The bytes of a text, by their places.

  A place between two characters is one that a text can be cut at.
  A byte below 128 is a character of its own, so the line breaks
  of a text are found among its bytes, and a byte stands on the
  line that follows the line breaks before it.

  Key definitions include:
    * `Text.byteAt`
    * `Text.lineAt`

  Key theorems include:
    * `Text.eq_of_mem_utf8EncodeChar`
    * `Text.count_encode`
    * `Text.isValid_iff_exists_append`
    * `Text.lineAt_append`
-/

namespace TeenyC.Text

------------------------------------------------------------
-- Bytes of Characters
------------------------------------------------------------

/- The bytes of a character of several are all from 128 on. -/
theorem le_of_mem_utf8EncodeChar
    {ch : Char}
    {byte : UInt8}
    (hWide : ¬ ch.toNat ≤ 127)
    (hMember : byte ∈ String.utf8EncodeChar ch) :
    128 ≤ byte.toNat := by
  unfold String.utf8EncodeChar at hMember
  change byte ∈ (if ch.toNat ≤ 127 then _ else _) at hMember
  rw [if_neg hWide] at hMember
  split at hMember
  · simp only [List.mem_cons, List.not_mem_nil, or_false]
      at hMember
    rcases hMember with rfl | rfl <;>
      · rw [UInt8.toNat_ofNat']
        omega
  · split at hMember
    · simp only [List.mem_cons, List.not_mem_nil, or_false]
        at hMember
      rcases hMember with rfl | rfl | rfl <;>
        · rw [UInt8.toNat_ofNat']
          omega
    · simp only [List.mem_cons, List.not_mem_nil, or_false]
        at hMember
      rcases hMember with rfl | rfl | rfl | rfl <;>
        · rw [UInt8.toNat_ofNat']
          omega

/- A character below 128 has its number as a byte. -/
theorem toNat_toUInt8_of_le
    {ch : Char}
    (hNarrow : ch.toNat ≤ 127) :
    ch.toUInt8.toNat = ch.toNat := by
  rw [Char.toUInt8, UInt32.toNat_toUInt8]
  apply Nat.mod_eq_of_lt
  change ch.toNat < 256
  omega

/- Characters below 128 are told apart by their bytes. -/
theorem toUInt8_inj_of_le
    {ch mark : Char}
    (hNarrow : ch.toNat ≤ 127)
    (hMark : mark.toNat ≤ 127) :
    ch.toUInt8 = mark.toUInt8 ↔ ch = mark := by
  constructor
  · intro hSame
    have hByte := toNat_toUInt8_of_le hNarrow
    rw [hSame, toNat_toUInt8_of_le hMark] at hByte
    exact Char.toNat_inj.mp hByte.symm
  · rintro rfl
    rfl

/- A character below 128 is its own byte. -/
theorem utf8EncodeChar_of_le
    {ch : Char}
    (hNarrow : ch.toNat ≤ 127) :
    String.utf8EncodeChar ch = [ch.toUInt8] :=
  if_pos hNarrow

/- The byte of a character of one is met in no other character. -/
theorem eq_of_mem_utf8EncodeChar
    {mark ch : Char}
    (hMark : mark.toNat ≤ 127)
    (hMember : mark.toUInt8 ∈ String.utf8EncodeChar ch) :
    ch = mark := by
  by_cases hNarrow : ch.toNat ≤ 127
  · rw [utf8EncodeChar_of_le hNarrow, List.mem_singleton]
      at hMember
    exact (toUInt8_inj_of_le hNarrow hMark).mp hMember.symm
  · have hLarge := le_of_mem_utf8EncodeChar hNarrow hMember
    rw [toNat_toUInt8_of_le hMark] at hLarge
    omega

------------------------------------------------------------
-- Bytes of Texts
------------------------------------------------------------

variable {before ahead : List Char}

/- The bytes of a longer text. -/
theorem encode_append (first more : List Char) :
    encode (first ++ more) = encode first ++ encode more :=
  List.flatMap_append

/- The bytes of a character, and those of the text behind it. -/
theorem encode_cons
    (ch : Char)
    (text : List Char) :
    encode (ch :: text) = String.utf8EncodeChar ch ++ encode text :=
  List.flatMap_cons

/- The bytes before a cut are those of the text before it. -/
theorem take_encode_append :
    (encode (before ++ ahead)).take (byteLength before) =
      encode before := by
  rw [encode_append]
  exact List.take_left' (length_encode before)

/- The bytes behind a cut are those of the text behind it. -/
theorem drop_encode_append :
    (encode (before ++ ahead)).drop (byteLength before) =
      encode ahead := by
  rw [encode_append]
  exact List.drop_left' (length_encode before)

/- A mark of one byte is as frequent as its byte. -/
theorem count_encode
    {mark : Char}
    (hMark : mark.toNat ≤ 127)
    (text : List Char) :
    (encode text).count mark.toUInt8 = text.count mark := by
  induction text with
  | nil => rfl
  | cons ch text ih =>
      rw [encode_cons, List.count_append, ih, List.count_cons]
      by_cases hHere : ch = mark
      · rw [hHere, utf8EncodeChar_of_le hMark,
          List.count_singleton_self, beq_self_eq_true, if_pos rfl,
          Nat.add_comm]
      · have hNone :
            mark.toUInt8 ∉ String.utf8EncodeChar ch := fun hMember =>
          hHere (eq_of_mem_utf8EncodeChar hMark hMember)
        rw [List.count_eq_zero.mpr hNone, beq_false_of_ne hHere]
        simp

/- An array of the bytes of a text is as long as the text. -/
theorem size_utf8Encode (text : List Char) :
    text.utf8Encode.size = byteLength text := by
  rw [← length_encode]
  simp [encode, List.utf8Encode]

/- A text is as long as the string it makes. -/
theorem byteLength_toList (text : String) :
    byteLength text.toList = text.utf8ByteSize := by
  rw [← size_utf8Encode, String.utf8Encode_toList,
    String.size_toByteArray]

/- A text can be cut at its valid places, and nowhere else. -/
theorem isValid_iff_exists_append
    {text : String}
    {place : Nat} :
    (⟨place⟩ : String.Pos.Raw).IsValid text ↔
      ∃ before ahead,
        before ++ ahead = text.toList ∧
          byteLength before = place := by
  rw [String.Pos.Raw.isValid_iff_exists_append]
  constructor
  · rintro ⟨before, ahead, hWhole, hPlace⟩
    refine ⟨before.toList, ahead.toList, ?_, ?_⟩
    · rw [hWhole, String.toList_append]
    · rw [byteLength_toList]
      exact (congrArg String.Pos.Raw.byteIdx hPlace).symm
  · rintro ⟨before, ahead, hWhole, hPlace⟩
    refine ⟨String.ofList before, String.ofList ahead, ?_, ?_⟩
    · rw [← String.ofList_append, hWhole, String.ofList_toList]
    · rw [← hPlace, ← String.toList_ofList (l := before),
        byteLength_toList, String.toList_ofList]
      rfl

------------------------------------------------------------
-- Bytes and Lines by their Places
------------------------------------------------------------

/- The byte at a place, or zero past the end. -/
def byteAt
    (text : List Char)
    (place : Nat) : UInt8 :=
  (encode text).getD place 0

/- The line of a byte, counted from one. -/
def lineAt
    (text : List Char)
    (place : Nat) : Nat :=
  1 + ((encode text).take place).count '\n'.toUInt8

/- A line is counted by its line breaks. -/
theorem lineAt_append :
    lineAt (before ++ ahead) (byteLength before) =
      1 + before.count '\n' := by
  rw [lineAt, take_encode_append, count_encode (by decide)]

end TeenyC.Text
