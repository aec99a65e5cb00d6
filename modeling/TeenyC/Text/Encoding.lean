/-
  Texts as bytes: each character is encoded by one to four.

  Key definitions include:
    * `Text.byteLength`
    * `Text.encode`
    * `Text.decode?`

  That decoding undoes encoding, and nothing else, is stated by:
    * `Text.decode?_encode`
    * `Text.decode?_eq_some_iff`
-/

namespace TeenyC.Text

------------------------------------------------------------
-- Lengths
------------------------------------------------------------

/- The length of a text in bytes. -/
def byteLength : List Char → Nat
| [] => 0
| ch :: text => ch.utf8Size + byteLength text

@[simp]
theorem byteLength_nil : byteLength [] = 0 := rfl

@[simp]
theorem byteLength_cons
    (ch : Char)
    (text : List Char) :
    byteLength (ch :: text) =
      ch.utf8Size + byteLength text := rfl

@[simp]
theorem byteLength_append
    (first second : List Char) :
    byteLength (first ++ second) =
      byteLength first + byteLength second := by
  induction first with
  | nil => simp
  | cons ch rest ih => simp [ih, Nat.add_assoc]

/- A text with some character has some byte. -/
theorem byteLength_pos
    {text : List Char}
    (hSome : text ≠ []) :
    0 < byteLength text := by
  cases text with
  | nil => exact absurd rfl hSome
  | cons ch rest =>
      have hFirst := Char.utf8Size_pos ch
      simp only [byteLength_cons]
      omega

------------------------------------------------------------
-- Bytes
------------------------------------------------------------

/- The bytes of a text. -/
def encode (text : List Char) : List UInt8 :=
  text.flatMap String.utf8EncodeChar

/- The text that bytes stand for, if they stand for one. -/
def decode? (bytes : List UInt8) : Option String :=
  String.fromUTF8? bytes.toByteArray

/- A text has as many bytes as its length in bytes. -/
theorem length_encode
    (text : List Char) :
    (encode text).length = byteLength text := by
  induction text with
  | nil => rfl
  | cons ch rest ih =>
      unfold encode at ih ⊢
      rw [List.flatMap_cons, List.length_append, ih,
        String.length_utf8EncodeChar]
      rfl

/- Decoding undoes encoding. -/
theorem decode?_encode
    (text : List Char) :
    decode? (encode text) = some (String.ofList text) := by
  have hValid : (encode text).toByteArray.IsValidUTF8 :=
    ⟨text, rfl⟩
  simp only [decode?, String.fromUTF8?, hValid, dif_pos]
  rfl

/- Bytes stand for a text if and only if they are its bytes. -/
theorem decode?_eq_some_iff
    {bytes : List UInt8}
    {text : String} :
    decode? bytes = some text ↔ bytes = encode text.toList := by
  constructor
  · intro hDecode
    unfold decode? String.fromUTF8? at hDecode
    split at hDecode
    · have hBytes : bytes.toByteArray = text.toByteArray := by
        cases hDecode
        rfl
      rw [← String.utf8Encode_toList] at hBytes
      have hData := congrArg ByteArray.data hBytes
      simpa [List.utf8Encode, encode] using hData
    · cases hDecode
  · intro hBytes
    rw [hBytes, decode?_encode, String.ofList_toList]

end TeenyC.Text
