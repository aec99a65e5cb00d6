import Mathlib.Data.List.TakeWhile
import TeenyC.Cursor

/-
  What the text of a token may be, by its kind.

  Key definitions include:
    * `Lexeme.IsNumeral`
    * `Lexeme.IsName`
    * `Lexeme.Fits`
    * `Token.Spelled`

  Key theorems include:
    * `Lexeme.fits_of_read`
    * `Cursor.spelled_of_nextToken`
-/

namespace TeenyC

namespace Lexeme

------------------------------------------------------------
-- Texts by Kind
------------------------------------------------------------

/- Digits, and maybe a point and more digits. -/
def IsNumeral (text : List Char) : Prop :=
  ∃ whole,
    whole ≠ [] ∧ (∀ ch ∈ whole, ch.isDigit = true) ∧
      (text = whole ∨
        ∃ fraction,
          fraction ≠ [] ∧
            (∀ ch ∈ fraction, ch.isDigit = true) ∧
              text = whole ++ '.' :: fraction)

/- A letter, and letters and digits after it. -/
def IsName (text : List Char) : Prop :=
  ∃ first rest,
    text = first :: rest ∧ first.isAlpha = true ∧
      ∀ ch ∈ rest, ch.isAlphanum = true

/- Whether a text fits a kind of token. -/
def Fits (kind : Kind) (text : List Char) : Prop :=
  match kind with
  | .eof => text = []
  | .newline => text = ['\n']
  | .number => IsNumeral text
  | .ident =>
      IsName text ∧
        Keyword.ofSpelling? (String.ofList text) = none
  | .string => ∀ ch ∈ text, isStringText ch = true
  | .keyword word => text = word.spelling.toList
  | .operator sign => text = sign.spelling.toList

/- A letter is no digit: all digits stand before all letters. -/
theorem not_isDigit_of_isAlpha
    {ch : Char}
    (hAlpha : ch.isAlpha = true) :
    ¬ ch.isDigit = true := by
  intro hDigit
  have hLast := (Char.isDigit_iff_toNat.mp hDigit).2
  change ch.toNat ≤ 57 at hLast
  have hFirst : 65 ≤ ch.toNat := by
    rcases Bool.or_eq_true_iff.mp hAlpha with hUpper | hLower
    · exact UInt32.le_iff_toNat_le.mp (of_decide_eq_true hUpper).1
    · have hStart : 97 ≤ ch.toNat :=
        UInt32.le_iff_toNat_le.mp
          (of_decide_eq_true (Bool.and_eq_true_iff.mp hLower).1)
      omega
  omega

------------------------------------------------------------
-- Readings
------------------------------------------------------------

variable {kind : Kind}
variable {text rest : List Char}

/- A string that is read holds what strings may hold. -/
theorem fits_of_readString
    {source : List Char}
    (hRead : readString source = .lexeme kind text rest) :
    Fits kind text := by
  unfold readString at hRead
  split at hRead
  · cases hRead
  · split at hRead
    · cases hRead
      intro ch hMember
      exact List.mem_takeWhile_imp hMember
    · split at hRead <;> cases hRead

/- A number that is read is a numeral. -/
theorem fits_of_readNumber
    {first : Char}
    (hFirst : first.isDigit = true)
    {source : List Char}
    (hRead :
      readNumber (first :: source) = .lexeme kind text rest) :
    Fits kind text := by
  have hSome :
      (first :: source).takeWhile Char.isDigit ≠ [] := by
    simp [List.takeWhile, hFirst]
  unfold readNumber at hRead
  split at hRead
  · dsimp only at hRead
    split at hRead
    · cases hRead
    · next hFraction =>
      cases hRead
      refine
        ⟨_, hSome, fun _ => List.mem_takeWhile_imp,
          .inr ⟨_, ?_, fun _ => List.mem_takeWhile_imp, rfl⟩⟩
      simpa using hFraction
  · cases hRead
    exact
      ⟨_, hSome, fun _ => List.mem_takeWhile_imp, .inl rfl⟩

/- A word that is read is reserved, or else a name. -/
theorem fits_of_readWord
    {first : Char}
    (hFirst : first.isAlpha = true)
    {source : List Char}
    (hRead :
      readWord (first :: source) = .lexeme kind text rest) :
    Fits kind text := by
  unfold readWord at hRead
  cases hRead
  unfold Kind.ofWord
  split
  · next reserved hReserved =>
    have hSpelling := List.find?_some hReserved
    simp only [beq_iff_eq] at hSpelling
    simp only [Fits, hSpelling, String.toList_ofList]
  · next hFree =>
    have hAlphanum : first.isAlphanum = true := by
      simp [Char.isAlphanum, hFirst]
    have hWord :
        (first :: source).takeWhile Char.isAlphanum =
          first :: source.takeWhile Char.isAlphanum := by
      simp [List.takeWhile, hAlphanum]
    refine ⟨⟨first, _, hWord, hFirst, ?_⟩, hFree⟩
    intro ch hMember
    exact List.mem_takeWhile_imp hMember

/- A sign that is read is an operator. -/
theorem fits_of_readSign
    {first : Char}
    {source : List Char}
    (hRead :
      readSign first source = .lexeme kind text rest) :
    Fits kind text := by
  unfold readSign at hRead
  split at hRead
  · cases hRead
    rfl
  · split at hRead <;> cases hRead

/- What is read fits its kind. -/
theorem fits_of_read
    {source : List Char}
    (hRead : read source = .lexeme kind text rest) :
    Fits kind text := by
  unfold read at hRead
  split at hRead
  · cases hRead
  · split at hRead
    · cases hRead
    · split at hRead
      · cases hRead
        rfl
      · split at hRead
        · exact fits_of_readString hRead
        · split at hRead
          · next hDigit => exact fits_of_readNumber hDigit hRead
          · split at hRead
            · next hAlpha => exact fits_of_readWord hAlpha hRead
            · exact fits_of_readSign hRead

end Lexeme

------------------------------------------------------------
-- Tokens
------------------------------------------------------------

/- A token whose text fits its kind. -/
def Token.Spelled (token : Token) : Prop :=
  Lexeme.Fits token.kind token.text.toList

/- Every token that is read has a text that fits its kind. -/
theorem Cursor.spelled_of_nextToken
    {c next : Cursor}
    {token : Token}
    (hNext : c.nextToken = (.ok token, next)) :
    token.Spelled := by
  unfold Cursor.nextToken at hNext
  split at hNext
  · cases hNext
  · dsimp only at hNext
    split at hNext
    · cases hNext
      rfl
    · next hRead =>
      cases hNext
      unfold Token.Spelled
      rw [String.toList_ofList]
      exact Lexeme.fits_of_read hRead
    · cases hNext

end TeenyC
