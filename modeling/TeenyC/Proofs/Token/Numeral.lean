import Mathlib.Algebra.Order.Field.Rat
import Mathlib.Data.List.Induction
import Mathlib.Tactic.NormNum
import TeenyC.Proofs.Token.Spelled

/-
  The values of numerals.

  A numeral is read in decimal. Without a point it is a number
  of digits, which could also be read in another base: in octal
  it comes to the same only below eight.

  Key definitions include:
    * `Numeral.decimal`
    * `Numeral.StartsOctal`

  Key theorems include:
    * `Numeral.decimal_of_whole`
    * `Numeral.octal_eq_iff`
    * `Numeral.eight_le`
-/

namespace TeenyC

namespace Numeral

open Nat (ofDigitChars)

------------------------------------------------------------
-- Definitions
------------------------------------------------------------

/-
  The decimal value of a numeral: that of its digits, moved by
  as many places as stand after the point.
-/
def decimal (text : List Char) : ℚ :=
  (ofDigitChars 10 (text.filter Char.isDigit) 0 : ℚ) /
    10 ^ ((text.dropWhile (· != '.')).length - 1)

/- Several digits, the first of them a zero. -/
def StartsOctal (text : List Char) : Prop :=
  '.' ∉ text ∧ 2 ≤ text.length ∧ text.head? = some '0'

instance decidableStartsOctal (text : List Char) :
    Decidable (StartsOctal text) :=
  inferInstanceAs (Decidable (_ ∧ _ ∧ _))

/- The digits of octal numbers. -/
def isOctalDigit (ch : Char) : Bool :=
  ch.isDigit && ch.toNat < '8'.toNat

------------------------------------------------------------
-- Numerals with and without a Point
------------------------------------------------------------

variable {text : List Char}

/- A point is no digit. -/
theorem point_notMem
    (hDigits : ∀ ch ∈ text, ch.isDigit = true) :
    '.' ∉ text := by
  intro hPoint
  have hDigit := hDigits '.' hPoint
  contradiction

/- A numeral without a point is all digits. -/
theorem digits_of_whole
    (hNumeral : Lexeme.IsNumeral text)
    (hWhole : '.' ∉ text) :
    ∀ ch ∈ text, ch.isDigit = true := by
  rcases hNumeral with
    ⟨whole, _, hDigits, hText | ⟨fraction, _, _, hText⟩⟩
  · rw [hText]
    exact hDigits
  · rw [hText] at hWhole
    simp at hWhole

/- A numeral with a point has digits on both sides of it. -/
theorem exists_of_point
    (hNumeral : Lexeme.IsNumeral text)
    (hPoint : '.' ∈ text) :
    ∃ whole fraction,
      text = whole ++ '.' :: fraction ∧ whole ≠ [] ∧
        (∀ ch ∈ whole, ch.isDigit = true) ∧
          ∀ ch ∈ fraction, ch.isDigit = true := by
  rcases hNumeral with
    ⟨whole, hSome, hWhole, hText | ⟨fraction, _, hDigits, hText⟩⟩
  · rw [hText] at hPoint
    exact absurd hPoint (point_notMem hWhole)
  · exact ⟨whole, fraction, hText, hSome, hWhole, hDigits⟩

/- Digits without a point are worth what they are in decimal. -/
theorem decimal_of_whole
    (hDigits : ∀ ch ∈ text, ch.isDigit = true) :
    decimal text = ofDigitChars 10 text 0 := by
  have hNone : text.dropWhile (· != '.') = [] := by
    rw [List.dropWhile_eq_nil_iff]
    intro ch hMember
    have hDigit := hDigits ch hMember
    rw [bne_iff_ne]
    intro hSame
    subst hSame
    contradiction
  unfold decimal
  rw [List.filter_eq_self.mpr hDigits, hNone]
  simp

------------------------------------------------------------
-- Octal Readings
------------------------------------------------------------

/- The value of digits grows by one digit at a time. -/
theorem ofDigitChars_snoc
    (base : Nat)
    (text : List Char)
    (ch : Char) :
    ofDigitChars base (text ++ [ch]) 0 =
      base * ofDigitChars base text 0 +
        (ch.toNat - '0'.toNat) := by
  rw [Nat.ofDigitChars_append, Nat.ofDigitChars_cons,
    Nat.ofDigitChars_nil]

/- Digits are worth no more in octal than in decimal. -/
theorem octal_le (text : List Char) :
    ofDigitChars 8 text 0 ≤ ofDigitChars 10 text 0 := by
  induction text using List.reverseRecOn with
  | nil => simp
  | append_singleton text ch ih =>
      rw [ofDigitChars_snoc, ofDigitChars_snoc]
      omega

/- Octal digits are worth the same in octal only below eight. -/
theorem octal_eq_iff
    (hDigits : ∀ ch ∈ text, isOctalDigit ch = true) :
    ofDigitChars 8 text 0 = ofDigitChars 10 text 0 ↔
      ofDigitChars 10 text 0 < 8 := by
  rcases List.eq_nil_or_concat text with
    hNil | ⟨before, ch, hText⟩
  · subst hNil
    simp
  · rw [List.concat_eq_append] at hText
    subst hText
    have hLe := octal_le before
    have hCh := hDigits ch (by simp)
    have hSmall : ch.toNat < '8'.toNat := by
      simp only [isOctalDigit, Bool.and_eq_true,
        decide_eq_true_eq] at hCh
      exact hCh.2
    have hEight : '8'.toNat = '0'.toNat + 8 := rfl
    rw [ofDigitChars_snoc, ofDigitChars_snoc]
    omega

/- Digits that are not all octal are worth eight or more. -/
theorem eight_le
    {ch : Char}
    (hMember : ch ∈ text)
    (hDigit : ch.isDigit = true)
    (hOctal : isOctalDigit ch = false) :
    8 ≤ ofDigitChars 10 text 0 := by
  induction text using List.reverseRecOn with
  | nil => cases hMember
  | append_singleton text last ih =>
      rw [ofDigitChars_snoc]
      rcases List.mem_append.mp hMember with hBefore | hLast
      · have hMore := ih hBefore
        omega
      · have hSame := List.mem_singleton.mp hLast
        subst hSame
        have hLarge : '8'.toNat ≤ ch.toNat := by
          simpa [isOctalDigit, hDigit] using hOctal
        have hEight : '8'.toNat = '0'.toNat + 8 := rfl
        omega

end Numeral

end TeenyC
