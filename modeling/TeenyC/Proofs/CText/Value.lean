import TeenyC.Proofs.CText.Formula
import TeenyC.Proofs.Tree.Value

/-
  The values of formulas in C.

  A constant without a point is an int, and is octal if it has
  several digits and starts with a zero. Two ints are divided
  toward zero. An int that meets a real number becomes one. All
  variables are real numbers. Neither overflow nor rounding is
  part of this account: ints are all integers, and real numbers
  are all rational numbers.

  A formula keeps its value if C gives it the number that exact
  arithmetic gives. A faithful formula has no octal constant of
  eight or more, and no quotient of ints that is not whole.

  Key definitions include:
    * `CText.Value`
    * `CText.constant`
    * `CText.Formula.value?`
    * `CText.Formula.Keeps`
    * `CText.Formula.Faithful`
    * `CText.value?`

  Key theorems include:
    * `CText.constant_keeps_iff`
    * `CText.Formula.keeps_iff`
-/

namespace TeenyC

namespace CText

open Nat (ofDigitChars)

------------------------------------------------------------
-- Values
------------------------------------------------------------

/- An int or a real number. -/
inductive Value where
| int (value : ℤ)
| real (value : ℚ)
deriving DecidableEq

namespace Value

/- The number that a value is. -/
def number : Value → ℚ
| .int value => value
| .real value => value

/- Whether a value is an int. -/
def IsInt : Value → Prop
| .int _ => True
| .real _ => False

/- An operation on two ints, or on real numbers otherwise. -/
def arithmetic
    (whole : ℤ → ℤ → ℤ)
    (exact : ℚ → ℚ → ℚ) : Value → Value → Value
| .int left, .int right => .int (whole left right)
| left, right => .real (exact left.number right.number)

/- The outcome of a comparison, as an int. -/
def truth (holds : Bool) : Value :=
  .int (if holds then 1 else 0)

/- The value with a sign before it. -/
def signed (sign : Operator) : Value → Value
| .int value => .int (if sign = .minus then -value else value)
| .real value => .real (sign.signed value)

/- The value of an operation. A division by zero has none. -/
def operate?
    (sign : Operator)
    (left right : Value) : Option Value :=
  match sign with
  | .plus => some (arithmetic (· + ·) (· + ·) left right)
  | .minus => some (arithmetic (· - ·) (· - ·) left right)
  | .times => some (arithmetic (· * ·) (· * ·) left right)
  | .divide =>
      if right.number = 0 then none
      else some (arithmetic Int.tdiv (· / ·) left right)
  | .equal => some (truth (left.number == right.number))
  | .notEqual => some (truth (left.number != right.number))
  | .less => some (truth (left.number < right.number))
  | .lessEqual => some (truth (left.number ≤ right.number))
  | .greater => some (truth (right.number < left.number))
  | .greaterEqual => some (truth (right.number ≤ left.number))
  | .assign => none

end Value

------------------------------------------------------------
-- Constants
------------------------------------------------------------

/- Digits with one point among them, before them or after. -/
def isFraction (text : List Char) : Bool :=
  text.count '.' == 1 && 1 < text.length &&
    text.all fun ch => ch.isDigit || ch == '.'

/- The value of a constant, if the number is one. -/
def constant (text : List Char) : Option Value :=
  if text.all Char.isDigit then
    if Numeral.StartsOctal text then
      if text.all Numeral.isOctalDigit then
        some (.int (ofDigitChars 8 text 0))
      else none
    else some (.int (ofDigitChars 10 text 0))
  else if isFraction text then
    some (.real (Numeral.decimal text))
  else none

variable {text : List Char}

/- A numeral with a point is a real number, as in decimal. -/
theorem constant_of_point
    (hNumeral : Lexeme.IsNumeral text)
    (hPoint : '.' ∈ text) :
    constant text = some (.real (Numeral.decimal text)) := by
  have hWhole : ¬ text.all Char.isDigit = true := by
    rw [List.all_eq_true]
    intro hDigits
    exact Numeral.point_notMem hDigits hPoint
  have hFraction : isFraction text = true := by
    rcases Numeral.exists_of_point hNumeral hPoint with
      ⟨whole, fraction, hText, hSome, hLeft, hRight⟩
    have hCount : text.count '.' = 1 := by
      rw [hText, List.count_append, List.count_cons_self,
        List.count_eq_zero.mpr (Numeral.point_notMem hLeft),
        List.count_eq_zero.mpr (Numeral.point_notMem hRight)]
    have hLength : 1 < text.length := by
      have hPositive := List.length_pos_iff.mpr hSome
      rw [hText, List.length_append, List.length_cons]
      omega
    have hAll :
        ∀ ch ∈ text, (ch.isDigit || ch == '.') = true := by
      intro ch hCh
      rw [hText, List.mem_append, List.mem_cons] at hCh
      rcases hCh with hCh | hCh | hCh
      · simp [hLeft ch hCh]
      · simp [hCh]
      · simp [hRight ch hCh]
    simp [isFraction, hCount, hLength, List.all_eq_true.mpr hAll]
  rw [constant, if_neg hWhole, if_pos hFraction]

/- A numeral without a point is an int, if it is a constant. -/
theorem constant_of_whole
    (hDigits : ∀ ch ∈ text, ch.isDigit = true) :
    constant text =
      if Numeral.StartsOctal text then
        if text.all Numeral.isOctalDigit then
          some (.int (ofDigitChars 8 text 0))
        else none
      else some (.int (ofDigitChars 10 text 0)) := by
  rw [constant, if_pos (List.all_eq_true.mpr hDigits)]

/- A constant is an int if its numeral has no point. -/
theorem constant_isInt_iff
    {value : Value}
    (hNumeral : Lexeme.IsNumeral text)
    (hValue : constant text = some value) :
    value.IsInt ↔ '.' ∉ text := by
  by_cases hPoint : '.' ∈ text
  · rw [constant_of_point hNumeral hPoint] at hValue
    cases hValue
    simp [Value.IsInt, hPoint]
  · rw [constant_of_whole
      (Numeral.digits_of_whole hNumeral hPoint)] at hValue
    have hInt : value.IsInt := by
      split at hValue
      · split at hValue
        · cases hValue
          trivial
        · cases hValue
      · cases hValue
        trivial
    exact iff_of_true hInt hPoint

/- Octal in C, digits mean the same only if they are below eight. -/
theorem constant_octal_iff
    (hDigits : ∀ ch ∈ text, ch.isDigit = true)
    (hStarts : Numeral.StartsOctal text) :
    (constant text).map Value.number =
        some (ofDigitChars 10 text 0 : ℚ) ↔
      ofDigitChars 10 text 0 < 8 := by
  rw [constant_of_whole hDigits, if_pos hStarts]
  by_cases hOctal : text.all Numeral.isOctalDigit = true
  · rw [if_pos hOctal, Option.map_some, Option.some_inj,
      ← Numeral.octal_eq_iff (List.all_eq_true.mp hOctal),
      Value.number]
    norm_cast
  · have hSome :
        ∃ ch ∈ text, Numeral.isOctalDigit ch = false := by
      simpa using hOctal
    rcases hSome with ⟨ch, hMember, hCh⟩
    have hLarge :=
      Numeral.eight_le hMember (hDigits ch hMember) hCh
    rw [if_neg hOctal]
    apply iff_of_false
    · simp
    · omega

/-
  A numeral means the same in both languages unless it is octal
  in C and eight or more.
-/
theorem constant_keeps_iff
    (hNumeral : Lexeme.IsNumeral text) :
    (constant text).map Value.number =
        some (Numeral.decimal text) ↔
      (Numeral.StartsOctal text → Numeral.decimal text < 8) := by
  by_cases hPoint : '.' ∈ text
  · rw [constant_of_point hNumeral hPoint]
    apply iff_of_true
    · rfl
    · intro hOctal
      exact absurd hPoint hOctal.1
  · have hDigits := Numeral.digits_of_whole hNumeral hPoint
    rw [Numeral.decimal_of_whole hDigits]
    by_cases hStarts : Numeral.StartsOctal text
    · rw [constant_octal_iff hDigits hStarts]
      simp only [hStarts, true_imp_iff]
      norm_cast
    · rw [constant_of_whole hDigits, if_neg hStarts]
      apply iff_of_true
      · simp [Value.number]
      · intro hOctal
        contradiction

------------------------------------------------------------
-- Operations
------------------------------------------------------------

namespace Value

variable {left right : Value}

/- An operation on ints and real numbers alike is exact. -/
theorem number_arithmetic
    {whole : ℤ → ℤ → ℤ}
    {exact : ℚ → ℚ → ℚ}
    (hCast : ∀ a b : ℤ, (whole a b : ℚ) = exact a b)
    (left right : Value) :
    (arithmetic whole exact left right).number =
      exact left.number right.number := by
  cases left with
  | int a =>
      cases right with
      | int b => exact hCast a b
      | real b => rfl
  | real a => rfl

/- A sign means the same before ints and real numbers. -/
theorem number_signed
    (sign : Operator)
    (value : Value) :
    (value.signed sign).number = sign.signed value.number := by
  cases value with
  | int a =>
      unfold signed Operator.signed number
      by_cases hMinus : sign = .minus
      · simp [hMinus]
      · simp [hMinus]
  | real a => rfl

/- A sign does not change the type. -/
theorem isInt_signed_iff
    (sign : Operator)
    (value : Value) :
    (value.signed sign).IsInt ↔ value.IsInt := by
  cases value <;> exact Iff.rfl

/- An operation gives an int if both its operands are ints. -/
theorem isInt_arithmetic_iff
    {whole : ℤ → ℤ → ℤ}
    {exact : ℚ → ℚ → ℚ} :
    (arithmetic whole exact left right).IsInt ↔
      left.IsInt ∧ right.IsInt := by
  cases left <;> cases right <;>
    simp [arithmetic, IsInt]

/- An int is divided without loss if its quotient is whole. -/
theorem tdiv_eq_iff
    {a b : ℤ}
    (hDivisor : (b : ℚ) ≠ 0) :
    ((a.tdiv b : ℤ) : ℚ) = a / b ↔
      ∃ n : ℤ, (a : ℚ) / b = n := by
  constructor
  · intro hSame
    exact ⟨a.tdiv b, hSame.symm⟩
  · intro hWhole
    rcases hWhole with ⟨n, hQuotient⟩
    have hProduct : (a : ℚ) = n * b := by
      rw [← hQuotient, div_mul_cancel₀ _ hDivisor]
    have hInts : a = n * b := by exact_mod_cast hProduct
    have hSome : b ≠ 0 := by exact_mod_cast hDivisor
    rw [hQuotient, hInts, Int.mul_tdiv_cancel n hSome]

/- Arithmetic gives an int if both its operands are ints. -/
theorem isInt_operate?_iff
    {sign : Operator}
    {value : Value}
    (hSign : sign.isComparison = false)
    (hValue : operate? sign left right = some value) :
    value.IsInt ↔ left.IsInt ∧ right.IsInt := by
  cases sign with
  | plus | minus | times =>
      cases hValue
      exact isInt_arithmetic_iff
  | divide =>
      by_cases hZero : right.number = 0
      · simp [operate?, hZero] at hValue
      · rw [operate?, if_neg hZero] at hValue
        cases hValue
        exact isInt_arithmetic_iff
  | assign => cases hValue
  | _ => cases hSign

/- Sums, differences and products are exact in C. -/
theorem operate?_keeps
    {sign : Operator}
    {result : ℚ}
    (hSign : sign ≠ .divide)
    (hExact :
      sign.combine? left.number right.number = some result) :
    (operate? sign left right).map number = some result := by
  cases sign with
  | plus =>
      cases hExact
      apply congrArg some
      apply number_arithmetic
      exact Int.cast_add
  | minus =>
      cases hExact
      apply congrArg some
      apply number_arithmetic
      exact Int.cast_sub
  | times =>
      cases hExact
      apply congrArg some
      apply number_arithmetic
      exact Int.cast_mul
  | divide => exact absurd rfl hSign
  | _ => cases hExact

/- A quotient is exact in C if it is whole or not of two ints. -/
theorem operate?_divide_iff
    (hDivisor : right.number ≠ 0) :
    (operate? .divide left right).map number =
        some (left.number / right.number) ↔
      (left.IsInt → right.IsInt →
        ∃ n : ℤ, left.number / right.number = n) := by
  rw [operate?, if_neg hDivisor, Option.map_some,
    Option.some_inj]
  cases left with
  | int a =>
      cases right with
      | int b =>
          simp only [IsInt, true_imp_iff]
          exact tdiv_eq_iff hDivisor
      | real b =>
          apply iff_of_true
          · rfl
          · intro _ hInt
            cases hInt
  | real a =>
      apply iff_of_true
      · rfl
      · intro hInt
        cases hInt

/-
  C works out the exact result of an operation, unless it
  divides two ints and the quotient is not whole.
-/
theorem operate?_keeps_iff
    {sign : Operator}
    {result : ℚ}
    (hExact :
      sign.combine? left.number right.number = some result) :
    (operate? sign left right).map number = some result ↔
      (sign = .divide → left.IsInt → right.IsInt →
        ∃ n : ℤ, result = n) := by
  by_cases hDivide : sign = .divide
  · subst hDivide
    by_cases hZero : right.number = 0
    · simp [Operator.combine?, hZero] at hExact
    · simp only [Operator.combine?, if_neg hZero,
        Option.some_inj] at hExact
      subst hExact
      rw [operate?_divide_iff hZero]
      simp only [true_imp_iff]
  · apply iff_of_true
    · exact operate?_keeps hDivide hExact
    · intro hSame
      contradiction

end Value

------------------------------------------------------------
-- Values of Formulas
------------------------------------------------------------

namespace Formula

section Values

variable (ρ : String → ℚ)

/- The value of a formula in C. All variables are real numbers. -/
def value? : Formula → Option Value
| .number text => constant text
| .name text => some (.real (ρ (String.ofList text)))
| .unary sign operand =>
    (value? operand).map fun value => value.signed sign
| .binary sign left right =>
    (value? left).bind fun before =>
      (value? right).bind fun last =>
        Value.operate? sign before last

/- The exact value of a formula, all of its numbers in decimal. -/
def exactValue? : Formula → Option ℚ
| .number text => some (Numeral.decimal text)
| .name text => some (ρ (String.ofList text))
| .unary sign operand =>
    (exactValue? operand).map fun number => sign.signed number
| .binary sign left right =>
    (exactValue? left).bind fun before =>
      (exactValue? right).bind fun last => sign.combine? before last

/- C gives the formula its exact value. -/
def Keeps (formula : Formula) : Prop :=
  (formula.value? ρ).map Value.number = formula.exactValue? ρ

/- Whether all constants and variables of a formula are ints. -/
def IsInt : Formula → Prop
| .number text => '.' ∉ text
| .name _ => False
| .unary _ operand => operand.IsInt
| .binary _ left right => left.IsInt ∧ right.IsInt

end Values

/-
  No constant is octal in C and eight or more, and every
  quotient of ints is whole, whatever the variables are.
-/
def Faithful : Formula → Prop
| .number text =>
    Numeral.StartsOctal text → Numeral.decimal text < 8
| .name _ => True
| .unary _ operand => Faithful operand
| .binary sign left right =>
    Faithful left ∧ Faithful right ∧
      (sign = .divide → left.IsInt → right.IsInt →
        ∃ n : ℤ, ∀ ρ,
          (Formula.binary sign left right).exactValue? ρ =
            some ↑n)

/- The formulas that a formula is made of, and the formula. -/
def parts : Formula → List Formula
| .number text => [.number text]
| .name text => [.name text]
| .unary sign operand => operand.parts ++ [.unary sign operand]
| .binary sign left right =>
    left.parts ++ right.parts ++ [.binary sign left right]

/- All numbers of a formula are numerals. -/
def Spelled : Formula → Prop
| .number text => Lexeme.IsNumeral text
| .name _ => True
| .unary _ operand => operand.Spelled
| .binary _ left right => left.Spelled ∧ right.Spelled

/- A formula is one of its parts. -/
theorem mem_parts (formula : Formula) :
    formula ∈ formula.parts := by
  cases formula <;> simp [parts]

variable {ρ : String → ℚ}
variable {formula left right : Formula}
variable {sign : Operator}
variable {result : ℚ}

/- An operation with an exact value has operands with one. -/
theorem exists_of_exact
    (hExact :
      (binary sign left right).exactValue? ρ = some result) :
    ∃ before last,
      left.exactValue? ρ = some before ∧
        right.exactValue? ρ = some last ∧
          sign.combine? before last = some result := by
  rcases Option.bind_eq_some_iff.mp hExact with
    ⟨before, hLeft, hMore⟩
  rcases Option.bind_eq_some_iff.mp hMore with
    ⟨last, hRight, hResult⟩
  exact ⟨before, last, hLeft, hRight, hResult⟩

/- Without variables a value does not depend on them. -/
theorem IsInt.exactValue?_eq
    (hInt : formula.IsInt)
    (ρ σ : String → ℚ) :
    formula.exactValue? ρ = formula.exactValue? σ := by
  induction formula with
  | number text => rfl
  | name text => cases hInt
  | unary sign operand ih => rw [exactValue?, ih hInt]; rfl
  | binary sign left right ihLeft ihRight =>
      rw [exactValue?, ihLeft hInt.1, ihRight hInt.2]
      rfl

/- C has a value for what keeps its exact value. -/
theorem Keeps.exists_value
    (hKeeps : formula.Keeps ρ)
    (hExact : formula.exactValue? ρ = some result) :
    ∃ value,
      formula.value? ρ = some value ∧ value.number = result :=
  Option.map_eq_some_iff.mp (hKeeps.trans hExact)

/- The type of a formula's value is that of the formula. -/
theorem isInt_iff
    {value : Value}
    (hSpelled : formula.Spelled)
    (hExact : formula.exactValue? ρ = some result)
    (hValue : formula.value? ρ = some value) :
    value.IsInt ↔ formula.IsInt := by
  induction formula generalizing result value with
  | number text => exact constant_isInt_iff hSpelled hValue
  | name text =>
      cases hValue
      exact Iff.rfl
  | unary sign operand ih =>
      rcases Option.map_eq_some_iff.mp hExact with
        ⟨number, hNumber, _⟩
      rcases Option.map_eq_some_iff.mp hValue with
        ⟨inner, hInner, hSame⟩
      rw [← hSame, Value.isInt_signed_iff]
      exact ih hSpelled hNumber hInner
  | binary sign left right ihLeft ihRight =>
      rcases exists_of_exact hExact with
        ⟨a, b, hLeft, hRight, hResult⟩
      rcases Option.bind_eq_some_iff.mp hValue with
        ⟨before, hBefore, hMore⟩
      rcases Option.bind_eq_some_iff.mp hMore with
        ⟨last, hLast, hApply⟩
      have hSign : sign.isComparison = false := by
        cases sign <;> first | rfl | cases hResult
      rw [Value.isInt_operate?_iff hSign hApply,
        ihLeft hSpelled.1 hLeft hBefore,
        ihRight hSpelled.2 hRight hLast]
      exact Iff.rfl

/-
  An operation on operands that keep their values keeps its own,
  unless it divides ints and the quotient is not whole.
-/
theorem keeps_binary_iff
    (hSpelled : (binary sign left right).Spelled)
    (hLeft : left.Keeps ρ)
    (hRight : right.Keeps ρ)
    (hExact :
      (binary sign left right).exactValue? ρ = some result) :
    (binary sign left right).Keeps ρ ↔
      (sign = .divide → left.IsInt → right.IsInt →
        ∃ n : ℤ, ∀ σ,
          (binary sign left right).exactValue? σ = some ↑n) := by
  rcases exists_of_exact hExact with
    ⟨a, b, hBefore, hLast, hResult⟩
  rcases hLeft.exists_value hBefore with ⟨before, hA, hSameA⟩
  rcases hRight.exists_value hLast with ⟨last, hB, hSameB⟩
  subst hSameA hSameB
  have hValue :
      (binary sign left right).value? ρ =
        Value.operate? sign before last := by
    rw [value?, hA, Option.bind_some, hB, Option.bind_some]
  unfold Keeps
  rw [hValue, hExact, Value.operate?_keeps_iff hResult,
    isInt_iff hSpelled.1 hBefore hA,
    isInt_iff hSpelled.2 hLast hB]
  constructor
  · intro hWhole hDivide hIntLeft hIntRight
    rcases hWhole hDivide hIntLeft hIntRight with ⟨n, hN⟩
    apply Exists.intro n
    intro σ
    have hInt : (binary sign left right).IsInt :=
      ⟨hIntLeft, hIntRight⟩
    rw [hInt.exactValue?_eq σ ρ, hExact, hN]
  · intro hWhole hDivide hIntLeft hIntRight
    rcases hWhole hDivide hIntLeft hIntRight with ⟨n, hN⟩
    have hSame := hExact.symm.trans (hN ρ)
    exact ⟨n, Option.some_inj.mp hSame⟩

/-
  A formula and all its parts keep their values if and only if
  the formula is faithful. The induction is on the formula, and
  each constructor adds the condition for one more part.
-/
theorem keeps_iff
    (hSpelled : formula.Spelled)
    (hExact : formula.exactValue? ρ = some result) :
    (∀ part ∈ formula.parts, part.Keeps ρ) ↔
      formula.Faithful := by
  induction formula generalizing result with
  | number text =>
      rw [parts, List.forall_mem_singleton]
      exact constant_keeps_iff hSpelled
  | name text =>
      rw [parts, List.forall_mem_singleton]
      exact iff_of_true rfl trivial
  | unary sign operand ih =>
      rcases Option.map_eq_some_iff.mp hExact with
        ⟨number, hNumber, _⟩
      rw [parts, List.forall_mem_append,
        List.forall_mem_singleton, ih hSpelled hNumber]
      apply and_iff_left_of_imp
      intro hFaithful
      have hKeeps : operand.Keeps ρ :=
        (ih hSpelled hNumber).mpr hFaithful operand
          operand.mem_parts
      rcases hKeeps.exists_value hNumber with
        ⟨value, hValue, hSame⟩
      unfold Keeps
      rw [value?, exactValue?, hValue, hNumber, Option.map_some,
        Option.map_some, Option.map_some,
        Value.number_signed, hSame]
  | binary sign left right ihLeft ihRight =>
      rcases exists_of_exact hExact with
        ⟨a, b, hLeft, hRight, _⟩
      have hLeftIff := ihLeft hSpelled.1 hLeft
      have hRightIff := ihRight hSpelled.2 hRight
      rw [parts, List.forall_mem_append,
        List.forall_mem_append, List.forall_mem_singleton,
        hLeftIff, hRightIff, and_assoc]
      apply and_congr_right
      intro hFaithfulLeft
      apply and_congr_right
      intro hFaithfulRight
      exact
        keeps_binary_iff hSpelled
          (hLeftIff.mpr hFaithfulLeft left left.mem_parts)
          (hRightIff.mpr hFaithfulRight right right.mem_parts)
          hExact

end Formula

------------------------------------------------------------
-- Values of Texts
------------------------------------------------------------

/- The value that C gives to the text of a formula. -/
def value? (ρ : String → ℚ) (text : String) : Option Value :=
  (split none text.toList).bind fun pieces =>
    (parse pieces).bind fun formula => formula.value? ρ

end CText

end TeenyC
