import TeenyC.Proofs.CText.Value

/-
  How C reads the text of an expression.

  The text is split into the operands and operators that the
  expression was written with, and these parse as a formula of
  the same shape. C then gives the text the value of the formula.

  Key definitions include:
    * `Leaf.Spelled`
    * `Tree.Chain.pieces`
    * `Tree.Chain.formula`
    * `Tree.Expression.formula`

  Key theorems include:
    * `Tree.Chain.splits`
    * `Tree.Chain.parses`
    * `Tree.Expression.value?_text`
-/

namespace TeenyC

open CText

/- A leaf whose text fits its kind. -/
def Leaf.Spelled (leaf : Leaf) : Prop :=
  Lexeme.Fits leaf.kind leaf.text.toList

------------------------------------------------------------
-- Operands and Operators in C
------------------------------------------------------------

namespace CText

variable {text : List Char}

/- A numeral starts with a digit. -/
theorem exists_digit
    (hNumeral : Lexeme.IsNumeral text) :
    ∃ first more, text = first :: more ∧ first.isDigit = true := by
  rcases hNumeral with ⟨whole, hSome, hDigits, hText⟩
  cases whole with
  | nil => exact absurd rfl hSome
  | cons first rest =>
      have hFirst := hDigits first List.mem_cons_self
      rcases hText with hText | ⟨fraction, _, _, hText⟩
      · exact ⟨first, rest, hText, hFirst⟩
      · exact ⟨first, _, hText, hFirst⟩

/- The characters of a numeral are digits and points. -/
theorem numeral_text
    (hNumeral : Lexeme.IsNumeral text) :
    ∀ ch ∈ text, ch.isDigit = true ∨ ch = '.' := by
  intro ch hCh
  by_cases hPoint : '.' ∈ text
  · rcases Numeral.exists_of_point hNumeral hPoint with
      ⟨whole, fraction, hText, _, hLeft, hRight⟩
    rw [hText, List.mem_append, List.mem_cons] at hCh
    rcases hCh with hCh | hCh | hCh
    · exact .inl (hLeft ch hCh)
    · exact .inr hCh
    · exact .inl (hRight ch hCh)
  · exact .inl (Numeral.digits_of_whole hNumeral hPoint ch hCh)

/- A digit may stand in a name. -/
theorem isNameText_of_isDigit
    {ch : Char}
    (hDigit : ch.isDigit = true) :
    isNameText ch = true := by
  simp [isNameText, Char.isAlphanum, hDigit]

/- A letter may stand in a name. -/
theorem isNameText_of_isAlpha
    {ch : Char}
    (hAlpha : ch.isAlpha = true) :
    isNameText ch = true := by
  simp [isNameText, Char.isAlphanum, hAlpha]

/- A numeral is one piece of C. -/
theorem spelt_number
    (hNumeral : Lexeme.IsNumeral text) :
    Piece.Spelt text (.number text) := by
  have hText := numeral_text hNumeral
  rcases exists_digit hNumeral with
    ⟨first, more, hStarts, hFirst⟩
  subst hStarts
  apply Piece.Spelt.mk
  · exact isBlank_of_isNameText (isNameText_of_isDigit hFirst)
  · exact if_pos hFirst
  · apply Piece.extend_all
    intro ch hCh
    exact
      Piece.extend?_number (hText ch (List.mem_cons_of_mem _ hCh))

/- A name is one piece of C. -/
theorem spelt_name
    (hName : Lexeme.IsName text) :
    Piece.Spelt text (.name text) := by
  rcases hName with ⟨first, rest, hStarts, hFirst, hRest⟩
  subst hStarts
  apply Piece.Spelt.mk
  · exact isBlank_of_isNameText (isNameText_of_isAlpha hFirst)
  · rw [Piece.begin?, if_neg (Lexeme.not_isDigit_of_isAlpha hFirst)]
    apply if_pos
    simp [isNameStart, hFirst]
  · apply Piece.extend_all
    intro ch hCh
    exact Piece.extend?_name (hRest ch hCh)

/- An operator is one piece of C. -/
theorem spelt_mark (sign : Operator) :
    Piece.Spelt sign.spelling.toList
      (.mark sign.spelling.toList) := by
  cases sign <;> exact ⟨rfl, rfl, rfl⟩

/- An operator of formulas is what its mark spells. -/
theorem operator?_spelling
    {sign : Operator}
    (hSign : sign ≠ .assign) :
    operator? sign.spelling.toList = some sign := by
  cases sign <;> first | rfl | exact absurd rfl hSign

end CText

namespace Tree

variable {level : Operator → Bool}
variable {α : Type}

------------------------------------------------------------
-- Pieces of Trees
------------------------------------------------------------

/- The piece of an operand. -/
def Operand.piece : Operand → Piece
| .number text => .number text.toList
| .variable name => .name name.toList

/- The piece of an operator. -/
def Sign.piece (sign : Sign level) : Piece :=
  .mark sign.1.spelling.toList

/- The pieces of a factor. -/
def Factor.pieces (factor : Factor) : List Piece :=
  match factor.sign with
  | none => [factor.operand.piece]
  | some sign => [Sign.piece sign, factor.operand.piece]

/- The pieces of a chain, given those of its items. -/
def Chain.pieces
    (item : α → List Piece) : Chain level α → List Piece
| .single first => item first
| .join left sign right =>
    pieces item left ++ Sign.piece sign :: item right

/- The pieces of a term. -/
def Term.pieces (term : Term) : List Piece :=
  Chain.pieces Factor.pieces term

/- The pieces of an expression. -/
def Expression.pieces (expression : Expression) : List Piece :=
  Chain.pieces Term.pieces expression

/- An operand that is well spelled is one piece. -/
theorem Operand.spelt
    {operand : Operand}
    (hSpelled : operand.leaf.Spelled) :
    Piece.Spelt operand.text.toList operand.piece := by
  rcases operand with text | name
  · exact spelt_number hSpelled
  · exact spelt_name hSpelled.1

/- An operand starts with a letter or a digit. -/
theorem Operand.exists_start
    {operand : Operand}
    (hSpelled : operand.leaf.Spelled) :
    ∃ first more,
      operand.text.toList = first :: more ∧
        isNameText first = true := by
  rcases operand with text | name
  · rcases exists_digit hSpelled with
      ⟨first, more, hText, hFirst⟩
    exact ⟨first, more, hText, isNameText_of_isDigit hFirst⟩
  · rcases hSpelled.1 with ⟨first, more, hText, hFirst, _⟩
    exact ⟨first, more, hText, isNameText_of_isAlpha hFirst⟩

/- A factor is split into its sign and its operand. -/
theorem Factor.splits
    {factor : Factor}
    (hSpelled : ∀ leaf ∈ factor.leaves, leaf.Spelled) :
    Splits factor.text.toList factor.pieces := by
  rcases factor with ⟨sign, operand⟩
  have hOperand : operand.leaf.Spelled :=
    hSpelled _ (List.mem_append_right _ List.mem_cons_self)
  have hSpelt := Operand.spelt hOperand
  cases sign with
  | none =>
      have hText :
          Factor.text { sign := none, operand := operand } =
            operand.text :=
        String.empty_append
      rw [hText]
      exact splits_of_spelt hSpelt
  | some sign =>
      rcases Operand.exists_start hOperand with
        ⟨first, more, hText, hFirst⟩
      have hPoint : sign.1.spelling.toList ≠ ['.'] := by
        cases sign.1 <;> decide
      have hEnds : (Sign.piece sign).extend? first = none :=
        Piece.extend?_mark (fun h => hPoint h.1)
          (by simp [isWordOrBlank, hFirst])
      change
        Splits (sign.1.spelling ++ operand.text).toList
          [Sign.piece sign, operand.piece]
      rw [hText] at hSpelt
      rw [String.toList_append, hText]
      exact splits_pair (spelt_mark sign.1) hSpelt hEnds

/- A chain is split into its operators and what its items are. -/
theorem Chain.splits
    {leaves : α → List Leaf}
    {text : α → String}
    {pieces : α → List Piece}
    (hItem :
      ∀ a, (∀ leaf ∈ leaves a, leaf.Spelled) →
        Splits (text a).toList (pieces a))
    {chain : Chain level α}
    (hSpelled : ∀ leaf ∈ chain.leaves leaves, leaf.Spelled) :
    Splits (chain.text text).toList (chain.pieces pieces) := by
  induction chain with
  | single first => exact hItem first hSpelled
  | join left sign right ih =>
      have hLeft :=
        ih fun leaf hLeaf =>
          hSpelled leaf (List.mem_append_left _ hLeaf)
      have hRight :=
        hItem right fun leaf hLeaf =>
          hSpelled leaf
            (List.mem_append_right _
              (List.mem_cons_of_mem _ hLeaf))
      have hSign := splits_of_spelt (spelt_mark sign.1)
      have hJoin := hLeft.join (hSign.join hRight)
      simpa [Chain.text, Chain.pieces, Sign.piece] using hJoin

/- An expression is split into its operands and operators. -/
theorem Expression.splits
    {expression : Expression}
    (hSpelled :
      ∀ leaf ∈ Expression.leaves expression, leaf.Spelled) :
    Splits (Expression.text expression).toList
      (Expression.pieces expression) := by
  apply Chain.splits _ hSpelled
  intro term hTerm
  apply Chain.splits _ hTerm
  intro factor hFactor
  exact Factor.splits hFactor

------------------------------------------------------------
-- Formulas of Trees
------------------------------------------------------------

/- The formula of an operand. -/
def Operand.formula : Operand → Formula
| .number text => .number text.toList
| .variable name => .name name.toList

/- The formula of a factor. -/
def Factor.formula (factor : Factor) : Formula :=
  match factor.sign with
  | none => factor.operand.formula
  | some sign => .unary sign.1 factor.operand.formula

/- The formula of a chain, grouped from the left. -/
def Chain.formula
    (item : α → Formula) : Chain level α → Formula
| .single first => item first
| .join left sign right =>
    .binary sign.1 (formula item left) (item right)

/- The formula of a term. -/
def Term.formula (term : Term) : Formula :=
  Chain.formula Factor.formula term

/- The formula of an expression. -/
def Expression.formula (expression : Expression) : Formula :=
  Chain.formula Term.formula expression

/- The pieces of a factor parse as its formula. -/
theorem Factor.parses
    (factor : Factor)
    (priority : Nat) :
    Parses priority factor.pieces factor.formula := by
  rcases factor with ⟨sign, operand⟩
  have hOperand :
      operand.piece.operand? = some operand.formula := by
    cases operand <;> rfl
  cases sign with
  | none => exact Parses.operand hOperand priority
  | some sign =>
      have hMark :
          (Sign.piece sign).operator? = some sign.1 := by
        apply operator?_spelling
        intro hAssign
        have hSign := sign.2
        rw [hAssign] at hSign
        cases hSign
      exact Parses.sign hMark sign.2 hOperand priority

/-
  If C has one priority for the operators of a chain, and binds
  its items tighter, the chain parses as its formula.
-/
theorem Chain.parses
    {bound : Nat}
    {pieces : α → List Piece}
    {formula : α → Formula}
    (hLevel : ∀ sign : Sign level, priority sign.1 = bound)
    (hPositive : 0 < bound)
    (hItem : ∀ a, Parses (bound + 1) (pieces a) (formula a))
    (chain : Chain level α) :
    Parses bound (chain.pieces pieces)
      (chain.formula formula) := by
  induction chain with
  | single first => exact (hItem first).mono (Nat.le_succ bound)
  | join left sign right ih =>
      have hPiece :
          (Sign.piece sign).operator? = some sign.1 := by
        apply operator?_spelling
        intro hAssign
        have hZero := hLevel sign
        rw [hAssign] at hZero
        change 0 = bound at hZero
        omega
      have hBound := hLevel sign
      subst hBound
      exact ih.join hPiece (hItem right)

/- The pieces of an expression parse as its formula. -/
theorem Expression.parses (expression : Expression) :
    Parses 3 (Expression.pieces expression)
      (Expression.formula expression) := by
  apply Chain.parses
  · intro sign
    rcases sign with ⟨sign, hSign⟩
    cases sign <;> first | rfl | cases hSign
  · decide
  · intro term
    apply Chain.parses
    · intro sign
      rcases sign with ⟨sign, hSign⟩
      cases sign <;> first | rfl | cases hSign
    · decide
    · intro factor
      exact Factor.parses factor 5

------------------------------------------------------------
-- Values of Trees
------------------------------------------------------------

variable {ρ : String → ℚ}

/- C gives the text of an expression the value of its formula. -/
theorem Expression.value?_text
    {expression : Expression}
    (hSpelled :
      ∀ leaf ∈ Expression.leaves expression, leaf.Spelled) :
    CText.value? ρ (Expression.text expression) =
      (Expression.formula expression).value? ρ := by
  rw [CText.value?, (Expression.splits hSpelled).split_eq,
    Option.bind_some, (Expression.parses expression).parse_eq,
    Option.bind_some]

/- A factor's formula has the factor's value. -/
theorem Factor.exactValue?_formula (factor : Factor) :
    factor.formula.exactValue? ρ = some (factor.value ρ) := by
  rcases factor with ⟨sign, text | name⟩
  · cases sign <;> rfl
  · have hName : String.ofList name.toList = name :=
      String.ofList_toList
    cases sign with
    | none =>
        change some (ρ (String.ofList name.toList)) = _
        rw [hName]
        rfl
    | some sign =>
        change some (sign.1.signed (ρ (String.ofList name.toList))) = _
        rw [hName]
        rfl

/- A chain's formula has the chain's value, if its items have. -/
theorem Chain.exactValue?_formula
    {formula : α → Formula}
    {value? : α → Option ℚ}
    (hItem : ∀ a, (formula a).exactValue? ρ = value? a)
    (chain : Chain level α) :
    (chain.formula formula).exactValue? ρ = chain.value? value? := by
  induction chain with
  | single first => exact hItem first
  | join left sign right ih =>
      rw [Chain.formula, Formula.exactValue?, ih, hItem]
      rfl

/- An expression's formula has the expression's value. -/
theorem Expression.exactValue?_formula (expression : Expression) :
    (Expression.formula expression).exactValue? ρ =
      Expression.value? ρ expression := by
  apply Chain.exactValue?_formula
  intro term
  apply Chain.exactValue?_formula
  exact Factor.exactValue?_formula

/- The parts of a factor have the parts of its formula. -/
theorem Factor.map_formula_parts (factor : Factor) :
    factor.parts.map Factor.formula = factor.formula.parts := by
  rcases factor with ⟨sign, text | name⟩ <;>
    cases sign <;> rfl

/- The parts of a chain have the parts of its formula. -/
theorem Chain.map_formula_parts
    {parts : α → List α}
    {formula : α → Formula}
    (hItem : ∀ a, (parts a).map formula = (formula a).parts)
    (chain : Chain level α) :
    (chain.parts parts).map (Chain.formula formula) =
      (chain.formula formula).parts := by
  have hSingle (a : α) :
      ((parts a).map (@Chain.single level α)).map
          (Chain.formula formula) =
        (formula a).parts := by
    rw [List.map_map, ← hItem]
    rfl
  induction chain with
  | single first => exact hSingle first
  | join left sign right ih =>
      rw [Chain.parts, List.map_append, List.map_append, ih,
        hSingle]
      rfl

/- The parts of an expression have the parts of its formula. -/
theorem Expression.map_formula_parts (expression : Expression) :
    (Expression.parts expression).map Expression.formula =
      (Expression.formula expression).parts := by
  apply Chain.map_formula_parts
  intro term
  apply Chain.map_formula_parts
  exact Factor.map_formula_parts

/- The numbers in a factor's formula are numerals. -/
theorem Factor.spelled_formula
    {factor : Factor}
    (hSpelled : ∀ leaf ∈ factor.leaves, leaf.Spelled) :
    factor.formula.Spelled := by
  rcases factor with ⟨sign, text | name⟩
  · have hNumeral :=
      hSpelled (.number text)
        (List.mem_append_right _ List.mem_cons_self)
    cases sign <;> exact hNumeral
  · cases sign <;> trivial

/- The numbers in a chain's formula are numerals. -/
theorem Chain.spelled_formula
    {leaves : α → List Leaf}
    {formula : α → Formula}
    (hItem :
      ∀ a, (∀ leaf ∈ leaves a, leaf.Spelled) →
        (formula a).Spelled)
    {chain : Chain level α}
    (hSpelled : ∀ leaf ∈ chain.leaves leaves, leaf.Spelled) :
    (chain.formula formula).Spelled := by
  induction chain with
  | single first => exact hItem first hSpelled
  | join left sign right ih =>
      constructor
      · apply ih
        intro leaf hLeaf
        exact hSpelled leaf (List.mem_append_left _ hLeaf)
      · apply hItem
        intro leaf hLeaf
        exact
          hSpelled leaf
            (List.mem_append_right _
              (List.mem_cons_of_mem _ hLeaf))

/- The numbers in an expression's formula are numerals. -/
theorem Expression.spelled_formula
    {expression : Expression}
    (hSpelled :
      ∀ leaf ∈ Expression.leaves expression, leaf.Spelled) :
    (Expression.formula expression).Spelled := by
  apply Chain.spelled_formula _ hSpelled
  intro term hTerm
  apply Chain.spelled_formula _ hTerm
  intro factor hFactor
  exact Factor.spelled_formula hFactor

/-
  C gives an expression and all its parts the values they have
  in Teeny if and only if the formula is faithful.
-/
theorem Expression.keeps_iff
    {expression : Expression}
    {result : ℚ}
    (hSpelled :
      ∀ leaf ∈ Expression.leaves expression, leaf.Spelled)
    (hValue : Expression.value? ρ expression = some result) :
    (∀ part ∈ Expression.parts expression,
        (CText.value? ρ (Expression.text part)).map
            Value.number =
          Expression.value? ρ part) ↔
      (Expression.formula expression).Faithful := by
  rw [← Formula.keeps_iff
      (Expression.spelled_formula hSpelled)
      ((Expression.exactValue?_formula expression).trans hValue),
    ← Expression.map_formula_parts, List.forall_mem_map]
  apply forall_congr'
  intro part
  apply forall_congr'
  intro hPart
  have hPartSpelled :
      ∀ leaf ∈ Expression.leaves part, leaf.Spelled := by
    intro leaf hLeaf
    exact
      hSpelled leaf (Expression.leaves_of_part hPart hLeaf)
  rw [Expression.value?_text hPartSpelled,
    ← Expression.exactValue?_formula part]
  rfl

end Tree

end TeenyC
