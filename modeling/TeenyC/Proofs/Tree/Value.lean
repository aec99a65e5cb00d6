import TeenyC.Proofs.Token.Numeral
import TeenyC.Proofs.Tree.Spelling

/-
  The values of expressions in Teeny.

  There is a single type of number. Its values are the rational
  numbers here: all operations are exact, and only a division by
  zero has no value.

  Key definitions include:
    * `Operator.combine?`
    * `Tree.Expression.value?`
    * `Tree.Expression.parts`
    * `Tree.Statements.expressions`

  Key theorems include:
    * `Tree.Expression.leaves_of_part`
    * `Tree.Statements.Spells.leaves_of_expression`
-/

namespace TeenyC

namespace Operator

/- An operation on two numbers. A division by zero has no result. -/
def combine? (sign : Operator) (left right : ℚ) : Option ℚ :=
  match sign with
  | .plus => some (left + right)
  | .minus => some (left - right)
  | .times => some (left * right)
  | .divide => if right = 0 then none else some (left / right)
  | _ => none

/- A number with a sign before it. -/
def signed (sign : Operator) (number : ℚ) : ℚ :=
  if sign = .minus then -number else number

end Operator

namespace Tree

variable {level : Operator → Bool}
variable {α : Type}

------------------------------------------------------------
-- Values
------------------------------------------------------------

section Values

variable (ρ : String → ℚ)

/- The value of a number or a variable. -/
def Operand.value : Operand → ℚ
| .number text => Numeral.decimal text.toList
| .variable name => ρ name

/- The value of an operand with its sign. -/
def Factor.value (factor : Factor) : ℚ :=
  match factor.sign with
  | none => factor.operand.value ρ
  | some sign => sign.1.signed (factor.operand.value ρ)

/- The value of a chain, worked out from the left. -/
def Chain.value?
    (item : α → Option ℚ) : Chain level α → Option ℚ
| .single first => item first
| .join left sign right =>
    (value? item left).bind fun before =>
      (item right).bind fun last => sign.1.combine? before last

/- The value of a term. -/
def Term.value? (term : Term) : Option ℚ :=
  Chain.value? (fun factor => some (Factor.value ρ factor)) term

/- The value of an expression. -/
def Expression.value? (expression : Expression) : Option ℚ :=
  Chain.value? (Term.value? ρ) expression

end Values

------------------------------------------------------------
-- Parts
------------------------------------------------------------

/- A factor's operand alone, and the factor. -/
def Factor.parts (factor : Factor) : List Factor :=
  match factor.sign with
  | none => [factor]
  | some _ =>
      [{ sign := none, operand := factor.operand }, factor]

/- The parts of a chain's items, and the chains that begin it. -/
def Chain.parts
    (item : α → List α) :
    Chain level α → List (Chain level α)
| .single first => (item first).map .single
| .join left sign right =>
    parts item left ++ (item right).map .single ++
      [.join left sign right]

/- The parts of a term, each a term. -/
def Term.parts (term : Term) : List Term :=
  Chain.parts Factor.parts term

/- The parts of an expression, each an expression. -/
def Expression.parts (expression : Expression) :
    List Expression :=
  Chain.parts Term.parts expression

/- A factor is one of its parts. -/
theorem Factor.mem_parts (factor : Factor) :
    factor ∈ factor.parts := by
  rcases factor with ⟨- | sign, operand⟩ <;> simp [parts]

/- A chain is one of its parts. -/
theorem Chain.mem_parts
    {item : α → List α}
    (hItem : ∀ a, a ∈ item a)
    (chain : Chain level α) :
    chain ∈ chain.parts item := by
  cases chain with
  | single first =>
      exact List.mem_map.mpr ⟨first, hItem first, rfl⟩
  | join left sign right => simp [parts]

/- An expression is one of its parts. -/
theorem Expression.mem_parts (expression : Expression) :
    expression ∈ Expression.parts expression := by
  apply Chain.mem_parts
  intro term
  apply Chain.mem_parts
  exact Factor.mem_parts

/- The items of a chain. -/
def Chain.items : Chain level α → List α
| .single first => [first]
| .join left _ right => items left ++ [right]

/- The expressions of statements, in source order. -/
def Statements.expressions : Statements → List Expression
| .done => []
| .simple first rest =>
    first.expression?.toList ++ rest.expressions
| .block _ condition inner rest =>
    condition.chain.items ++ inner.expressions ++
      rest.expressions

------------------------------------------------------------
-- Leaves of Parts
------------------------------------------------------------

/- The leaves of a factor's parts are the factor's. -/
theorem Factor.leaves_of_part
    {factor part : Factor}
    (hPart : part ∈ factor.parts) :
    part.leaves ⊆ factor.leaves := by
  rcases factor with ⟨sign, operand⟩
  cases sign with
  | none =>
      rw [List.mem_singleton.mp hPart]
      exact List.Subset.refl _
  | some sign =>
      rcases List.mem_cons.mp hPart with hAlone | hWhole
      · rw [hAlone]
        exact List.subset_append_right _ _
      · rw [List.mem_singleton.mp hWhole]
        exact List.Subset.refl _

/- The leaves of a chain's parts are the chain's. -/
theorem Chain.leaves_of_part
    {leaves : α → List Leaf}
    {parts : α → List α}
    (hItem : ∀ a, ∀ part ∈ parts a, leaves part ⊆ leaves a)
    {chain part : Chain level α}
    (hPart : part ∈ chain.parts parts) :
    part.leaves leaves ⊆ chain.leaves leaves := by
  induction chain with
  | single first =>
      rcases List.mem_map.mp hPart with ⟨item, hMember, hSame⟩
      subst hSame
      exact hItem first item hMember
  | join left sign right ih =>
      simp only [Chain.parts, List.mem_append,
        List.mem_singleton] at hPart
      rcases hPart with (hLeft | hRight) | hWhole
      · apply List.Subset.trans (ih hLeft)
        exact List.subset_append_left _ _
      · rcases List.mem_map.mp hRight with
          ⟨item, hMember, hSame⟩
        subst hSame
        apply List.Subset.trans (hItem right item hMember)
        apply List.Subset.trans (List.subset_cons_self _ _)
        exact List.subset_append_right _ _
      · rw [hWhole]
        exact List.Subset.refl _

/- The leaves of an expression's parts are the expression's. -/
theorem Expression.leaves_of_part
    {expression part : Expression}
    (hPart : part ∈ expression.parts) :
    Expression.leaves part ⊆ Expression.leaves expression := by
  apply Chain.leaves_of_part _ hPart
  intro term other hOther
  apply Chain.leaves_of_part _ hOther
  intro factor small hSmall
  exact Factor.leaves_of_part hSmall

/- The leaves of a chain's items are within the chain's. -/
theorem Chain.leaves_of_item
    {leaves : α → List Leaf}
    {chain : Chain level α}
    {item : α}
    (hItem : item ∈ chain.items) :
    leaves item <:+: chain.leaves leaves := by
  induction chain with
  | single first =>
      rw [List.mem_singleton.mp hItem]
      exact List.infix_rfl
  | join left sign right ih =>
      rcases List.mem_append.mp hItem with hLeft | hRight
      · exact (ih hLeft).trans (List.infix_append' [] _ _)
      · rw [List.mem_singleton.mp hRight]
        exact
          (List.suffix_append_of_suffix
            (List.suffix_cons _ _)).isInfix

/- The leaves of a simple statement's expression end it. -/
theorem Simple.leaves_of_expression
    {simple : Simple}
    {expression : Expression}
    (hExpression : simple.expression? = some expression) :
    Expression.leaves expression <:+ simple.leaves := by
  cases simple with
  | printValue value =>
      cases hExpression
      exact List.suffix_cons _ _
  | assign name value =>
      cases hExpression
      exact ⟨[.keyword .letKw, .target name, .sign .assign], rfl⟩
  | printText contents => cases hExpression
  | label name => cases hExpression
  | jump name => cases hExpression
  | input name => cases hExpression

/- The leaves of an expression stand together in its program. -/
theorem Statements.Spells.leaves_of_expression
    {statements : Statements}
    {leaves : List Leaf}
    {expression : Expression}
    (hSpells : statements.Spells leaves)
    (hExpression : expression ∈ statements.expressions) :
    Expression.leaves expression <:+: leaves := by
  induction hSpells with
  | done => cases hExpression
  | @simple first rest more blanks _ ih =>
      rcases List.mem_append.mp hExpression with hHere | hRest
      · have hFirst :=
          Simple.leaves_of_expression
            (Option.mem_toList.mp hHere)
        rw [List.append_assoc]
        exact
          hFirst.isInfix.trans (List.prefix_append _ _).isInfix
      · exact (ih hRest).trans (List.suffix_append _ _).isInfix
  | @block kind condition inner rest held more blanks later
      _ _ ihInner ihRest =>
      simp only [Statements.expressions, List.mem_append]
        at hExpression
      rcases hExpression with (hHere | hInner) | hRest
      · have hItem :
            Expression.leaves expression <:+:
              condition.leaves :=
          Chain.leaves_of_item hHere
        have hLine :
            condition.leaves <:+: openingLeaves kind condition :=
          ⟨[.keyword kind.opener], [.keyword kind.divider],
            rfl⟩
        apply (hItem.trans hLine).trans
        simp only [List.append_assoc]
        exact (List.prefix_append _ _).isInfix
      · apply (ihInner hInner).trans
        rw [List.append_assoc]
        exact List.infix_append _ _ _
      · exact (ihRest hRest).trans (List.suffix_append _ _).isInfix

/- The leaves of an expression stand together in the whole. -/
theorem Statements.SpellsProgram.leaves_of_expression
    {program : Statements}
    {leaves : List Leaf}
    {expression : Expression}
    (hSpells : program.SpellsProgram leaves)
    (hExpression : expression ∈ program.expressions) :
    Expression.leaves expression <:+: leaves := by
  rcases hSpells with ⟨blanks, body, hLeaves, hBody⟩
  apply (hBody.leaves_of_expression hExpression).trans
  rw [hLeaves]
  exact List.infix_append _ _ _

end Tree

end TeenyC
