import TeenyC.Proofs.CText.Meaning

/-
  How C groups the comparisons of a condition.

  Teeny has one level of comparisons, which it groups from the
  left. C has two levels: an order binds tighter than an
  equality. The text of a condition is read by C as equalities
  between chains of orders. That is the grouping of Teeny if and
  only if no order stands after an equality.

  Key definitions include:
    * `Operator.isEquality`
    * `Operator.isOrder`
    * `Tree.Comparison.EqualitiesLast`
    * `Tree.Comparands.regroup`
    * `Tree.Statements.conditions`

  Key theorems include:
    * `Tree.Comparison.formula?_text`
    * `Tree.Comparands.formula_regroup_eq_iff`
    * `compile_groups_left_iff`
-/

namespace TeenyC

------------------------------------------------------------
-- The Two Levels of C
------------------------------------------------------------

namespace Operator

/- The comparisons that ask whether two values are the same. -/
def isEquality : Operator → Bool
| .equal | .notEqual => true
| _ => false

/- The comparisons that ask which of two values is greater. -/
def isOrder : Operator → Bool
| .less | .lessEqual | .greater | .greaterEqual => true
| _ => false

/- A comparison is an order, or else an equality. -/
theorem isEquality_of_not_isOrder
    {sign : Operator}
    (hComparison : Tree.compares sign = true)
    (hOrder : ¬ sign.isOrder = true) :
    sign.isEquality = true := by
  cases sign <;>
    first | rfl | exact absurd rfl hOrder | cases hComparison

/- An order is no equality. -/
theorem not_isEquality_of_isOrder
    {sign : Operator}
    (hOrder : sign.isOrder = true) :
    ¬ sign.isEquality = true := by
  cases sign <;> first | decide | cases hOrder

end Operator

/- The formula that C reads in a text. -/
def CText.formula? (text : String) : Option CText.Formula :=
  (CText.split none text.toList).bind CText.parse

namespace Tree

open CText

variable {level : Operator → Bool}
variable {α : Type}

/- The operators of a chain, from left to right. -/
def Chain.signs : Chain level α → List Operator
| .single _ => []
| .join left sign _ => left.signs ++ [sign.1]

/- Expressions joined by orders. -/
abbrev Orders := Chain Operator.isOrder Expression

/- Chains of orders joined by equalities. -/
abbrev Equalities := Chain Operator.isEquality Orders

/- One more order belongs to the last chain of orders. -/
def Equalities.snoc
    (equalities : Equalities)
    (sign : Sign Operator.isOrder)
    (last : Expression) : Equalities :=
  match equalities with
  | .single orders => .single (.join orders sign last)
  | .join left equality orders =>
      .join left equality (.join orders sign last)

/- A chain of comparisons in the two levels of C. -/
def Comparands.regroup : Comparands → Equalities
| .single first => .single (.single first)
| .join left sign right =>
    if hOrder : sign.1.isOrder = true then
      Equalities.snoc (regroup left) ⟨sign.1, hOrder⟩ right
    else
      .join (regroup left)
        ⟨sign.1, Operator.isEquality_of_not_isOrder sign.2 hOrder⟩
        (.single right)

------------------------------------------------------------
-- Pieces and Formulas
------------------------------------------------------------

/- The pieces of a chain of comparisons. -/
def Comparands.pieces (comparands : Comparands) : List Piece :=
  Chain.pieces Expression.pieces comparands

/- The pieces of equalities between orders. -/
def Equalities.pieces (equalities : Equalities) : List Piece :=
  Chain.pieces (Chain.pieces Expression.pieces) equalities

/- The formula of a chain of comparisons, grouped from the left. -/
def Comparands.formula (comparands : Comparands) : Formula :=
  Chain.formula Expression.formula comparands

/- The formula of equalities between orders. -/
def Equalities.formula (equalities : Equalities) : Formula :=
  Chain.formula (Chain.formula Expression.formula) equalities

/- One more order comes after the pieces before it. -/
theorem Equalities.pieces_snoc
    (equalities : Equalities)
    (sign : Sign Operator.isOrder)
    (last : Expression) :
    (equalities.snoc sign last).pieces =
      equalities.pieces ++
        Sign.piece sign :: Expression.pieces last := by
  cases equalities with
  | single orders => rfl
  | join left equality orders =>
      simp [snoc, pieces, Chain.pieces]

/- To regroup a chain is not to move its pieces. -/
theorem Comparands.pieces_regroup (comparands : Comparands) :
    (regroup comparands).pieces = pieces comparands := by
  induction comparands with
  | single first => rfl
  | join left sign right ih =>
      rw [regroup]
      split
      · rw [Equalities.pieces_snoc, ih]
        rfl
      · change Equalities.pieces _ ++ _ = _
        rw [ih]
        rfl

/- C reads the pieces of a chain as equalities between orders. -/
theorem Comparands.parses (comparands : Comparands) :
    Parses 1 (pieces comparands)
      (regroup comparands).formula := by
  rw [← pieces_regroup]
  apply Chain.parses
  · intro sign
    rcases sign with ⟨sign, hSign⟩
    cases sign <;> first | rfl | cases hSign
  · decide
  · intro orders
    apply Chain.parses
    · intro sign
      rcases sign with ⟨sign, hSign⟩
      cases sign <;> first | rfl | cases hSign
    · decide
    · exact Expression.parses

------------------------------------------------------------
-- When the Groupings Agree
------------------------------------------------------------

/- After an equality there are only equalities. -/
def Comparands.EqualitiesLast (comparands : Comparands) : Prop :=
  (Chain.signs comparands).Pairwise fun earlier later =>
    earlier.isEquality = true → later.isEquality = true

/- Equalities with a single chain of orders come from orders. -/
theorem Comparands.isOrder_of_regroup
    {comparands : Comparands}
    {orders : Orders}
    (hSingle : regroup comparands = .single orders) :
    ∀ sign ∈ Chain.signs comparands, sign.isOrder = true := by
  induction comparands generalizing orders with
  | single first => simp [Chain.signs]
  | join left sign right ih =>
      rw [regroup] at hSingle
      split at hSingle
      · next hOrder =>
        cases hLeft : regroup left with
        | single before =>
            intro other hOther
            rcases List.mem_append.mp hOther with hIn | hIn
            · exact ih hLeft other hIn
            · rwa [List.mem_singleton.mp hIn]
        | join before equality last =>
            rw [hLeft] at hSingle
            cases hSingle
      · cases hSingle

/- Equalities with two chains of orders come from an equality. -/
theorem Comparands.isEquality_of_regroup
    {comparands : Comparands}
    {before : Equalities}
    {equality : Sign Operator.isEquality}
    {last : Orders}
    (hJoin : regroup comparands = .join before equality last) :
    equality.1 ∈ Chain.signs comparands := by
  induction comparands generalizing last with
  | single first => cases hJoin
  | join left sign right ih =>
      rw [regroup] at hJoin
      split at hJoin
      · cases hLeft : regroup left with
        | single orders =>
            rw [hLeft] at hJoin
            cases hJoin
        | join earlier other orders =>
            rw [hLeft] at hJoin
            cases hJoin
            exact List.mem_append_left _ (ih hLeft)
      · cases hJoin
        exact List.mem_append_right _ List.mem_cons_self

/- An order may follow orders only. -/
theorem Comparands.equalitiesLast_order_iff
    {left : Comparands}
    {sign : Sign compares}
    {right : Expression}
    (hOrder : sign.1.isOrder = true) :
    EqualitiesLast (.join left sign right) ↔
      EqualitiesLast left ∧
        ∀ other ∈ Chain.signs left,
          ¬ other.isEquality = true := by
  have hNot := Operator.not_isEquality_of_isOrder hOrder
  simp [EqualitiesLast, Chain.signs, List.pairwise_append, hNot]

/- An equality may follow anything. -/
theorem Comparands.equalitiesLast_equality_iff
    {left : Comparands}
    {sign : Sign compares}
    {right : Expression}
    (hEquality : sign.1.isEquality = true) :
    EqualitiesLast (.join left sign right) ↔
      EqualitiesLast left := by
  simp [EqualitiesLast, Chain.signs, List.pairwise_append,
    hEquality]

/-
  The formula that C reads is grouped from the left if and only
  if the equalities are last. Otherwise an order is the last
  operator in Teeny where C has an equality.
-/
theorem Comparands.formula_regroup_eq_iff
    (comparands : Comparands) :
    (regroup comparands).formula = formula comparands ↔
      EqualitiesLast comparands := by
  induction comparands with
  | single first =>
      exact iff_of_true rfl List.Pairwise.nil
  | join left sign right ih =>
      rw [regroup]
      split
      · next hOrder =>
        rw [equalitiesLast_order_iff hOrder, ← ih]
        cases hLeft : regroup left with
        | single orders =>
            have hOrders := isOrder_of_regroup hLeft
            have hNone :
                ∀ other ∈ Chain.signs left,
                  ¬ other.isEquality = true :=
              fun other hOther =>
                Operator.not_isEquality_of_isOrder
                  (hOrders other hOther)
            rw [and_iff_left hNone]
            change Formula.binary _ _ _ = .binary _ _ _ ↔ _
            simp [formula, Equalities.formula, Chain.formula]
        | join before equality last =>
            have hEquality := isEquality_of_regroup hLeft
            apply iff_of_false
            · intro hSame
              change
                Formula.binary _ _ _ = .binary _ _ _ at hSame
              have hSign := (Formula.binary.inj hSame).1
              have hNot :=
                Operator.not_isEquality_of_isOrder hOrder
              rw [← hSign] at hNot
              exact hNot equality.2
            · intro hBoth
              exact hBoth.2 _ hEquality equality.2
      · next hOrder =>
        have hEquality :=
          Operator.isEquality_of_not_isOrder sign.2 hOrder
        rw [equalitiesLast_equality_iff hEquality, ← ih]
        change Formula.binary _ _ _ = .binary _ _ _ ↔ _
        simp [formula, Equalities.formula, Chain.formula]

------------------------------------------------------------
-- Conditions
------------------------------------------------------------

namespace Comparison

/- The formula of a comparison, grouped from the left. -/
def formula (comparison : Comparison) : Formula :=
  Comparands.formula comparison.chain

/- The formula of a comparison in the two levels of C. -/
def regrouped (comparison : Comparison) : Formula :=
  (Comparands.regroup comparison.chain).formula

/- After an equality there are only equalities. -/
def EqualitiesLast (comparison : Comparison) : Prop :=
  Comparands.EqualitiesLast comparison.chain

/- A comparison is split into its operands and operators. -/
theorem splits
    {comparison : Comparison}
    (hSpelled : ∀ leaf ∈ comparison.leaves, leaf.Spelled) :
    Splits comparison.text.toList
      (Comparands.pieces comparison.chain) := by
  apply Chain.splits _ hSpelled
  intro expression hExpression
  exact Expression.splits hExpression

/- C reads the text of a comparison in its two levels. -/
theorem formula?_text
    {comparison : Comparison}
    (hSpelled : ∀ leaf ∈ comparison.leaves, leaf.Spelled) :
    CText.formula? comparison.text =
      some comparison.regrouped := by
  rw [CText.formula?, (splits hSpelled).split_eq,
    Option.bind_some, (Comparands.parses _).parse_eq]
  rfl

end Comparison

/- The conditions of blocks, in source order. -/
def Statements.conditions : Statements → List Comparison
| .done => []
| .simple _ rest => rest.conditions
| .block _ condition inner rest =>
    condition :: inner.conditions ++ rest.conditions

/- The leaves of conditions are among those of their program. -/
theorem Statements.Spells.leaves_of_condition
    {statements : Statements}
    {leaves : List Leaf}
    {condition : Comparison}
    (hSpells : statements.Spells leaves)
    (hCondition : condition ∈ statements.conditions) :
    condition.leaves ⊆ leaves := by
  intro leaf hLeaf
  induction hSpells with
  | done => cases hCondition
  | simple blanks _ ih => simp [ih hCondition]
  | block blanks later _ _ ihInner ihRest =>
      simp only [Statements.conditions, List.cons_append,
        List.mem_cons, List.mem_append] at hCondition
      rcases hCondition with hHere | hInner | hRest
      · simp [openingLeaves, ← hHere, hLeaf]
      · simp [ihInner hInner]
      · simp [ihRest hRest]

end Tree

open TeenyC.Tree

/- Every leaf of a program's conditions is well spelled. -/
theorem Cursor.Reads.condition_spelled
    {start : Cursor}
    {history : History}
    {program : Statements}
    {condition : Comparison}
    (hReads : start.Reads history program)
    (hCondition : condition ∈ program.conditions) :
    ∀ leaf ∈ condition.leaves, leaf.Spelled := by
  intro leaf hLeaf
  rcases hReads.spells with ⟨blanks, body, hLeaves, hBody⟩
  apply hReads.leaf_spelled
  rw [hLeaves]
  have hMember := hBody.leaves_of_condition hCondition hLeaf
  simp [hMember]

/-
  In a program that compiles, C reads the text of a condition in
  its two levels, and groups it from the left if and only if no
  order stands after an equality.
-/
theorem compile_groups_left_iff
    {source text : String}
    (hCompile : compile source = .ok text) :
    ∃ tokens program,
      tokenize source = .ok tokens ∧
        (∀ other : Statements,
          other.IsTreeOf tokens ↔ other = program) ∧
          text = program.generate ∧
            ∀ condition ∈ program.conditions,
              CText.formula? condition.text =
                  some condition.regrouped ∧
                (CText.formula? condition.text =
                    some condition.formula ↔
                  condition.EqualitiesLast) := by
  rcases reads_of_compile hCompile with
    ⟨history, program, hReads, _, hText⟩
  refine
    ⟨history.tokens, program, hReads.tokenize_eq,
      hReads.isTreeOf.iff_eq, hText, ?_⟩
  intro condition hCondition
  have hFormula :=
    Comparison.formula?_text
      (hReads.condition_spelled hCondition)
  refine ⟨hFormula, ?_⟩
  rw [hFormula, Option.some.injEq]
  exact Comparands.formula_regroup_eq_iff condition.chain

/- A program with an order before an equality. -/
theorem compile_groups_left_order_first :
    ∃ text, compile "IF 1 < 2 == 3 THEN\nENDIF" = .ok text ∧
      ∃ tokens program,
        tokenize "IF 1 < 2 == 3 THEN\nENDIF" = .ok tokens ∧
          (∀ other : Statements,
            other.IsTreeOf tokens ↔ other = program) ∧
            text = program.generate ∧
              ∀ condition ∈ program.conditions,
                CText.formula? condition.text =
                    some condition.regrouped ∧
                  (CText.formula? condition.text =
                      some condition.formula ↔
                    condition.EqualitiesLast) := by
  have hCompile :
      compile "IF 1 < 2 == 3 THEN\nENDIF" =
        .ok
          ("#include <stdio.h>\nint main(void)\x7b\n" ++
            "if(1 < 2 == 3)\x7b\n\x7d\nreturn 0;\n\x7d\n") := by
    decide +kernel
  exact ⟨_, hCompile, compile_groups_left_iff hCompile⟩

/-
  A program that asks whether two equal numbers being equal is
  less than three: C compares the first number with whether the
  second is less than three.
-/
theorem compile_equality_before_order :
    ∃ tokens program condition,
      compile "IF 2 == 2 < 3 THEN\nENDIF" =
          .ok program.generate ∧
        tokenize "IF 2 == 2 < 3 THEN\nENDIF" = .ok tokens ∧
          (∀ other : Statements,
            other.IsTreeOf tokens ↔ other = program) ∧
            condition ∈ program.conditions ∧
              condition.text = "2 == 2 < 3" ∧
                condition.formula =
                    .binary .less
                      (.binary .equal (.number ['2'])
                        (.number ['2']))
                      (.number ['3']) ∧
                  CText.formula? condition.text =
                    some
                      (.binary .equal (.number ['2'])
                        (.binary .less (.number ['2'])
                          (.number ['3']))) := by
  let number (text : String) : Expression :=
    .single (.single { sign := none, operand := .number text })
  let condition : Comparison :=
    { left := .join (.single (number "2")) ⟨.equal, rfl⟩ (number "2")
      sign := ⟨.less, rfl⟩
      right := number "3" }
  let program : Statements :=
    .block .conditional condition .done .done
  have hTokens :
      tokenize "IF 2 == 2 < 3 THEN\nENDIF" =
        .ok
          [{ kind := .keyword .ifKw, text := "IF", line := 1 },
            { kind := .number, text := "2", line := 1 },
            { kind := .operator .equal, text := "==", line := 1 },
            { kind := .number, text := "2", line := 1 },
            { kind := .operator .less, text := "<", line := 1 },
            { kind := .number, text := "3", line := 1 },
            { kind := .keyword .thenKw, text := "THEN", line := 1 },
            { kind := .newline, text := "\n", line := 1 },
            { kind := .keyword .endIf, text := "ENDIF", line := 2 },
            { kind := .newline, text := "\n", line := 2 },
            { kind := .eof, text := "", line := 3 }] := by
    decide +kernel
  have hSpells :
      program.SpellsProgram
        [.keyword .ifKw, .number "2", .sign .equal, .number "2",
          .sign .less, .number "3", .keyword .thenKw, .newline,
          .keyword .endIf, .newline, .finish] :=
    ⟨0, _, rfl, .block 0 0 .done .done⟩
  refine
    ⟨_, program, condition, by decide +kernel, hTokens, ?_,
      .head _, by decide +kernel, by decide +kernel,
      by decide +kernel⟩
  apply Statements.IsTreeOf.iff_eq
  exact ⟨_, hSpells, by decide⟩

end TeenyC
