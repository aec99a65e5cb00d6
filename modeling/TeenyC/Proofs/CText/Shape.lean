import TeenyC.Proofs.CText.Grouping

/-
  The shape of expressions in C.

  An expression is written between blanks, parentheses and
  semicolons, so C splits it as if it stood alone: into the
  operands and operators that Teeny read, in the same order.
  These make a formula that belongs to no other expression.

  Key definitions include:
    * `CText.SplitsWithin`
    * `CText.Seats`
    * `Leaf.piece?`

  Key theorems include:
    * `CText.split_separator`
    * `Tree.Expression.formula_injective`
    * `Tree.Statements.seats_generate`
    * `compile_keeps_shape`
-/

namespace TeenyC

namespace CText

------------------------------------------------------------
-- Separators
------------------------------------------------------------

/- What may stand right before and right after an expression. -/
def isSeparator (ch : Char) : Bool :=
  ch == ' ' || ch == '(' || ch == ')' || ch == ';'

/-
  The text is split into the pieces wherever it is written: what
  is open before it ends there, and what stands around it is
  split on its own.
-/
def SplitsWithin
    (text : List Char)
    (pieces : List Piece) : Prop :=
  ∀ opened first last rest,
    opened ≠ some (.mark []) →
      isSeparator first = true →
        isSeparator last = true →
          split opened (first :: (text ++ last :: rest)) =
            (split none (last :: rest)).map
              (opened.toList ++ (Piece.begin? first).toList ++
                pieces ++ ·)

/- The part is written in the whole, between separators. -/
def Seats (whole part : List Char) : Prop :=
  ∃ before first last after,
    whole = before ++ first :: (part ++ last :: after) ∧
      isSeparator first = true ∧ isSeparator last = true

namespace Piece

variable {piece longer : Piece}
variable {ch : Char}

/- A piece that goes on has a text. -/
theorem ne_of_extend?
    (hExtends : piece.extend? ch = some longer) :
    longer ≠ .mark [] := by
  intro hEmpty
  subst hEmpty
  cases piece <;> simp [extend?] at hExtends
  split at hExtends <;> simp at hExtends

/- A piece that starts has a text. -/
theorem ne_of_begin?
    (hBegins : begin? ch = some piece) :
    piece ≠ .mark [] := by
  intro hEmpty
  subst hEmpty
  unfold begin? at hBegins
  split at hBegins
  · cases hBegins
  · split at hBegins
    · cases hBegins
    · split at hBegins <;> cases hBegins

/- No piece goes on with a separator. -/
theorem extend?_separator
    (hText : piece ≠ .mark [])
    (hSeparator : isSeparator ch = true) :
    piece.extend? ch = none := by
  have hCh := hSeparator
  simp only [isSeparator, Bool.or_eq_true, beq_iff_eq] at hCh
  cases piece with
  | number text =>
      rcases hCh with ((hCh | hCh) | hCh) | hCh <;>
        · subst hCh
          rfl
  | name text =>
      rcases hCh with ((hCh | hCh) | hCh) | hCh <;>
        · subst hCh
          rfl
  | mark text =>
      have hAlone :
          marks.all (fun mark =>
              mark.length == 1 ||
                mark.getLast?.all (!isSeparator ·)) =
            true := by
        decide
      have hNoMark :
          ¬ marks.contains (text ++ [ch]) = true := by
        intro hMark
        have hEnd :=
          List.all_eq_true.mp hAlone _
            (List.contains_iff_mem.mp hMark)
        have hSome : text ≠ [] := by
          intro hNil
          exact hText (by rw [hNil])
        simp [hSome, hSeparator] at hEnd
      have hPoint : ¬ (text = ['.'] ∧ ch.isDigit = true) := by
        intro hBoth
        rcases hCh with ((hCh | hCh) | hCh) | hCh <;>
          · rw [hCh] at hBoth
            exact absurd hBoth.2 (by decide)
      rw [extend?, if_neg hPoint, if_neg hNoMark]

/- A separator goes on with nothing. -/
theorem extend?_of_separator
    (hSeparator : isSeparator ch = true)
    (next : Char) :
    (mark [ch]).extend? next = none := by
  have hAlone :
      marks.all (fun mark =>
          mark.length == 1 ||
            mark.head?.all (!isSeparator ·)) =
        true := by
    decide
  have hNoMark : ¬ marks.contains ([ch] ++ [next]) = true := by
    intro hMark
    have hStart :=
      List.all_eq_true.mp hAlone _
        (List.contains_iff_mem.mp hMark)
    simp [hSeparator] at hStart
  have hPoint : ¬ ([ch] = ['.'] ∧ next.isDigit = true) := by
    intro hBoth
    rw [List.singleton_inj.mp hBoth.1] at hSeparator
    cases hSeparator
  rw [extend?, if_neg hPoint, if_neg hNoMark]

end Piece

variable {opened : Option Piece}
variable {text rest : List Char}
variable {ch : Char}

/-
  What stands before a separator is split as if nothing followed.
-/
theorem split_separator
    (hOpened : opened ≠ some (.mark []))
    (hSeparator : isSeparator ch = true) :
    split opened (text ++ ch :: rest) =
      (split opened text).bind fun pieces =>
        (split none (ch :: rest)).map (pieces ++ ·) := by
  -- The piece that is open changes from character to character.
  induction text generalizing opened with
  | nil =>
      cases opened with
      | none => simp [split]
      | some piece =>
          have hText : piece ≠ .mark [] :=
            fun hEmpty => hOpened (by rw [hEmpty])
          rw [List.nil_append,
            split_after
              (Piece.extend?_separator hText hSeparator)]
          rfl
  | cons next text ih =>
      rw [List.cons_append, split, split]
      cases hNext : opened.bind fun piece => piece.extend? next with
      | some longer =>
          rcases Option.bind_eq_some_iff.mp hNext with
            ⟨piece, _, hExtends⟩
          apply ih
          simpa using Piece.ne_of_extend? hExtends
      | none =>
          by_cases hBlank : isBlank next = true
          · simp only [hBlank, if_true]
            rw [ih (by simp)]
            cases split none text <;>
              simp [Function.comp_def]
          · simp only [hBlank, Bool.false_eq_true, if_false]
            cases hFirst : Piece.begin? next with
            | none => rfl
            | some first =>
                rw [Option.bind_some, Option.bind_some,
                  ih (by simpa using Piece.ne_of_begin? hFirst)]
                cases split (some first) text <;>
                  simp [Function.comp_def]

/- What stands after a separator is split on its own. -/
theorem split_of_separator
    (hSeparator : isSeparator ch = true)
    (rest : List Char) :
    split none (ch :: rest) =
      (split none rest).map ((Piece.begin? ch).toList ++ ·) := by
  have hMark (hSpelt : Piece.Spelt [ch] (.mark [ch])) :
      split none (ch :: rest) =
        (split none rest).map ([.mark [ch]] ++ ·) := by
    rw [← List.singleton_append, split_spelt hSpelt]
    cases rest with
    | nil => rfl
    | cons next rest =>
        exact
          split_after (Piece.extend?_of_separator hSeparator next)
  have hCh := hSeparator
  simp only [isSeparator, Bool.or_eq_true, beq_iff_eq] at hCh
  rcases hCh with ((hCh | hCh) | hCh) | hCh
  · subst hCh
    rfl
  · subst hCh
    exact hMark ⟨rfl, rfl, rfl⟩
  · subst hCh
    exact hMark ⟨rfl, rfl, rfl⟩
  · subst hCh
    exact hMark ⟨rfl, rfl, rfl⟩

/- What is split into pieces alone is split so in its place. -/
theorem Splits.within
    {pieces : List Piece}
    (hText : Splits text pieces) :
    SplitsWithin text pieces := by
  intro opened first last rest hOpened hFirst hLast
  have hBefore :=
    @split_separator opened [] (text ++ last :: rest) first
      hOpened hFirst
  rw [List.nil_append] at hBefore
  rw [hBefore, split_of_separator hFirst,
    split_separator (by simp) hLast, hText.split_eq, split,
    Option.bind_some, Option.bind_some, Option.map_map,
    Option.map_map]
  congr 1
  funext later
  simp

namespace Seats

variable {whole part : List Char}

/- What is written in a part of a text is written in the text. -/
theorem widen
    {inner : List Char}
    (hSeats : Seats inner part)
    (hInner : inner <:+: whole) :
    Seats whole part := by
  rcases hSeats with
    ⟨before, first, last, after, hWhole, hFirst, hLast⟩
  rcases hInner with ⟨left, right, hWider⟩
  refine
    ⟨left ++ before, first, last, after ++ right, ?_, hFirst,
      hLast⟩
  rw [← hWider, hWhole]
  simp

/- A part is written between separators. -/
theorem of_around
    {first last : Char}
    (hFirst : isSeparator first = true)
    (hLast : isSeparator last = true) :
    Seats (first :: (part ++ [last])) part :=
  ⟨[], first, last, [], rfl, hFirst, hLast⟩

end Seats

end CText

open CText

namespace Tree

variable {level : Operator → Bool}
variable {α : Type}

------------------------------------------------------------
-- Places in the C Text
------------------------------------------------------------

/- Every item of a chain is written in the text of the chain. -/
theorem Chain.seats_item
    {text : α → String}
    {item : α}
    {first last : Char}
    (hFirst : isSeparator first = true)
    (hLast : isSeparator last = true)
    {chain : Chain level α}
    (hItem : item ∈ chain.items) :
    Seats (first :: ((chain.text text).toList ++ [last]))
      (text item).toList := by
  induction chain generalizing last with
  | single only =>
      rw [List.mem_singleton.mp hItem]
      exact .of_around hFirst hLast
  | join left sign right ih =>
      have hBlank : isSeparator ' ' = true := rfl
      rcases List.mem_append.mp hItem with hLeft | hRight
      · apply (ih hBlank hLeft).widen
        refine
          ⟨[], sign.1.spelling.toList ++ ' ' ::
            ((text right).toList ++ [last]), ?_⟩
        simp [Chain.text]
      · rw [List.mem_singleton.mp hRight]
        apply (Seats.of_around hBlank hLast).widen
        refine
          ⟨first :: ((left.text text).toList ++ ' ' ::
            sign.1.spelling.toList), [], ?_⟩
        simp [Chain.text]

/- The condition of a block is written in its first line. -/
theorem Comparison.seats_item
    {condition : Comparison}
    {expression : Expression}
    (kind : Block)
    (hItem : expression ∈ condition.chain.items) :
    Seats
      (codeLine
        (kind.head ++ condition.text ++ ")\x7b")).toList
      (Expression.text expression).toList := by
  have hFirst : isSeparator '(' = true := rfl
  have hLast : isSeparator ')' = true := rfl
  apply (Chain.seats_item hFirst hLast hItem).widen
  cases kind with
  | conditional =>
      refine ⟨"if".toList, "\x7b\n".toList, ?_⟩
      simp [codeLine, Block.head, Comparison.text]
  | repetition =>
      refine ⟨"while".toList, "\x7b\n".toList, ?_⟩
      simp [codeLine, Block.head, Comparison.text]

/- The expression of a statement is written in its text. -/
theorem Simple.seats_expression
    {simple : Simple}
    {expression : Expression}
    (hExpression : simple.expression? = some expression) :
    Seats simple.text.toList
      (Expression.text expression).toList := by
  have hParenthesis : isSeparator '(' = true := rfl
  have hBlank : isSeparator ' ' = true := rfl
  cases simple with
  | printValue value =>
      cases hExpression
      have hLast : isSeparator ')' = true := rfl
      apply (Seats.of_around hParenthesis hLast).widen
      refine
        ⟨"printf(\"%.2f\\n\", (float)".toList, ");\n".toList,
          ?_⟩
      simp [Simple.text, codeLine]
  | assign name value =>
      cases hExpression
      have hLast : isSeparator ';' = true := rfl
      apply (Seats.of_around hBlank hLast).widen
      refine ⟨name.toList ++ " =".toList, "\n".toList, ?_⟩
      simp [Simple.text, codeLine]
  | printText contents => cases hExpression
  | label name => cases hExpression
  | jump name => cases hExpression
  | input name => cases hExpression

/- The expressions of statements are written in their text. -/
theorem Statements.seats_expression
    {statements : Statements}
    {expression : Expression}
    (hExpression : expression ∈ statements.expressions) :
    Seats statements.text.toList
      (Expression.text expression).toList := by
  induction statements with
  | done => cases hExpression
  | simple first rest ih =>
      rw [text, String.toList_append]
      rcases List.mem_append.mp hExpression with hHere | hRest
      · have hFirst :=
          Simple.seats_expression (Option.mem_toList.mp hHere)
        exact hFirst.widen (List.prefix_append _ _).isInfix
      · exact (ih hRest).widen (List.suffix_append _ _).isInfix
  | block kind condition inner rest ihInner ihRest =>
      simp only [expressions, List.mem_append] at hExpression
      simp only [text, String.toList_append]
      rcases hExpression with (hHere | hInner) | hRest
      · have hLine := Comparison.seats_item kind hHere
        apply hLine.widen
        simp only [List.append_assoc]
        exact (List.prefix_append _ _).isInfix
      · apply (ihInner hInner).widen
        simp only [List.append_assoc]
        exact List.infix_append' _ _ _
      · exact
          (ihRest hRest).widen (List.suffix_append _ _).isInfix

/- The expressions of a program are written in its C program. -/
theorem Statements.seats_generate
    {program : Statements}
    {expression : Expression}
    (hExpression : expression ∈ program.expressions) :
    Seats program.generate.toList
      (Expression.text expression).toList := by
  apply (Statements.seats_expression hExpression).widen
  simp only [generate, String.toList_append]
  exact List.infix_append _ _ _

end Tree

------------------------------------------------------------
-- Pieces of Leaves
------------------------------------------------------------

/- The piece of C that a leaf of an expression is. -/
def Leaf.piece? : Leaf → Option Piece
| .number text => some (.number text.toList)
| .operand name => some (.name name.toList)
| .sign operator => some (.mark operator.spelling.toList)
| .finish | .newline | .literal _ | .keyword _ | .target _
| .label _ | .jump _ => none

/- Of leaves that are pieces each is one. -/
theorem Leaf.exists_piece
    {leaves : List Leaf}
    {pieces : List Piece}
    {leaf : Leaf}
    (hPieces : pieces.map some = leaves.map Leaf.piece?)
    (hLeaf : leaf ∈ leaves) :
    ∃ piece, leaf.piece? = some piece := by
  have hPiece : leaf.piece? ∈ pieces.map some := by
    rw [hPieces]
    exact List.mem_map_of_mem hLeaf
  rcases List.mem_map.mp hPiece with ⟨piece, _, hSame⟩
  exact ⟨piece, hSame.symm⟩

namespace Tree

/- The pieces of a factor are those of its leaves. -/
theorem Factor.map_pieces (factor : Factor) :
    factor.pieces.map some = factor.leaves.map Leaf.piece? := by
  rcases factor with ⟨sign, text | name⟩ <;>
    cases sign <;> rfl

/- The pieces of a chain are those of its leaves. -/
theorem Chain.map_pieces
    {pieces : α → List Piece}
    {leaves : α → List Leaf}
    (hItem :
      ∀ a, (pieces a).map some = (leaves a).map Leaf.piece?)
    (chain : Chain level α) :
    (chain.pieces pieces).map some =
      (chain.leaves leaves).map Leaf.piece? := by
  induction chain with
  | single first => exact hItem first
  | join left sign right ih =>
      rw [Chain.pieces, Chain.leaves, List.map_append,
        List.map_append, List.map_cons, List.map_cons, ih, hItem]
      rfl

/- The pieces of an expression are those of its leaves. -/
theorem Expression.map_pieces (expression : Expression) :
    (Expression.pieces expression).map some =
      (Expression.leaves expression).map Leaf.piece? := by
  apply Chain.map_pieces
  intro term
  apply Chain.map_pieces
  exact Factor.map_pieces

------------------------------------------------------------
-- Trees of Formulas
------------------------------------------------------------

/- A formula that joins two others by an operator of a level. -/
def Joins
    (level : Operator → Bool)
    (formula : Formula) : Prop :=
  ∃ sign left right,
    formula = .binary sign left right ∧ level sign = true

/- The formula of a factor is its own. -/
theorem Factor.formula_injective :
    Function.Injective Factor.formula := by
  intro factor other hSame
  rcases factor with ⟨sign, text | name⟩ <;>
    rcases other with ⟨sign', text' | name'⟩ <;>
    cases sign <;> cases sign' <;>
    simp_all [Factor.formula, Operand.formula,
      Subtype.val_inj, String.toList_inj]

/- The formula of a factor joins no others. -/
theorem Factor.not_joins
    (factor : Factor)
    (level : Operator → Bool) :
    ¬ Joins level factor.formula := by
  intro hJoins
  rcases hJoins with ⟨sign, left, right, hFormula, _⟩
  rcases factor with ⟨before, text | name⟩ <;>
    cases before <;> cases hFormula

/-
  The formula of a chain is its own, if those of its items are,
  and join nothing by the operators of the chain.
-/
theorem Chain.formula_injective
    {formula : α → Formula}
    (hItem : Function.Injective formula)
    (hApart : ∀ a, ¬ Joins level (formula a)) :
    Function.Injective (@Chain.formula level α formula) := by
  intro chain other hSame
  -- A single item is no chain of several: it joins nothing.
  induction chain generalizing other with
  | single first =>
      cases other with
      | single first' => rw [hItem hSame]
      | join left' sign' right' =>
          exact absurd ⟨_, _, _, hSame, sign'.2⟩ (hApart first)
  | join left sign right ih =>
      cases other with
      | single first' =>
          exact
            absurd ⟨_, _, _, hSame.symm, sign.2⟩ (hApart first')
      | join left' sign' right' =>
          rcases Formula.binary.inj hSame with
            ⟨hSign, hLeft, hRight⟩
          rw [ih hLeft, Subtype.ext hSign, hItem hRight]

/- The formula of a chain joins others by its operators only. -/
theorem Chain.not_joins
    {formula : α → Formula}
    {other : Operator → Bool}
    (hItem : ∀ a, ¬ Joins other (formula a))
    (hApart : ∀ sign : Sign level, ¬ other sign.1 = true)
    (chain : Chain level α) :
    ¬ Joins other (chain.formula formula) := by
  cases chain with
  | single first => exact hItem first
  | join left sign right =>
      intro hJoins
      rcases hJoins with ⟨sign', _, _, hFormula, hLevel⟩
      have hSign := (Formula.binary.inj hFormula).1
      rw [← hSign] at hLevel
      exact hApart sign hLevel

/- The formula of an expression is its own. -/
theorem Expression.formula_injective :
    Function.Injective Expression.formula := by
  apply Chain.formula_injective
  · apply Chain.formula_injective Factor.formula_injective
    intro factor
    exact factor.not_joins _
  · apply Chain.not_joins
    · intro factor
      exact factor.not_joins _
    · intro sign
      rcases sign with ⟨sign, hSign⟩
      change ¬ sign.isAdditive = true
      cases sign <;> first | decide | cases hSign

/- C reads the text of an expression as its formula. -/
theorem Expression.formula?_text
    {expression : Expression}
    (hSpelled :
      ∀ leaf ∈ Expression.leaves expression, leaf.Spelled) :
    CText.formula? (Expression.text expression) =
      some (Expression.formula expression) := by
  rw [CText.formula?, (Expression.splits hSpelled).split_eq,
    Option.bind_some, (Expression.parses expression).parse_eq]

end Tree

open TeenyC.Tree

------------------------------------------------------------
-- Compiled Expressions
------------------------------------------------------------

/-
  The expression keeps its shape in a C text: its words stand
  together among the tokens, and its text in the C text. C splits
  it into just these words, in its place as well as alone, and
  reads it as the formula of this expression and of no other.
-/
structure Tree.Expression.KeepsShape
    (expression : Expression)
    (tokens : List Token)
    (text : String) : Prop where
  together :
    (Expression.leaves expression).map Leaf.word <:+:
      tokens.map Token.word
  seated :
    Seats text.toList (Expression.text expression).toList
  pieces :
    ∃ pieces,
      pieces.map some =
          (Expression.leaves expression).map Leaf.piece? ∧
        split none (Expression.text expression).toList =
            some pieces ∧
          SplitsWithin (Expression.text expression).toList pieces
  formula :
    CText.formula? (Expression.text expression) =
      some (Expression.formula expression)
  alone :
    ∀ other,
      CText.formula? (Expression.text expression) =
          some (Expression.formula other) ↔
        other = expression

/- An expression that is read keeps its shape. -/
theorem Cursor.Reads.keepsShape
    {start : Cursor}
    {history : History}
    {program : Statements}
    {expression : Expression}
    (hReads : start.Reads history program)
    (hExpression : expression ∈ program.expressions) :
    Expression.KeepsShape expression history.tokens
      program.generate := by
  have hSpelled := hReads.expression_spelled hExpression
  have hSplits := Expression.splits hSpelled
  have hFormula := Expression.formula?_text hSpelled
  have hLeaves :=
    hReads.spells.leaves_of_expression hExpression
  constructor
  · rw [← history.words_eq]
    exact hLeaves.map Leaf.word
  · exact Statements.seats_generate hExpression
  · exact
      ⟨Expression.pieces expression,
        Expression.map_pieces expression, hSplits.split_eq,
        hSplits.within⟩
  · exact hFormula
  · intro other
    rw [hFormula, Option.some.injEq,
      Expression.formula_injective.eq_iff, eq_comm]

/-
  In a program that compiles every expression keeps its shape:
  no two of its words fuse, and they nest as in Teeny.
-/
theorem compile_keeps_shape
    {source text : String}
    (hCompile : compile source = .ok text) :
    ∃ tokens program,
      tokenize source = .ok tokens ∧
        (∀ other : Statements,
          other.IsTreeOf tokens ↔ other = program) ∧
          text = program.generate ∧
            ∀ expression ∈ program.expressions,
              Expression.KeepsShape expression tokens text := by
  rcases reads_of_compile hCompile with
    ⟨history, program, hReads, _, hText⟩
  subst hText
  exact
    ⟨history.tokens, program, hReads.tokenize_eq,
      hReads.isTreeOf.iff_eq, rfl, fun _ => hReads.keepsShape⟩

/- Signs after operators stay signs. -/
theorem compile_keeps_shape_signs :
    ∃ text, compile "LET a = 1 - -a / +2.5 - 3" = .ok text ∧
      ∃ tokens program,
        tokenize "LET a = 1 - -a / +2.5 - 3" = .ok tokens ∧
          (∀ other : Statements,
            other.IsTreeOf tokens ↔ other = program) ∧
            text = program.generate ∧
              ∀ expression ∈ program.expressions,
                Expression.KeepsShape expression tokens
                  text := by
  have hCompile :
      compile "LET a = 1 - -a / +2.5 - 3" =
        .ok
          ("#include <stdio.h>\nint main(void)\x7b\n" ++
            "float a;\na = 1 - -a / +2.5 - 3;\n" ++
            "return 0;\n\x7d\n") := by
    decide +kernel
  exact ⟨_, hCompile, compile_keeps_shape hCompile⟩

end TeenyC
