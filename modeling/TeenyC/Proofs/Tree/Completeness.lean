import TeenyC.Proofs.Tree.Draft

/-
  A draft reads every spelling of every tree.

  Each piece of a tree has a path: from the spot where the piece
  may begin, along its leaves, to the spot after it.

  Key theorems include:
    * `Tree.Draft.path_term`
    * `Tree.Draft.path_expression`
    * `Tree.Draft.path_comparands`
    * `Tree.Draft.path_simple`
    * `Tree.Draft.path_statements`
    * `Tree.Draft.path_program`
-/

namespace TeenyC

namespace Tree

/- Appending statements is associative. -/
theorem Statements.append_assoc
    (first second third : Statements) :
    (first.append second).append third =
      first.append (second.append third) := by
  induction first with
  | done => rfl
  | simple statement rest ih => simp [append, ih]
  | block kind condition inner rest _ ih => simp [append, ih]

/- Appending no statements changes nothing. -/
theorem Statements.append_done
    (statements : Statements) :
    statements.append .done = statements := by
  induction statements with
  | done => rfl
  | simple statement rest ih => simp [append, ih]
  | block kind condition inner rest _ ih => simp [append, ih]

namespace Draft

variable {draft : Draft}
variable {site : Site}
variable {sum : Lead adds Term}

------------------------------------------------------------
-- Expressions
------------------------------------------------------------

/- An operand is taken, whatever stands before it. -/
theorem takes_operand
    (draft : Draft)
    (site : Site)
    (sum : Lead adds Term)
    (product : Lead multiplies Factor)
    (sign : Option (Sign adds))
    (operand : Operand) :
    (draft.move (.operand site sum product sign)).Takes
      operand.leaf
      (draft.move
        (.joint site sum
          (.extend product
            { sign := sign, operand := operand }))) := by
  cases operand <;> rfl

/- A sign is taken before its operand. -/
theorem takes_sign
    (draft : Draft)
    (site : Site)
    (sum : Lead adds Term)
    (product : Lead multiplies Factor)
    (sign : Sign adds) :
    (draft.move (.operand site sum product none)).Takes
      (.sign sign.1)
      (draft.move (.operand site sum product (some sign))) :=
  dif_pos sign.2

/- A factor is read, whatever stands before it. -/
theorem path_factor
    (product : Lead multiplies Factor)
    (factor : Factor) :
    Path (draft.move (.operand site sum product none))
      factor.leaves
      (draft.move (.joint site sum (.extend product factor))) := by
  rcases factor with ⟨- | sign, operand⟩
  · exact (takes_operand draft site sum product none operand).path
  · exact
      .cons (takes_sign draft site sum product sign)
        (takes_operand draft site sum product (some sign)
          operand).path

/- A multiplicative operator is taken after a factor. -/
theorem takes_multiplicative
    (term : Term)
    (sign : Sign multiplies) :
    (draft.move (.joint site sum term)).Takes
      (.sign sign.1)
      (draft.move (.operand site sum (some (term, sign)) none)) :=
  dif_pos sign.2

/- A term is read where one may begin. -/
theorem path_term (term : Term) :
    Path (draft.move (.operand site sum none none))
      (Term.leaves term)
      (draft.move (.joint site sum term)) := by
  induction term with
  | single factor => exact path_factor none factor
  | join left sign factor ih =>
      exact
        ih.append
          (.cons (takes_multiplicative left sign)
            (path_factor (some (left, sign)) factor))

/- An additive operator is not a multiplicative one. -/
theorem multiplies_of_adds
    {op : Operator}
    (hLevel : adds op = true) :
    multiplies op = false := by
  cases op <;> simp_all [adds, multiplies]

/- An additive operator is taken after a term. -/
theorem takes_additive
    (term : Term)
    (sign : Sign adds) :
    (draft.move (.joint site sum term)).Takes
      (.sign sign.1)
      (draft.move
        (.operand site (some (.extend sum term, sign))
          none none)) := by
  have hOther := multiplies_of_adds sign.2
  simp [Takes, read, move, readJoint, Leaf.word, Leaf.kind,
    hOther, sign.2]

/-
  An expression is read where one may begin. Its last term stays
  apart, since the term may go on.
-/
theorem path_expression
    (draft : Draft)
    (site : Site)
    (expression : Expression) :
    ∃ sum term,
      expression = .extend sum term ∧
        Path (draft.move (.operand site none none none))
          (Expression.leaves expression)
          (draft.move (.joint site sum term)) := by
  induction expression with
  | single term => exact ⟨none, term, rfl, path_term term⟩
  | join left sign term ih =>
      rcases ih with ⟨sum, last, hLeft, hPath⟩
      refine ⟨some (left, sign), term, rfl, ?_⟩
      rw [hLeft] at hPath ⊢
      exact
        hPath.append
          (.cons (takes_additive last sign) (path_term term))

/- A comparing operator joins nothing within an expression. -/
theorem not_arithmetic_of_compares
    {op : Operator}
    (hLevel : compares op = true) :
    multiplies op = false ∧ adds op = false := by
  cases op <;> simp_all [compares, adds, multiplies]

/- A comparing operator is taken after an expression. -/
theorem takes_comparison
    (kind : Block)
    (lead : Lead compares Expression)
    (term : Term)
    (sign : Sign compares) :
    (draft.move (.joint (.condition kind lead) sum term)).Takes
      (.sign sign.1)
      (draft.move
        (.operand
          (.condition kind
            (some (.extend lead (.extend sum term), sign)))
          none none none)) := by
  obtain ⟨hMul, hAdd⟩ := not_arithmetic_of_compares sign.2
  simp [Takes, read, move, readJoint, readExpressionEnd,
    Leaf.word, Leaf.kind, hMul, hAdd, sign.2]

/- The operands of a comparison are read where one may begin. -/
theorem path_comparands
    (draft : Draft)
    (kind : Block)
    (comparands : Comparands) :
    ∃ lead sum term,
      comparands = .extend lead (.extend sum term) ∧
        Path
          (draft.move
            (.operand (.condition kind none) none none none))
          (comparands.leaves Expression.leaves)
          (draft.move
            (.joint (.condition kind lead) sum term)) := by
  induction comparands with
  | single expression =>
      rcases path_expression draft (.condition kind none)
          expression with
        ⟨sum, term, hLast, hPath⟩
      exact ⟨none, sum, term, by rw [hLast]; rfl, hPath⟩
  | join left sign expression ih =>
      rcases ih with ⟨lead, sum, term, hLeft, hPath⟩
      rcases path_expression draft
          (.condition kind (some (left, sign))) expression with
        ⟨sum', term', hLast, hPath'⟩
      refine
        ⟨some (left, sign), sum', term', by rw [hLast]; rfl, ?_⟩
      rw [hLeft] at hPath hPath' ⊢
      exact
        hPath.append
          (.cons (takes_comparison kind lead term sign) hPath')

------------------------------------------------------------
-- Lines
------------------------------------------------------------

/- Blank lines are passed at the margin. -/
theorem path_newlines
    (draft : Draft)
    (hMargin : draft.spot = .margin)
    (count : Nat) :
    Path draft (newlines count) draft := by
  induction count with
  | zero => exact .nil
  | succ count ih =>
      refine .cons ?_ ih
      simp [Takes, read, hMargin, readMargin, Leaf.word,
        Leaf.kind]

/- A word that begins a line closes no block. -/
theorem outer?_of_begun
    {word : Keyword}
    {spot : Spot}
    (hBegun : Spot.begun? word = some spot)
    (blocks : List Block) :
    Block.outer? blocks (.keyword word) = none := by
  rcases blocks with - | ⟨block, outer⟩
  · rfl
  · cases block <;> cases word <;>
      simp_all [Spot.begun?, Block.outer?, Block.closer]

/- The first word of a line is taken at the margin. -/
theorem takes_begun
    (hMargin : draft.spot = .margin)
    {word : Keyword}
    {spot : Spot}
    (hBegun : Spot.begun? word = some spot) :
    draft.Takes (.keyword word) (draft.move spot) := by
  have hOuter := outer?_of_begun hBegun draft.blocks
  simp [Takes, read, hMargin, readMargin, Leaf.word,
    Leaf.kind, hOuter, hBegun]

/- A line break is taken after an expression that is printed. -/
theorem takes_newline_print (term : Term) :
    (draft.move (.joint .print sum term)).Takes .newline
      (draft.add (.printValue (.extend sum term))) := rfl

/- A line break is taken after an expression that is assigned. -/
theorem takes_newline_assign
    (name : String)
    (term : Term) :
    (draft.move (.joint (.assign name) sum term)).Takes .newline
      (draft.add (.assign name (.extend sum term))) := rfl

/- A chain has leaves if its items have. -/
theorem chain_leaves_ne_nil
    {level : Operator → Bool}
    {α : Type}
    {item : α → List Leaf}
    (hItem : ∀ a, item a ≠ [])
    (chain : Chain level α) :
    chain.leaves item ≠ [] := by
  cases chain with
  | single first => exact hItem first
  | join left sign right => simp [Chain.leaves]

/- An expression has leaves. -/
theorem expression_leaves_ne_nil (expression : Expression) :
    Expression.leaves expression ≠ [] := by
  refine chain_leaves_ne_nil ?_ expression
  apply chain_leaves_ne_nil
  intro factor
  simp [Factor.leaves]

/- An expression may begin where a string might. -/
theorem path_printed
    {leaves : List Leaf}
    {last : Draft}
    (hPath :
      Path (draft.move (.operand .print none none none))
        leaves last)
    (hSome : leaves ≠ []) :
    Path (draft.move .printed) leaves last := by
  cases hPath with
  | nil => exact absurd rfl hSome
  | @cons _ second _ leaf more hTakes hMore =>
      refine .cons ?_ hMore
      by_cases hText : leaf.kind = .string
      · simp [Takes, read, move, readOperand, Leaf.word, hText]
          at hTakes
      · exact (if_neg hText).trans hTakes

/- A simple statement is read at the margin, with its line break. -/
theorem path_simple
    (hMargin : draft.spot = .margin)
    (simple : Simple) :
    Path draft (simple.leaves ++ [.newline])
      (draft.add simple) := by
  cases simple with
  | printText contents =>
      exact
        .cons (takes_begun hMargin rfl)
          (.cons rfl (Takes.path rfl))
  | label name =>
      exact
        .cons (takes_begun hMargin rfl)
          (.cons rfl (Takes.path rfl))
  | jump name =>
      exact
        .cons (takes_begun hMargin rfl)
          (.cons rfl (Takes.path rfl))
  | input name =>
      exact
        .cons (takes_begun hMargin rfl)
          (.cons rfl (Takes.path rfl))
  | assign name value =>
      rcases path_expression draft (.assign name) value with
        ⟨sum, term, hValue, hPath⟩
      refine
        .cons (takes_begun hMargin rfl)
          (.cons rfl (.cons rfl (hPath.snoc ?_)))
      rw [hValue]
      exact takes_newline_assign name term
  | printValue value =>
      rcases path_expression draft .print value with
        ⟨sum, term, hValue, hPath⟩
      have hPrinted :=
        path_printed hPath (expression_leaves_ne_nil value)
      refine .cons (takes_begun hMargin rfl) (hPrinted.snoc ?_)
      rw [hValue]
      exact takes_newline_print term

/- A block's first line is read at the margin, with its line break. -/
theorem path_opening
    (hMargin : draft.spot = .margin)
    (kind : Block)
    (condition : Comparison) :
    Path draft (openingLeaves kind condition ++ [.newline])
      (draft.push kind condition) := by
  rcases path_comparands draft kind condition.chain with
    ⟨lead, sum, term, hChain, hPath⟩
  have hBegin :
      draft.Takes (.keyword kind.opener)
        (draft.move
          (.operand (.condition kind none) none none none)) := by
    cases kind <;> exact takes_begun hMargin rfl
  have hSeparator :
      (draft.move (.joint (.condition kind lead) sum term)).Takes
        (.keyword kind.divider)
        (draft.move (.opened kind condition)) := by
    rcases lead with - | ⟨left, sign⟩
    · cases hChain
    · obtain ⟨hLeft, hSign, hRight⟩ :=
        Chain.join.inj hChain
      rcases condition with ⟨left', sign', right⟩
      subst hLeft hSign hRight
      exact if_pos rfl
  have hOpened :
      (draft.move (.opened kind condition)).Takes .newline
        (draft.push kind condition) := rfl
  have hLine := (Path.snoc hPath hSeparator).snoc hOpened
  rw [List.append_assoc] at hLine
  exact .cons hBegin (by simpa [Comparison.leaves] using hLine)

/- A block's last word is read in its place. -/
theorem path_closing
    (draft : Draft)
    (hMargin : draft.spot = .margin)
    {frame : Frame}
    {outer : List Frame}
    (hFrames : draft.frames = frame :: outer) :
    Path draft [.keyword frame.kind.ending, .newline]
      draft.pop := by
  have hCloser :
      draft.Takes (.keyword frame.kind.ending)
        (draft.move .closed) := by
    simp [Takes, read, hMargin, readMargin, Leaf.word,
      Leaf.kind, blocks, hFrames, Block.outer?,
      Block.closer_eq_ending]
  exact .cons hCloser (Takes.path rfl)

------------------------------------------------------------
-- Statements and Programs
------------------------------------------------------------

/- A draft with more statements at its end. -/
def extend
    (draft : Draft)
    (more : Statements) : Draft :=
  { draft with done := draft.done.append more }

/- Statements are read at the margin. -/
theorem path_statements
    {statements : Statements}
    {leaves : List Leaf}
    (hSpells : statements.Spells leaves)
    (draft : Draft)
    (hMargin : draft.spot = .margin) :
    Path draft leaves (draft.extend statements) := by
  induction hSpells generalizing draft with
  | done =>
      rw [extend, Statements.append_done]
      exact .nil
  | @simple first rest more blanks _ ih =>
      have hFirst := path_simple hMargin first
      have hBlanks :=
        path_newlines (draft.add first) rfl blanks
      have hRest := ih (draft.add first) rfl
      have hPath := (hFirst.append hBlanks).append hRest
      have hEnd :
          (draft.add first).extend rest =
            draft.extend (.simple first rest) := by
        simp [extend, add, hMargin, Statements.append_assoc,
          Statements.append]
      rw [hEnd] at hPath
      simpa [newlines, List.replicate_succ] using hPath
  | @block kind condition inner rest held more blanks later
      _ _ ihInner ihRest =>
      have hOpening := path_opening hMargin kind condition
      have hBlanks :=
        path_newlines (draft.push kind condition) rfl blanks
      have hInner := ihInner (draft.push kind condition) rfl
      have hClosing :=
        path_closing ((draft.push kind condition).extend inner)
          rfl rfl
      have hLater :=
        path_newlines
          ((draft.push kind condition).extend inner).pop rfl
          later
      have hRest :=
        ihRest ((draft.push kind condition).extend inner).pop rfl
      have hPath :=
        ((((hOpening.append hBlanks).append hInner).append
          hClosing).append hLater).append hRest
      have hEnd :
          ((draft.push kind condition).extend inner).pop.extend
              rest =
            draft.extend (.block kind condition inner rest) := by
        simp [extend, pop, push, hMargin,
          Statements.append_assoc, Statements.append]
      rw [hEnd] at hPath
      simpa [newlines, List.replicate_succ] using hPath

/- A program is read from its first word to its last. -/
theorem path_program
    {program : Statements}
    {leaves : List Leaf}
    (hSpells : program.SpellsProgram leaves) :
    Path start leaves (whole program) := by
  rcases hSpells with ⟨blanks, body, hLeaves, hBody⟩
  have hBlanks := path_newlines start rfl blanks
  have hBody := path_statements hBody start rfl
  have hFinish :
      (start.extend program).Takes .finish (whole program) := rfl
  rw [hLeaves]
  exact (hBlanks.append hBody).snoc hFinish

end Draft

end Tree

end TeenyC
