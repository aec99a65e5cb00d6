import TeenyC.Proofs.CText.Grouping
import TeenyC.Proofs.CText.Line

/-
  How the lines of bodies are written from the leaves of a
  program.

  If the leaves are spelled, the lines are sound and have no
  breaks of their own, and the names among the pieces of a value
  are operands of the program.

  Key definitions include:
    * `CText.Line.WrittenFrom`

  Key theorems include:
    * `Tree.Statements.Spells.writtenFrom`
    * `CText.Line.WrittenFrom.sound`
    * `CText.Line.break_notMem_text`
    * `Tree.Expression.operand_of_piece`
-/

namespace TeenyC

namespace CText

------------------------------------------------------------
-- Lines Written from Leaves
------------------------------------------------------------

open TeenyC.Tree

namespace Line

/- The lines of bodies, with the leaves they are written from. -/
inductive WrittenFrom (leaves : List Leaf) : Line → Prop
| printText
    {contents : String}
    (hLeaf : .literal contents ∈ leaves) :
    WrittenFrom leaves (.printText contents)
| printValue
    {value : Expression}
    (hValue : Expression.leaves value ⊆ leaves) :
    WrittenFrom leaves (.printValue (Expression.text value))
| label
    {name : String}
    (hLeaf : .label name ∈ leaves) :
    WrittenFrom leaves (.label name)
| jump
    {name : String}
    (hLeaf : .jump name ∈ leaves) :
    WrittenFrom leaves (.jump name)
| assign
    {name : String}
    {value : Expression}
    (hLeaf : .target name ∈ leaves)
    (hValue : Expression.leaves value ⊆ leaves) :
    WrittenFrom leaves (.assign name (Expression.text value))
| scan
    {name : String}
    (hLeaf : .target name ∈ leaves) :
    WrittenFrom leaves (.scan name)
| reset
    {name : String}
    (hLeaf : .target name ∈ leaves) :
    WrittenFrom leaves (.assign name "0")
| skip : WrittenFrom leaves .skip
| opening
    {kind : Block}
    {condition : Comparison}
    (hCondition : condition.leaves ⊆ leaves) :
    WrittenFrom leaves (.opening kind condition.text)
| close : WrittenFrom leaves .close
| finish : WrittenFrom leaves .finish

variable {leaves more : List Leaf}
variable {line : Line}

/- A line may be written from more leaves. -/
theorem WrittenFrom.mono
    (hWritten : WrittenFrom leaves line)
    (hMore : leaves ⊆ more) :
    WrittenFrom more line := by
  cases hWritten with
  | printText hLeaf => exact .printText (hMore hLeaf)
  | printValue hValue => exact .printValue (List.Subset.trans hValue hMore)
  | label hLeaf => exact .label (hMore hLeaf)
  | jump hLeaf => exact .jump (hMore hLeaf)
  | assign hLeaf hValue =>
      exact .assign (hMore hLeaf) (List.Subset.trans hValue hMore)
  | scan hLeaf => exact .scan (hMore hLeaf)
  | reset hLeaf => exact .reset (hMore hLeaf)
  | skip => exact .skip
  | opening hCondition =>
      exact .opening (List.Subset.trans hCondition hMore)
  | close => exact .close
  | finish => exact .finish

end Line

end CText

namespace Tree

open CText

/- A simple statement's lines are written from its leaves. -/
theorem Simple.writtenFrom (simple : Simple) :
    ∀ line ∈ simple.lines, line.WrittenFrom simple.leaves := by
  intro line hLine
  cases simple with
  | printText contents =>
      obtain rfl := List.mem_singleton.mp hLine
      exact .printText (by simp [leaves])
  | printValue value =>
      obtain rfl := List.mem_singleton.mp hLine
      exact .printValue (by simp [leaves])
  | label name =>
      obtain rfl := List.mem_singleton.mp hLine
      exact .label (by simp [leaves])
  | jump name =>
      obtain rfl := List.mem_singleton.mp hLine
      exact .jump (by simp [leaves])
  | assign name value =>
      obtain rfl := List.mem_singleton.mp hLine
      refine .assign (by simp [leaves]) ?_
      intro leaf hLeaf
      simp [leaves, hLeaf]
  | input name =>
      have hTarget : .target name ∈ (input name).leaves := by
        simp [leaves]
      simp only [lines, List.mem_cons, List.not_mem_nil,
        or_false] at hLine
      rcases hLine with rfl | rfl | rfl | rfl
      · exact .scan hTarget
      · exact .reset hTarget
      · exact .skip
      · exact .close

/- The lines of statements are written from their leaves. -/
theorem Statements.Spells.writtenFrom
    {statements : Statements}
    {leaves : List Leaf}
    (hSpells : statements.Spells leaves) :
    ∀ line ∈ statements.lines, line.WrittenFrom leaves := by
  intro line hLine
  induction hSpells with
  | done => cases hLine
  | @simple first rest more blanks _ ih =>
      rcases List.mem_append.mp hLine with hFirst | hRest
      · apply (first.writtenFrom line hFirst).mono
        simp
      · apply (ih hRest).mono
        simp
  | @block kind condition inner rest held more blanks later _ _
      ihInner ihRest =>
      simp only [Statements.lines, List.mem_cons,
        List.mem_append] at hLine
      rcases hLine with rfl | hInner | rfl | hRest
      · apply Line.WrittenFrom.opening
        intro leaf hLeaf
        simp [openingLeaves, hLeaf]
      · apply (ihInner hInner).mono
        intro leaf hLeaf
        simp [hLeaf]
      · exact .close
      · apply (ihRest hRest).mono
        intro leaf hLeaf
        simp [hLeaf]

------------------------------------------------------------
-- Lines without Breaks
------------------------------------------------------------

/- An operator has no line break. -/
theorem break_notMem_spelling (sign : Operator) :
    '\n' ∉ sign.spelling.toList := by
  cases sign <;> decide

/- A name has no line break. -/
theorem break_notMem_of_isName
    {name : List Char}
    (hName : Lexeme.IsName name) :
    '\n' ∉ name := by
  intro hBreak
  cases Line.isAlphanum_of_isName hName '\n' hBreak

/- A factor has no line break. -/
theorem Factor.break_notMem_text
    {factor : Factor}
    (hSpelled : ∀ leaf ∈ factor.leaves, leaf.Spelled) :
    '\n' ∉ factor.text.toList := by
  rcases factor with ⟨sign, operand⟩
  have hOperand : operand.leaf.Spelled :=
    hSpelled _ (List.mem_append_right _ List.mem_cons_self)
  have hSign : '\n' ∉ (signText sign).toList := by
    cases sign with
    | none => decide
    | some sign => exact break_notMem_spelling sign.1
  rw [Factor.text, String.toList_append, List.mem_append]
  rintro (hBreak | hBreak)
  · exact hSign hBreak
  · cases operand with
    | number text =>
        rcases numeral_text hOperand '\n' hBreak with
          hDigit | hPoint
        · cases hDigit
        · cases hPoint
    | «variable» name =>
        exact break_notMem_of_isName hOperand.1 hBreak

/- A chain has no line break if its items have none. -/
theorem Chain.break_notMem_text
    {level : Operator → Bool}
    {α : Type}
    {leaves : α → List Leaf}
    {text : α → String}
    (hItem :
      ∀ a, (∀ leaf ∈ leaves a, leaf.Spelled) →
        '\n' ∉ (text a).toList)
    {chain : Chain level α}
    (hSpelled : ∀ leaf ∈ chain.leaves leaves, leaf.Spelled) :
    '\n' ∉ (chain.text text).toList := by
  induction chain with
  | single first => exact hItem first hSpelled
  | join left sign right ih =>
      have hLeft :=
        ih fun leaf hLeaf =>
          hSpelled leaf (List.mem_append_left _ hLeaf)
      have hRight :=
        hItem right fun leaf hLeaf =>
          hSpelled leaf
            (List.mem_append_right _
              (List.mem_cons_of_mem _ hLeaf))
      have hSign := break_notMem_spelling sign.1
      simp [Chain.text, hLeft, hSign, hRight]

/- An expression has no line break. -/
theorem Expression.break_notMem_text
    {expression : Expression}
    (hSpelled :
      ∀ leaf ∈ Expression.leaves expression, leaf.Spelled) :
    '\n' ∉ (Expression.text expression).toList := by
  apply Chain.break_notMem_text _ hSpelled
  intro term hTerm
  apply Chain.break_notMem_text _ hTerm
  intro factor hFactor
  exact Factor.break_notMem_text hFactor

/- A comparison has no line break. -/
theorem Comparison.break_notMem_text
    {comparison : Comparison}
    (hSpelled : ∀ leaf ∈ comparison.leaves, leaf.Spelled) :
    '\n' ∉ comparison.text.toList := by
  apply Chain.break_notMem_text _ hSpelled
  intro expression hExpression
  exact Expression.break_notMem_text hExpression

end Tree

namespace CText.Line

open TeenyC.Tree

variable {leaves : List Leaf}
variable {line : Line}

/- A line written from spelled leaves is sound. -/
theorem WrittenFrom.sound
    (hWritten : WrittenFrom leaves line)
    (hSpelled : ∀ leaf ∈ leaves, leaf.Spelled) :
    line.Sound := by
  cases hWritten with
  | printText hLeaf => exact hSpelled _ hLeaf
  | label hLeaf | jump hLeaf | reset hLeaf =>
      exact (hSpelled _ hLeaf).1
  | assign hLeaf _ => exact (hSpelled _ hLeaf).1
  | printValue | scan | skip | opening | close | finish =>
      trivial

/- What a line holds has no break if its leaves are spelled. -/
theorem WrittenFrom.break_notMem_held
    (hWritten : WrittenFrom leaves line)
    (hSpelled : ∀ leaf ∈ leaves, leaf.Spelled) :
    '\n' ∉ line.held.toList := by
  cases hWritten with
  | printText hLeaf =>
      intro hBreak
      cases hSpelled _ hLeaf '\n' hBreak
  | jump hLeaf | scan hLeaf =>
      exact break_notMem_of_isName (hSpelled _ hLeaf).1
  | printValue hValue | assign _ hValue =>
      exact
        Expression.break_notMem_text fun leaf hLeaf =>
          hSpelled leaf (hValue hLeaf)
  | opening hCondition =>
      exact
        Comparison.break_notMem_text fun leaf hLeaf =>
          hSpelled leaf (hCondition hLeaf)
  | label | reset | skip | close | finish => simp [held]

/- A line has no break if what it holds has none. -/
theorem break_notMem_text
    (hSound : line.Sound)
    (hHeld : '\n' ∉ line.held.toList) :
    '\n' ∉ line.text.toList := by
  have hMark : line.mark ≠ '\n' := by
    cases line <;> simp [mark]
  have hBefore : '\n' ∉ line.before.toList := by
    cases line <;> simp [before]
  have hAfter : '\n' ∉ line.after.toList := by
    cases line <;> simp [after]
  rw [toList_text, tail, List.mem_append, List.mem_cons,
    List.mem_append, List.mem_append]
  rintro (hBreak | hBreak | (hBreak | hBreak) | hBreak)
  · cases hSound.word_text '\n' hBreak
  · exact hMark hBreak.symm
  · exact hBefore hBreak
  · exact hHeld hBreak
  · exact hAfter hBreak

end CText.Line

------------------------------------------------------------
-- Names among Pieces
------------------------------------------------------------

namespace Tree

open TeenyC.CText

variable {name : String}

/- A name among the pieces of a factor is an operand of it. -/
theorem Factor.operand_of_piece
    {factor : Factor}
    (hPiece : .name name.toList ∈ factor.pieces) :
    .operand name ∈ factor.leaves := by
  have hOperand
      {operand : Operand}
      (hSame : .name name.toList = operand.piece) :
      operand.leaf = .operand name := by
    cases operand with
    | number text => cases hSame
    | «variable» other =>
        have hText := Piece.name.inj hSame
        rw [String.toList_inj.mp hText]
        rfl
  rcases factor with ⟨- | sign, operand⟩
  · have hSame := List.mem_singleton.mp hPiece
    simp [Factor.leaves, hOperand hSame]
  · rcases List.mem_cons.mp hPiece with hSign | hLast
    · cases hSign
    · have hSame := List.mem_singleton.mp hLast
      simp [Factor.leaves, hOperand hSame]

/- A name among the pieces of a chain is an operand of it. -/
theorem Chain.operand_of_piece
    {level : Operator → Bool}
    {α : Type}
    {leaves : α → List Leaf}
    {pieces : α → List Piece}
    (hItem :
      ∀ a, .name name.toList ∈ pieces a →
        .operand name ∈ leaves a)
    {chain : Chain level α}
    (hPiece : .name name.toList ∈ chain.pieces pieces) :
    .operand name ∈ chain.leaves leaves := by
  induction chain with
  | single first => exact hItem first hPiece
  | join left sign right ih =>
      apply List.mem_append.mpr
      rcases List.mem_append.mp hPiece with hLeft | hLater
      · exact .inl (ih hLeft)
      · rcases List.mem_cons.mp hLater with hSign | hRight
        · cases hSign
        · exact .inr (List.mem_cons_of_mem _ (hItem right hRight))

/- A name among an expression's pieces is an operand of it. -/
theorem Expression.operand_of_piece
    {expression : Expression}
    (hPiece : .name name.toList ∈ Expression.pieces expression) :
    .operand name ∈ Expression.leaves expression := by
  apply Chain.operand_of_piece _ hPiece
  intro term hTerm
  apply Chain.operand_of_piece _ hTerm
  intro factor hFactor
  exact Factor.operand_of_piece hFactor

end Tree

end TeenyC
