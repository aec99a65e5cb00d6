import TeenyC.Grammar.Expression
import TeenyC.Proofs.Parsing.Terminal
import TeenyC.Proofs.Tree.Completeness

/-
  What the rules for expressions achieve: each reads a tree, and
  writes the text and makes the reports that belong to the tree.

  An operator of a higher level goes on with the tree that is
  being read, so each rule but the lowest also tells which
  operators are not next.

  Key theorems include:
    * `Grammar.achieves_unary`
    * `Grammar.achieves_term`
    * `Grammar.achieves_expression`
    * `Grammar.achieves_comparison`
-/

namespace TeenyC

open TeenyC.Tree

------------------------------------------------------------
-- Levels
------------------------------------------------------------

namespace Kind

/- Whether a kind is that of an operator of a level. -/
def lies (level : Operator → Bool) : Kind → Bool
| .operator sign => level sign
| _ => false

/- The kinds that may stand as signs. -/
theorem isAdditive_eq :
    Kind.isAdditive = lies Tree.adds := by
  funext kind
  cases kind with
  | operator sign => exact Tree.isAdditive_eq_adds sign
  | _ => rfl

/- The kinds that join factors. -/
theorem isMultiplicative_eq :
    Kind.isMultiplicative = lies Tree.multiplies := by
  funext kind
  cases kind with
  | operator sign => exact Tree.isMultiplicative_eq_multiplies sign
  | _ => rfl

/- The kinds that compare expressions. -/
theorem isComparison_eq :
    Kind.isComparison = lies Tree.compares := by
  funext kind
  cases kind with
  | operator sign => exact Tree.isComparison_eq_compares sign
  | _ => rfl

end Kind

namespace Tree.Draft

/- A string is taken where one may stand. -/
theorem takes_literal
    (draft : Draft)
    (contents : String) :
    (draft.move .printed).Takes (.literal contents)
      (draft.move (.lineEnd (.printText contents))) := rfl

/- After a simple statement there is the end of its line. -/
theorem read_lineEnd_eq
    (draft : Draft)
    (last : Simple)
    (word : Word) :
    (draft.move (.lineEnd last)).read word =
      readLineEnd (draft.add last) word.1 := rfl

/- Where a string might stand there is an operand instead. -/
theorem read_printed_eq
    (draft : Draft)
    (word : Word)
    (hKind : word.1 ≠ .string) :
    (draft.move .printed).read word =
      (draft.move (.operand .print none none none)).read word :=
  if_neg hKind

/- Where no further term may begin, an expression has ended. -/
theorem readJoint_eq
    {kind : Kind}
    (hMultiplicative : kind.isMultiplicative = false)
    (hAdditive : kind.isAdditive = false)
    (draft : Draft)
    (site : Site)
    (sum : Lead adds Term)
    (term : Term) :
    draft.readJoint site sum term kind =
      draft.readExpressionEnd site (.extend sum term) kind := by
  cases kind with
  | operator op =>
      have hMul : multiplies op = false :=
        (isMultiplicative_eq_multiplies op).symm.trans
          hMultiplicative
      have hAdd : adds op = false :=
        (isAdditive_eq_adds op).symm.trans hAdditive
      simp [readJoint, hMul, hAdd]
  | _ => rfl

/- Where no further comparand may begin, a condition has ended. -/
theorem readExpressionEnd_eq
    {kind : Kind}
    (hComparison : kind.isComparison = false)
    (draft : Draft)
    (block : Block)
    (lead : Lead compares Expression)
    (last : Expression) :
    draft.readExpressionEnd (.condition block lead) last kind =
      draft.readSeparator block lead last kind := by
  cases kind with
  | operator op =>
      have hLevel : compares op = false :=
        (isComparison_eq_compares op).symm.trans hComparison
      simp [readExpressionEnd, hLevel]
  | _ => rfl

end Tree.Draft

------------------------------------------------------------
-- After Expressions
------------------------------------------------------------

namespace Session

/-
  The session stands after an expression, or after a part of it
  that may go on with a further term.
-/
def PassedExpression
    (start : Cursor)
    (draft : Draft)
    (site : Site)
    (expression : Expression)
    (text : String)
    (events : List Event)
    (s : Session) : Prop :=
  ∃ sum term,
    expression = .extend sum term ∧
      s.Stands start (draft.move (.joint site sum term)) text
          events ∧
        s.current.kind.isMultiplicative = false

/-
  The session stands after the comparands of a condition, or
  after a part of them that may go on with a further one.
-/
def PassedComparands
    (start : Cursor)
    (draft : Draft)
    (kind : Block)
    (comparands : Comparands)
    (text : String)
    (events : List Event)
    (s : Session) : Prop :=
  ∃ lead last,
    comparands = .extend lead last ∧
      s.PassedExpression start draft (.condition kind lead) last
          text events ∧
        s.current.kind.isAdditive = false

variable {start : Cursor}
variable {draft : Draft}
variable {text : String}
variable {events : List Event}
variable {s : Session}

/- After an expression comes what its site calls for. -/
theorem PassedExpression.ended
    {site : Site}
    {expression : Expression}
    (hPassed :
      s.PassedExpression start draft site expression text events)
    (hAdditive : s.current.kind.isAdditive = false) :
    ∃ ending : Draft,
      s.Stands start ending text events ∧
        ending.read s.current.word =
          draft.readExpressionEnd site expression
            s.current.kind := by
  rcases hPassed with
    ⟨sum, term, hExpression, hStands, hMultiplicative⟩
  subst hExpression
  exact
    ⟨_, hStands,
      Draft.readJoint_eq hMultiplicative hAdditive _ _ _ _⟩

/- After comparands comes the word that ends a condition. -/
theorem PassedComparands.ended
    {kind : Block}
    {comparands : Comparands}
    (hPassed :
      s.PassedComparands start draft kind comparands text events)
    (hComparison : s.current.kind.isComparison = false) :
    ∃ ending lead last,
      comparands = .extend lead last ∧
        s.Stands start ending text events ∧
          ending.read s.current.word =
            draft.readSeparator kind lead last
              s.current.kind := by
  rcases hPassed with ⟨lead, last, hWhole, hLast, hAdditive⟩
  rcases hLast.ended hAdditive with ⟨ending, hStands, hRead⟩
  rw [Draft.readExpressionEnd_eq hComparison] at hRead
  exact ⟨ending, lead, last, hWhole, hStands, hRead⟩

end Session

namespace Grammar

open Production

variable {start : Cursor}
variable {draft next : Draft}
variable {text : String}
variable {events : List Event}
variable {s : Session}
variable {site : Site}
variable {sum : Lead adds Term}
variable {product : Lead multiplies Factor}

------------------------------------------------------------
-- Factors
------------------------------------------------------------

/- An operand that is permitted is reported and copied. -/
theorem achieves_operand
    {sign : Option (Sign adds)}
    {operand : Operand}
    (hStands :
      s.Stands start
        (draft.move (.operand site sum product sign)) text
        events)
    (hWord : operand.leaf.word = s.current.word)
    (hPermits : s.Permits operand.leaf) :
    (emit s.current.text >>= fun _ => advance).Achieves start
      (s.write "" [.primary s.current.kind s.current.text])
      fun _ t =>
        t.Stands start
          (draft.move
            (.joint site sum
              (.extend product
                { sign := sign, operand := operand })))
          (text ++ operand.text) (events ++ [operand.event]) := by
  have hRead :=
    (Draft.takes_operand draft site sum product sign
      operand).read_eq hWord
  have hQuiet : operand.leaf.IsQuiet := by
    cases operand <;> trivial
  obtain ⟨hKind, hText⟩ := Prod.mk.inj hWord
  apply achieves_emit_bind
  apply
    (achieves_advance ((hStands.report _).emit _) hRead hQuiet
      hPermits).mono
  intro _ t hAt
  rwa [← hKind, ← hText] at hAt

/- Where an operand must stand, other words are refused. -/
theorem read_operand_refused
    {sign : Option (Sign adds)}
    {word : Word}
    (hSign : sign = none → word.1.isAdditive = false)
    (hNumber : word.1 ≠ .number)
    (hIdent : word.1 ≠ .ident) :
    (draft.move (.operand site sum product sign)).read word =
      .error .operand := by
  rcases word with ⟨kind, text⟩
  cases kind with
  | number => exact absurd rfl hNumber
  | ident => exact absurd rfl hIdent
  | operator op =>
      cases sign with
      | none =>
          have hLevel : adds op = false :=
            (isAdditive_eq_adds op).symm.trans (hSign rfl)
          simp [Draft.read, Draft.move, Draft.readOperand, hLevel]
      | some first => rfl
  | _ => rfl

/- An operand is read where one is required. -/
theorem achieves_primary
    {sign : Option (Sign adds)}
    (hStands :
      s.Stands start
        (draft.move (.operand site sum product sign)) text
        events)
    (hSign : sign = none → s.current.kind.isAdditive = false) :
    primary.Achieves start s fun _ t =>
      ∃ operand : Operand,
        t.Stands start
          (draft.move
            (.joint site sum
              (.extend product
                { sign := sign, operand := operand })))
          (text ++ operand.text) (events ++ [operand.event]) := by
  apply achieves_withSession
  apply achieves_report_bind
  split
  · next hKind =>
    have hWord :
        (Operand.number s.current.text).leaf.word =
          s.current.word :=
      Prod.ext hKind.symm rfl
    apply (achieves_operand hStands hWord trivial).mono
    intro _ t hAt
    exact ⟨_, hAt⟩
  · next hKind =>
    have hWord :
        (Operand.variable s.current.text).leaf.word =
          s.current.word :=
      Prod.ext hKind.symm rfl
    split
    · next hKnown =>
      apply
        (achieves_operand hStands hWord
          (List.contains_iff_mem.mp hKnown)).mono
      intro _ t hAt
      exact ⟨_, hAt⟩
    · next hKnown =>
      have hRead :=
        (Draft.takes_operand draft site sum product sign
          _).read_eq hWord
      apply achieves_fail
      apply hStands.refused_name hRead
      intro hPermits
      exact hKnown (List.contains_iff_mem.mpr hPermits)
  · next hNumber hIdent =>
    exact
      achieves_fail
        (hStands.refused
          (read_operand_refused hSign hNumber hIdent))

/- A kind of a level is that of an operator of the level. -/
theorem exists_sign
    {joins : Kind → Bool}
    {level : Operator → Bool}
    (hJoins : joins = Kind.lies level)
    {kind : Kind}
    (hLies : joins kind = true) :
    ∃ sign : Sign level, kind = .operator sign.1 := by
  subst hJoins
  cases kind with
  | operator op => exact ⟨⟨op, hLies⟩, rfl⟩
  | _ => cases hLies

/- A factor is read where one may begin. -/
theorem achieves_unary
    (hStands :
      s.Stands start
        (draft.move (.operand site sum product none)) text
        events) :
    unary.Achieves start s fun _ t =>
      ∃ factor : Factor,
        t.Stands start
          (draft.move (.joint site sum (.extend product factor)))
          (text ++ factor.text) (events ++ factor.events) := by
  apply achieves_report_bind
  apply achieves_withCurrent
  have hReported := hStands.report .unary
  split
  · next hLevel =>
    rcases exists_sign Kind.isAdditive_eq hLevel with
      ⟨sign, hKind⟩
    have hWord :=
      hReported.fixed_word (.sign sign.1) hKind trivial
    have hText : s.current.text = sign.1.spelling :=
      (congrArg Prod.snd hWord).symm
    have hRead :=
      (Draft.takes_sign draft site sum product sign).read_eq
        hWord
    apply achieves_emit_bind
    apply achieves_bind
    apply
      (achieves_advance (hReported.emit _) hRead trivial
        trivial).mono
    intro _ t hAt
    apply (achieves_primary hAt (by simp)).mono
    intro _ u hPost
    rcases hPost with ⟨operand, hAfter⟩
    refine ⟨{ sign := some sign, operand := operand }, ?_⟩
    simpa [Factor.text, Factor.signText, Factor.events,
      String.append_assoc, hText] using hAfter
  · next hLevel =>
    apply
      (achieves_primary hReported fun _ => by
        simpa using hLevel).mono
    intro _ t hPost
    rcases hPost with ⟨operand, hAt⟩
    refine ⟨{ sign := none, operand := operand }, ?_⟩
    simpa [Factor.text, Factor.signText, Factor.events] using hAt

------------------------------------------------------------
-- Chains
------------------------------------------------------------

/- An operator is copied between blanks, and an item follows. -/
theorem achieves_link
    {level : Operator → Bool}
    {sign : Sign level}
    {before place : Draft}
    {operand : Production Unit}
    {post : Unit → Session → Prop}
    (hStands : s.Stands start before text events)
    (hKind : s.current.kind = .operator sign.1)
    (hTakes : before.Takes (.sign sign.1) place)
    (hItem :
      ∀ t,
        t.Stands start place
            (text ++ (" " ++ sign.1.spelling ++ " ")) events →
          operand.Achieves start t post) :
    (link operand).Achieves start s post := by
  have hWord := hStands.fixed_word (.sign sign.1) hKind trivial
  have hText : s.current.text = sign.1.spelling :=
    (congrArg Prod.snd hWord).symm
  apply achieves_withCurrent
  apply achieves_emit_bind
  apply achieves_bind
  apply
    (achieves_advance (hStands.emit _) (hTakes.read_eq hWord)
      trivial trivial).mono
  intro _ t hAt
  apply hItem
  rwa [hText] at hAt

/-
  A chain is read item by item. What holds after a part of the
  chain must tell where the session stands before an operator,
  and must hold again after the operator and an item.
-/
theorem achieves_chain
    {α : Type}
    {level : Operator → Bool}
    {joins : Kind → Bool}
    {hEof : joins .eof = false}
    {operand : Production Unit}
    (item : α → String)
    (reports : α → List Event)
    (after : Chain level α → String → List Event → Session → Prop)
    (place : Chain level α → Sign level → Draft)
    (hJoins : joins = Kind.lies level)
    (hSign :
      ∀ {left text events t sign},
        after left text events t →
          t.current.kind = .operator sign.1 →
            ∃ before : Draft,
              t.Stands start before text events ∧
                before.Takes (.sign sign.1) (place left sign))
    (hItem :
      ∀ {left sign text events t},
        t.Stands start (place left sign) text events →
          operand.Achieves start t fun _ u =>
            ∃ right,
              after (.join left sign right) (text ++ item right)
                (events ++ reports right) u)
    (first : Chain level α)
    (hFirst :
      after first (text ++ first.text item)
        (events ++ first.events reports) s) :
    (chain joins hEof operand).Achieves start s fun _ t =>
      ∃ whole,
        after whole (text ++ whole.text item)
            (events ++ whole.events reports) t ∧
          joins t.current.kind = false ∧
            (joins s.current.kind = true →
              ∃ left sign right, whole = .join left sign right) := by
  refine Achieves.mono
    (achieves_loop
      (fun _ t =>
        ∃ whole,
          after whole (text ++ whole.text item)
              (events ++ whole.events reports) t ∧
            (t = s ∨
              ∃ left sign right, whole = .join left sign right))
      ?_ () s ⟨first, hFirst, .inl rfl⟩) ?_
  · intro _ t hOn hGrown
    rcases hGrown with ⟨left, hLeft, _⟩
    rcases exists_sign hJoins hOn with ⟨sign, hKind⟩
    rcases hSign hLeft hKind with ⟨before, hStands, hTakes⟩
    apply achieves_link hStands hKind hTakes
    intro u hAt
    apply (hItem hAt).mono
    intro _ v hRight
    rcases hRight with ⟨right, hAfter⟩
    refine ⟨.join left sign right, ?_, .inr ⟨_, _, _, rfl⟩⟩
    simpa [Chain.text, Chain.events, String.append_assoc]
      using hAfter
  · intro _ t hPost
    rcases hPost with ⟨⟨whole, hWhole, hGrown⟩, hOff⟩
    refine ⟨whole, hWhole, hOff, ?_⟩
    intro hOn
    rcases hGrown with hSame | hJoin
    · rw [hSame, hOn] at hOff
      cases hOff
    · exact hJoin

/- A term is read where one may begin. -/
theorem achieves_term
    (hStands :
      s.Stands start
        (draft.move (.operand site sum none none)) text
        events) :
    term.Achieves start s fun _ t =>
      ∃ read : Term,
        t.Stands start (draft.move (.joint site sum read))
            (text ++ Term.text read) (events ++ Term.events read) ∧
          t.current.kind.isMultiplicative = false := by
  apply achieves_report_bind
  apply achieves_bind
  have hReported := hStands.report .term
  apply (achieves_unary hReported).mono
  intro _ t hPost
  rcases hPost with ⟨factor, hFactor⟩
  refine Achieves.mono
    (achieves_chain Factor.text Factor.events
      (fun left text events u =>
        u.Stands start (draft.move (.joint site sum left)) text
          events)
      (fun left sign =>
        draft.move (.operand site sum (some (left, sign)) none))
      Kind.isMultiplicative_eq ?_ ?_ (.single factor)
      hFactor) ?_
  · intro left text events u sign hAt _
    exact ⟨_, hAt, Draft.takes_multiplicative left sign⟩
  · intro left sign text events u hAt
    exact achieves_unary hAt
  · intro _ u hPost
    rcases hPost with ⟨whole, hWhole, hOff, _⟩
    refine ⟨whole, ?_, hOff⟩
    simpa [Term.text, Term.events] using hWhole

------------------------------------------------------------
-- Expressions and Comparisons
------------------------------------------------------------

/- An expression is read where one may begin. -/
theorem achieves_expression
    (hStands :
      s.Stands start
        (draft.move (.operand site none none none)) text
        events) :
    expression.Achieves start s fun _ t =>
      ∃ read : Expression,
        t.PassedExpression start draft site read
            (text ++ Expression.text read)
            (events ++ Expression.events read) ∧
          t.current.kind.isAdditive = false := by
  apply achieves_report_bind
  apply achieves_bind
  have hReported := hStands.report .expression
  apply (achieves_term hReported).mono
  intro _ t hPost
  rcases hPost with ⟨term, hTerm, hOff⟩
  refine Achieves.mono
    (achieves_chain Term.text Term.events
      (fun left text events u =>
        u.PassedExpression start draft site left text events)
      (fun left sign =>
        draft.move (.operand site (some (left, sign)) none none))
      Kind.isAdditive_eq ?_ ?_ (.single term)
      ⟨none, term, rfl, hTerm, hOff⟩) ?_
  · intro _ text events u sign hPost _
    rcases hPost with ⟨sum, term, rfl, hAt, _⟩
    exact ⟨_, hAt, Draft.takes_additive term sign⟩
  · intro left sign text events u hAt
    apply (achieves_term hAt).mono
    intro _ v hPost
    rcases hPost with ⟨right, hRight, hOff⟩
    exact ⟨right, some (left, sign), right, rfl, hRight, hOff⟩
  · intro _ u hPost
    rcases hPost with ⟨whole, hWhole, hOff, _⟩
    refine ⟨whole, ?_, hOff⟩
    simpa [Expression.text, Expression.events] using hWhole

/- A condition is read where one may begin. -/
theorem achieves_comparison
    {kind : Block}
    (hStands :
      s.Stands start
        (draft.move
          (.operand (.condition kind none) none none none))
        text events) :
    comparison.Achieves start s fun _ t =>
      ∃ read : Comparison,
        t.PassedComparands start draft kind read.chain
            (text ++ read.text) (events ++ read.events) ∧
          t.current.kind.isComparison = false := by
  apply achieves_report_bind
  apply achieves_bind
  have hReported := hStands.report .comparison
  apply (achieves_expression hReported).mono
  intro _ t hPost
  rcases hPost with ⟨first, hFirst, hOff⟩
  apply achieves_withCurrent
  split
  · next hOn =>
    refine Achieves.mono
      (achieves_chain Expression.text Expression.events
        (fun left text events u =>
          u.PassedComparands start draft kind left text events)
        (fun left sign =>
          draft.move
            (.operand (.condition kind (some (left, sign)))
              none none none))
        Kind.isComparison_eq ?_ ?_ (.single first)
        ⟨none, first, rfl, hFirst, hOff⟩) ?_
    · intro _ text events u sign hPost _
      rcases hPost with ⟨lead, _, rfl, ⟨sum, term, rfl, hAt, _⟩, _⟩
      exact ⟨_, hAt, Draft.takes_comparison kind lead term sign⟩
    · intro left sign text events u hAt
      apply (achieves_expression hAt).mono
      intro _ v hPost
      rcases hPost with ⟨right, hRight, hOff⟩
      exact
        ⟨right, some (left, sign), right, rfl, hRight, hOff⟩
    · intro _ u hPost
      rcases hPost with ⟨whole, hWhole, hOff, hJoin⟩
      rcases hJoin hOn with ⟨left, sign, right, hWhole'⟩
      refine
        ⟨{ left := left, sign := sign, right := right }, ?_,
          hOff⟩
      subst hWhole'
      simpa [Comparison.text, Comparison.events,
        Comparison.chain] using hWhole
  · next hOn =>
    have hPassed :
        t.PassedComparands start draft kind (.single first)
          (text ++ Expression.text first)
          (events ++ [.comparison] ++ Expression.events first) :=
      ⟨none, first, rfl, hFirst, hOff⟩
    rcases hPassed.ended (by simpa using hOn) with
      ⟨ending, lead, last, hSingle, hStands, hRead⟩
    rcases lead with - | lead
    · exact achieves_fail (hStands.refused hRead)
    · cases hSingle

end Grammar

end TeenyC
