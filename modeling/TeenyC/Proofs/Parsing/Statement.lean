import TeenyC.Grammar.Statement
import TeenyC.Proofs.Parsing.Expression
import TeenyC.Proofs.Tree.Output

/-
  What the rules for statements achieve. Between lines a session
  stands at the margin of a draft, and has written and reported
  what belongs to the draft.

  Key definitions include:
    * `Session.EndsLine`
    * `Session.AtMargin`

  Key theorems include:
    * `Grammar.achieves_simple`
    * `Grammar.achieves_openBlock`
    * `Grammar.achieves_closeBlock`
    * `Grammar.achieves_line`
-/

namespace TeenyC

open TeenyC.Tree

------------------------------------------------------------
-- Lines
------------------------------------------------------------

namespace Session

/-
  The session stands at the end of a line with a simple
  statement, which it has written and reported.
-/
def EndsLine
    (start : Cursor)
    (draft : Draft)
    (simple : Simple)
    (text : String)
    (events : List Event)
    (s : Session) : Prop :=
  ∃ ending : Draft,
    s.Stands start ending (text ++ simple.text)
        (events ++ simple.heldEvents) ∧
      ending.read s.current.word =
        Draft.readLineEnd (draft.add simple) s.current.kind

/- The session stands at a line that is not blank. -/
structure AtMargin
    (start : Cursor)
    (draft : Draft)
    (s : Session) : Prop where
  spot : draft.spot = .margin
  stands :
    s.Stands start draft draft.text (.program :: draft.events)
  current : s.current.kind ≠ .newline

/- The session stands at a line within the given blocks. -/
def AtLine
    (start : Cursor)
    (blocks : List Block)
    (s : Session) : Prop :=
  ∃ draft : Draft, s.AtMargin start draft ∧ blocks = draft.blocks

end Session

namespace Grammar

open Production

variable {start : Cursor}
variable {draft next : Draft}
variable {text : String}
variable {events : List Event}
variable {s : Session}

/- The word that begins a line is passed. -/
theorem achieves_begin
    (hStands : s.Stands start draft text events)
    (hMargin : draft.spot = .margin)
    {word : Keyword}
    {spot : Spot}
    (hBegun : Spot.begun? word = some spot)
    (hKind : s.current.kind = .keyword word) :
    advance.Achieves start s fun _ t =>
      t.Stands start (draft.move spot) text events := by
  have hWord := hStands.fixed_word (.keyword word) hKind trivial
  exact
    achieves_advance hStands
      ((Draft.takes_begun hMargin hBegun).read_eq hWord)
      trivial trivial

------------------------------------------------------------
-- Simple Statements
------------------------------------------------------------

/- A string or the value of an expression is printed. -/
theorem achieves_printStatement
    (hStands : s.Stands start draft text events)
    (hMargin : draft.spot = .margin)
    (hKind : s.current.kind = .keyword .print) :
    printStatement.Achieves start s fun _ t =>
      ∃ simple : Simple,
        simple.keyword = .print ∧
          t.EndsLine start draft simple text events := by
  apply achieves_bind
  apply (achieves_begin hStands hMargin rfl hKind).mono
  intro _ t hPrinted
  apply achieves_withCurrent
  split
  · next hString =>
    have hWord :
        (Leaf.literal t.current.text).word = t.current.word :=
      Prod.ext hString.symm rfl
    have hRead := (Draft.takes_literal draft _).read_eq hWord
    apply achieves_emitLine_bind
    apply
      (achieves_advance (hPrinted.emit _) hRead trivial
        trivial).mono
    intro _ u hAt
    rw [← List.append_nil events] at hAt
    exact
      ⟨.printText t.current.text, rfl, _, hAt,
        Draft.read_lineEnd_eq draft _ _⟩
  · next hString =>
    have hRead :=
      Draft.read_printed_eq draft t.current.word hString
    have hOperand := hPrinted.turn hRead
    apply achieves_emit_bind
    apply achieves_bind
    apply (achieves_expression (hOperand.emit _)).mono
    intro _ u hPost
    rcases hPost with ⟨value, hPassed, hAdditive⟩
    rcases hPassed.ended hAdditive with ⟨ending, hAt, hEnd⟩
    apply achieves_emitLine
    refine ⟨.printValue value, rfl, ending, ?_, hEnd⟩
    rw [Simple.text_printValue]
    simpa [Simple.heldEvents, String.append_assoc] using
      hAt.emit (codeLine "));")

/- A label is declared, unless it has been declared before. -/
theorem achieves_labelStatement
    (hStands : s.Stands start draft text events)
    (hMargin : draft.spot = .margin)
    (hKind : s.current.kind = .keyword .label) :
    labelStatement.Achieves start s fun _ t =>
      ∃ simple : Simple,
        simple.keyword = .label ∧
          t.EndsLine start draft simple text events := by
  apply achieves_bind
  apply (achieves_begin hStands hMargin rfl hKind).mono
  intro _ t hNaming
  apply achieves_bind
  apply (achieves_expectIdent hNaming).mono
  intro token u hAwaits
  apply achieves_withSession
  split
  · next hTwice =>
    apply achieves_fail
    apply hAwaits.refused
    exact fun hPermits =>
      hPermits (List.contains_iff_mem.mp hTwice)
  · next hOnce =>
    have hPermits : u.Permits (.label token.text) :=
      fun hMember => hOnce (List.contains_iff_mem.mpr hMember)
    apply achieves_emitLine_bind
    have hAt :=
      (hAwaits.emit (codeLine (token.text ++ ":;"))).record
        hPermits
    rw [← List.append_nil events] at hAt
    exact
      ⟨.label token.text, rfl, _, hAt,
        Draft.read_lineEnd_eq draft _ _⟩

/- A jump is noted, with the line it stands on. -/
theorem achieves_gotoStatement
    (hStands : s.Stands start draft text events)
    (hMargin : draft.spot = .margin)
    (hKind : s.current.kind = .keyword .goto) :
    gotoStatement.Achieves start s fun _ t =>
      ∃ simple : Simple,
        simple.keyword = .goto ∧
          t.EndsLine start draft simple text events := by
  apply achieves_bind
  apply (achieves_begin hStands hMargin rfl hKind).mono
  intro _ t hNaming
  apply achieves_bind
  apply (achieves_expectIdent hNaming).mono
  intro token u hAwaits
  apply achieves_emitLine_bind
  have hAt :=
    (hAwaits.emit
      (codeLine ("goto " ++ token.text ++ ";"))).record trivial
  rw [← List.append_nil events] at hAt
  exact
    ⟨.jump token.text, rfl, _, hAt,
      Draft.read_lineEnd_eq draft _ _⟩

/- The value of an expression is assigned to a variable. -/
theorem achieves_letStatement
    (hStands : s.Stands start draft text events)
    (hMargin : draft.spot = .margin)
    (hKind : s.current.kind = .keyword .letKw) :
    letStatement.Achieves start s fun _ t =>
      ∃ simple : Simple,
        simple.keyword = .letKw ∧
          t.EndsLine start draft simple text events := by
  apply achieves_bind
  apply (achieves_begin hStands hMargin rfl hKind).mono
  intro _ t hNaming
  apply achieves_bind
  apply (achieves_expectIdent hNaming).mono
  intro token u hAwaits
  have hDeclared := hAwaits.record trivial
  apply achieves_update_bind
  apply achieves_emit_bind
  apply achieves_bind
  apply
    (achieves_expect (hDeclared.emit _) rfl trivial
      trivial).mono
  intro _ v hAssigned
  apply achieves_bind
  apply (achieves_expression hAssigned).mono
  intro _ w hPost
  rcases hPost with ⟨value, hPassed, hAdditive⟩
  rcases hPassed.ended hAdditive with ⟨ending, hAt, hEnd⟩
  apply achieves_emitLine
  refine ⟨.assign token.text value, rfl, ending, ?_, hEnd⟩
  rw [Simple.text_assign]
  simpa [Simple.heldEvents, String.append_assoc] using
    hAt.emit (codeLine ";")

/- A variable is read from the input. -/
theorem achieves_inputStatement
    (hStands : s.Stands start draft text events)
    (hMargin : draft.spot = .margin)
    (hKind : s.current.kind = .keyword .input) :
    inputStatement.Achieves start s fun _ t =>
      ∃ simple : Simple,
        simple.keyword = .input ∧
          t.EndsLine start draft simple text events := by
  apply achieves_bind
  apply (achieves_begin hStands hMargin rfl hKind).mono
  intro _ t hNaming
  apply achieves_bind
  apply (achieves_expectIdent hNaming).mono
  intro token u hAwaits
  have hDeclared := hAwaits.record trivial
  apply achieves_update_bind
  apply achieves_emitLine_bind
  apply achieves_emitLine_bind
  apply achieves_emitLine_bind
  apply achieves_emitLine
  refine
    ⟨.input token.text, rfl,
      draft.move (.lineEnd (.input token.text)), ?_,
      Draft.read_lineEnd_eq draft _ _⟩
  rw [Simple.append_text_input]
  simp only [Simple.heldEvents, List.append_nil]
  exact (((hDeclared.emit _).emit _).emit _).emit _

/- A line holds a simple statement and ends. -/
theorem achieves_simple
    {p : Production Unit}
    {word : Keyword}
    (hStatement :
      p.Achieves start s fun _ t =>
        ∃ simple : Simple,
          simple.keyword = word ∧
            t.EndsLine start draft simple draft.text
              (.program :: draft.events ++
                [.statement (.keyword word)])) :
    (do
      p
      endOfLine
      return draft.blocks : Production (List Block)).Achieves
      start s fun blocks t => t.AtLine start blocks := by
  apply achieves_bind
  apply hStatement.mono
  intro _ t hPost
  rcases hPost with ⟨simple, hWord, ending, hStands, hRead⟩
  apply achieves_bind
  apply (achieves_endOfLine hStands hRead rfl).mono
  intro _ u hPost
  rcases hPost with ⟨hAt, hKind⟩
  refine
    achieves_pure ⟨draft.add simple, ⟨rfl, ?_, hKind⟩, rfl⟩
  rw [Draft.text_add, Draft.events_add]
  simpa [Simple.events, hWord] using hAt

------------------------------------------------------------
-- Blocks
------------------------------------------------------------

/- A block is opened at its condition. -/
theorem achieves_openBlock
    (kind : Block)
    (hStands :
      s.Stands start draft draft.text
        (.program :: draft.events ++
          [.statement (.keyword kind.opener)]))
    (hMargin : draft.spot = .margin)
    (hKind : s.current.kind = .keyword kind.opener) :
    (do
      openBlock kind
      return kind :: draft.blocks :
        Production (List Block)).Achieves
      start s fun blocks t => t.AtLine start blocks := by
  have hBegun :
      Spot.begun? kind.opener =
        some (.operand (.condition kind none) none none none) := by
    cases kind <;> rfl
  apply achieves_bind
  apply achieves_bind
  apply (achieves_begin hStands hMargin hBegun hKind).mono
  intro _ t hCondition
  apply achieves_emit_bind
  apply achieves_bind
  apply (achieves_comparison (hCondition.emit _)).mono
  intro _ u hPost
  rcases hPost with ⟨condition, hPassed, hComparison⟩
  rcases hPassed.ended hComparison with
    ⟨ending, lead, last, hWhole, hEnded, hRead⟩
  rcases lead with - | ⟨left, sign⟩
  · cases hWhole
  · cases hWhole
    apply achieves_bind
    rw [kind.separator_eq_divider]
    apply (achieves_expect hEnded hRead trivial trivial).mono
    intro _ v hOpened
    apply achieves_bind
    apply (achieves_endOfLine hOpened rfl rfl).mono
    intro _ w hPost
    rcases hPost with ⟨hAt, hLine⟩
    apply achieves_emitLine
    apply achieves_pure
    refine
      ⟨draft.push kind condition, ⟨rfl, ?_, hLine⟩, rfl⟩
    have hPushed := hAt.emit (codeLine ")\x7b")
    change Session.Stands start (draft.push kind condition) _ _ _
      at hPushed
    rw [Draft.text_push, Draft.events_push, codeLine_append]
    simpa [String.append_assoc, Block.opening_eq_head] using
      hPushed

/- The innermost block is closed. -/
theorem achieves_closeBlock
    {frame : Frame}
    {outer : List Frame}
    (hAt : s.AtMargin start draft)
    (hFrames : draft.frames = frame :: outer)
    (hKind : s.current.kind = .keyword frame.kind.closer) :
    (do
      closeBlock
      return outer.map Frame.kind :
        Production (List Block)).Achieves
      start s fun blocks t => t.AtLine start blocks := by
  have hRead :
      draft.read s.current.word =
        .ok
          (.keyword frame.kind.closer, draft.move .closed) := by
    simp [Draft.read, hAt.spot, Draft.readMargin, Token.word,
      hKind, Draft.blocks, hFrames, Block.outer?]
  apply achieves_bind
  apply achieves_bind
  apply (achieves_advance hAt.stands hRead trivial trivial).mono
  intro _ t hClosed
  apply achieves_emitLine_bind
  have hSpot : (draft.move .closed).pop.spot = .margin := by
    simp [Draft.pop, Draft.move, hFrames]
  apply (achieves_endOfLine (hClosed.emit _) rfl hSpot).mono
  intro _ u hPost
  rcases hPost with ⟨hPopped, hLine⟩
  have hPop : (draft.move .closed).pop = draft.pop := by
    simp [Draft.pop, Draft.move, hFrames]
  rw [hPop] at hSpot hPopped
  refine
    achieves_pure ⟨draft.pop, ⟨hSpot, ?_, hLine⟩, ?_⟩
  · rw [Draft.text_pop hFrames, Draft.events_pop hFrames]
    exact hPopped
  · simp [Draft.blocks, Draft.pop, hFrames]

------------------------------------------------------------
-- Lines
------------------------------------------------------------

/- A word that begins no line and closes no block is refused. -/
theorem readMargin_error
    {kind : Kind}
    (hNewline : kind ≠ .newline)
    (hEnd : draft.blocks ≠ [] ∨ kind ≠ .eof)
    (hOuter : Block.outer? draft.blocks kind = none)
    (hBegun : ∀ word, kind = .keyword word → Spot.begun? word = none) :
    draft.readMargin kind = .error .statement := by
  cases kind with
  | newline => exact absurd rfl hNewline
  | eof =>
      have hFrames : draft.frames ≠ [] := by
        simpa [Draft.blocks] using hEnd
      simp [Draft.readMargin, hFrames]
  | keyword word =>
      simp [Draft.readMargin, hOuter, hBegun word rfl]
  | _ => rfl

/- A statement is read at the start of its line. -/
theorem achieves_statement
    (hAt : s.AtMargin start draft)
    (hOuter : Block.outer? draft.blocks s.current.kind = none)
    (hEnd : draft.blocks ≠ [] ∨ s.current.kind ≠ .eof) :
    (report (.statement s.current.kind) >>= fun _ =>
      statement s.current draft.blocks).Achieves start s
      fun blocks t => t.AtLine start blocks := by
  have hStands := hAt.stands.report (.statement s.current.kind)
  have hMargin := hAt.spot
  apply achieves_report_bind
  unfold statement
  split
  · next hKind =>
    rw [hKind] at hStands ⊢
    exact
      achieves_simple
        (achieves_printStatement hStands hMargin hKind)
  · next hKind =>
    rw [hKind] at hStands ⊢
    exact
      achieves_openBlock .conditional hStands hMargin hKind
  · next hKind =>
    rw [hKind] at hStands ⊢
    exact
      achieves_openBlock .repetition hStands hMargin hKind
  · next hKind =>
    rw [hKind] at hStands ⊢
    exact
      achieves_simple
        (achieves_labelStatement hStands hMargin hKind)
  · next hKind =>
    rw [hKind] at hStands ⊢
    exact
      achieves_simple
        (achieves_gotoStatement hStands hMargin hKind)
  · next hKind =>
    rw [hKind] at hStands ⊢
    exact
      achieves_simple
        (achieves_letStatement hStands hMargin hKind)
  · next hKind =>
    rw [hKind] at hStands ⊢
    exact
      achieves_simple
        (achieves_inputStatement hStands hMargin hKind)
  · next hPrint hIf hWhile hLabel hGoto hLet hInput =>
    apply achieves_fail
    apply hAt.stands.refused
    have hBegun :
        ∀ word, s.current.kind = .keyword word →
          Spot.begun? word = none := by
      intro word hKind
      cases word <;> first | rfl | contradiction
    simpa [Draft.read, hMargin, Token.word] using
      readMargin_error hAt.current hEnd hOuter hBegun

/- A line is read where one begins. -/
theorem achieves_line
    {blocks : List Block}
    (hAt : s.AtLine start blocks)
    (hMore : hasLine blocks s = true) :
    (line blocks).Achieves start s fun held t =>
      t.AtLine start held := by
  rcases hAt with ⟨draft, hAt, hBlocks⟩
  subst hBlocks
  apply achieves_withCurrent
  split
  · next outer hOuter =>
    rcases hFrames : draft.frames with - | ⟨frame, frames⟩
    · simp [Draft.blocks, hFrames, Block.outer?] at hOuter
    · simp only [Draft.blocks, hFrames, List.map_cons,
        Block.outer?, Option.ite_none_right_eq_some,
        Option.some.injEq] at hOuter
      obtain ⟨hKind, hRest⟩ := hOuter
      subst hRest
      exact achieves_closeBlock hAt hFrames hKind
  · next hOuter =>
    apply achieves_statement hAt hOuter
    simpa [hasLine] using hMore

end Grammar

end TeenyC
