import TeenyC.Grammar.Program

/-
  The rules of the grammar move on in good order.

  A rule moves on only from a token that it has looked at, and
  never from the end of input. What it does otherwise is blind to
  the cursor and to the token ahead: it neither changes them nor
  takes a choice by them. So what holds of these few steps can be
  carried to every rule by one induction.

  Key definitions include:
    * `Session.look`
    * `Session.Blind`
    * `Production.Orderly`

  Key theorems include:
    * `Grammar.orderly_expression`
    * `Grammar.orderly_statement`
    * `Grammar.orderly_line`
    * `Grammar.orderly_program`
-/

namespace TeenyC

------------------------------------------------------------
-- Blind Changes
------------------------------------------------------------

namespace Session

/- The session with something else ahead. -/
def look
    (cursor : Cursor)
    (ahead : Token)
    (s : Session) : Session :=
  { s with
    cursor := cursor
    ahead := ahead }

/- A change that neither reads nor moves what is ahead. -/
structure Blind (f : Session → Session) : Prop where
  look : ∀ s cursor ahead,
    f (s.look cursor ahead) = (f s).look cursor ahead
  current : ∀ s, (f s).current = s.current

/- A blind change keeps the cursor and the token ahead. -/
theorem Blind.kept
    {f : Session → Session}
    (hBlind : Blind f)
    (s : Session) :
    (f s).cursor = s.cursor ∧ (f s).ahead = s.ahead := by
  have hLook := hBlind.look s s.cursor s.ahead
  change f s = _ at hLook
  rw [hLook]
  exact ⟨rfl, rfl⟩

/- To emit text is blind. -/
theorem blind_emit (text : String) :
    Blind (emit text) :=
  ⟨fun _ _ _ => rfl, fun _ => rfl⟩

/- To emit a line is blind. -/
theorem blind_emitLine (text : String) :
    Blind (emitLine text) :=
  ⟨fun _ _ _ => rfl, fun _ => rfl⟩

/- To add a line to the header is blind. -/
theorem blind_headerLine (text : String) :
    Blind (headerLine text) :=
  ⟨fun _ _ _ => rfl, fun _ => rfl⟩

/- To make a report is blind. -/
theorem blind_report (event : Event) :
    Blind (report event) :=
  ⟨fun _ _ _ => rfl, fun _ => rfl⟩

/- To declare a variable is blind. -/
theorem blind_declare (name : String) :
    Blind (declare name) := by
  constructor
  · intro s cursor ahead
    unfold declare
    change (if s.vars.contains name then _ else _) = _
    split <;> rfl
  · intro s
    unfold declare
    split <;> rfl

/- To add a label is blind. -/
theorem blind_addLabel (name : String) :
    Blind (addLabel name) :=
  ⟨fun _ _ _ => rfl, fun _ => rfl⟩

/- To add a jump is blind. -/
theorem blind_addJump (jump : Jump) :
    Blind (addJump jump) :=
  ⟨fun _ _ _ => rfl, fun _ => rfl⟩

end Session

------------------------------------------------------------
-- Orderly Rules
------------------------------------------------------------

namespace Production

/-
  A rule that is orderly at a token: run where that token is the
  current one, it moves on from no end of input, and does all
  else blindly. Behind a move the rest is orderly at any token.
-/
inductive Orderly : {α : Type} → Production α → Token → Prop
| pure
    {α : Type}
    {token : Token}
    (a : α) :
    Orderly (Pure.pure a) token
| fail
    {α : Type}
    {token : Token}
    {d : Diagnostic}
    (hOther : ∀ e, d ≠ .lexical e) :
    Orderly (Production.fail d : Production α) token
| update
    {token : Token}
    {f : Session → Session}
    {hLeft : ∀ s, (f s).left = s.left}
    (hBlind : Session.Blind f) :
    Orderly (Production.update f hLeft) token
| advance
    {token : Token}
    (hOpen : token.kind ≠ .eof) :
    Orderly Production.advance token
| bind
    {α β : Type}
    {token : Token}
    {first : Production α}
    {second : α → Production β}
    (hFirst : Orderly first token)
    (hSecond : ∀ a other, Orderly (second a) other) :
    Orderly (first >>= second) token
| update_bind
    {α : Type}
    {token : Token}
    {f : Session → Session}
    {hLeft : ∀ s, (f s).left = s.left}
    {second : Unit → Production α}
    (hBlind : Session.Blind f)
    (hSecond : Orderly (second ()) token) :
    Orderly (Production.update f hLeft >>= second) token
| withSession
    {α : Type}
    {token : Token}
    {choose : Session → Production α}
    (hBlind : ∀ s cursor ahead,
      choose (s.look cursor ahead) = choose s)
    (hChoice : ∀ s, s.current = token →
      Orderly (choose s) token) :
    Orderly (Production.withSession choose) token
| loop
    {β : Type}
    {token : Token}
    {goesOn : β → Session → Bool}
    {body : β → Production β}
    {hBody : ∀ b, (body b).Consumes (goesOn b · = true)}
    (hBlind : ∀ b s cursor ahead,
      goesOn b (s.look cursor ahead) = goesOn b s)
    (hRound : ∀ b s, goesOn b s = true →
      Orderly (body b) s.current)
    (b : β) :
    Orderly (Production.loop goesOn body hBody b) token

/- A choice by the current token is orderly if what it chooses is. -/
theorem Orderly.withCurrent
    {α : Type}
    {token : Token}
    {choose : Token → Production α}
    (hChoice : (choose token).Orderly token) :
    (withCurrent choose).Orderly token :=
  .withSession (fun _ _ _ => rfl) fun _ hToken =>
    hToken ▸ hChoice

end Production

namespace Grammar

open Production
open Session

variable {token : Token}

/- A grammar error is not the fault of a token. -/
theorem orderly_grammar
    {α : Type}
    (e : GrammarError) :
    (fail (.grammar e) : Production α).Orderly token :=
  .fail fun _ hSame => by cases hSame

/- A naming error is not the fault of a token. -/
theorem orderly_naming
    {α : Type}
    (e : NamingError) :
    (fail (.naming e) : Production α).Orderly token :=
  .fail fun _ hSame => by cases hSame

------------------------------------------------------------
-- Tokens and Ends of Lines
------------------------------------------------------------

/- A token of a kind is read in good order. -/
theorem orderly_expect
    {kind : Kind}
    (hKind : kind ≠ .eof)
    (token : Token) :
    (expect kind).Orderly token := by
  apply Orderly.withCurrent
  split
  · next hSame => exact .advance (by rwa [hSame])
  · exact orderly_grammar _

/- So is an identifier. -/
theorem orderly_expectIdent (token : Token) :
    expectIdent.Orderly token := by
  apply Orderly.withCurrent
  exact .bind (orderly_expect (by simp) token) fun _ _ => .pure _

/- So are line breaks. -/
theorem orderly_skipNewlines (token : Token) :
    skipNewlines.Orderly token := by
  apply Orderly.loop
  · exact fun _ _ _ _ => rfl
  · intro _ s hLine
    apply Orderly.advance
    simp only [atNewline, beq_iff_eq] at hLine
    simp [hLine]

/- So is the end of a line. -/
theorem orderly_endOfLine (token : Token) :
    endOfLine.Orderly token :=
  .bind (.update (blind_report _)) fun _ _ =>
    .bind (orderly_expect (by simp) _) fun _ =>
      orderly_skipNewlines

------------------------------------------------------------
-- Expressions
------------------------------------------------------------

/- A number or a variable is read in good order. -/
theorem orderly_primary (token : Token) :
    primary.Orderly token := by
  apply Orderly.withSession
  · exact fun _ _ _ => rfl
  · intro s hToken
    rw [← hToken]
    apply Orderly.update_bind (blind_report _)
    have hPass
        (hKind : s.current.kind ≠ .eof) :
        (do
          emit s.current.text
          advance : Production Unit).Orderly s.current :=
      .update_bind (blind_emit _) (.advance hKind)
    split
    · next hKind => exact hPass (by simp [hKind])
    · next hKind =>
      split
      · exact hPass (by simp [hKind])
      · exact orderly_naming _
    · exact orderly_grammar _

/- So is an operand with its sign. -/
theorem orderly_unary (token : Token) :
    unary.Orderly token := by
  apply Orderly.update_bind (blind_report _)
  apply Orderly.withCurrent
  split
  · next hSign =>
    have hOpen : token.kind ≠ .eof := by
      intro hKind
      rw [hKind] at hSign
      cases hSign
    apply Orderly.update_bind (blind_emit _)
    exact .bind (.advance hOpen) fun _ => orderly_primary
  · exact orderly_primary token

/- So is a chain if its operands are. -/
theorem orderly_chain
    {joins : Kind → Bool}
    (hEof : joins .eof = false)
    {operand : Production Unit}
    (hOperand : ∀ token, operand.Orderly token)
    (token : Token) :
    (chain joins hEof operand).Orderly token := by
  apply Orderly.loop
  · exact fun _ _ _ _ => rfl
  · intro _ s hJoins
    have hOpen : s.current.kind ≠ .eof := by
      intro hKind
      rw [hKind, hEof] at hJoins
      cases hJoins
    apply Orderly.withCurrent
    apply Orderly.update_bind (blind_emit _)
    exact .bind (.advance hOpen) fun _ => hOperand

/- So are factors. -/
theorem orderly_term (token : Token) :
    term.Orderly token :=
  .bind (.update (blind_report _)) fun _ _ =>
    .bind (orderly_unary _) fun _ =>
      orderly_chain rfl orderly_unary

/- So is an expression. -/
theorem orderly_expression (token : Token) :
    expression.Orderly token :=
  .bind (.update (blind_report _)) fun _ _ =>
    .bind (orderly_term _) fun _ =>
      orderly_chain rfl orderly_term

/- So is a comparison. -/
theorem orderly_comparison (token : Token) :
    comparison.Orderly token := by
  apply Orderly.bind (.update (blind_report _))
  intro _ _
  apply Orderly.bind (orderly_expression _)
  intro _ other
  apply Orderly.withCurrent
  split
  · exact orderly_chain rfl orderly_expression other
  · exact orderly_grammar _

------------------------------------------------------------
-- Statements
------------------------------------------------------------

/-
  A statement starts by passing its first token, which is not the
  end of input.
-/
theorem orderly_printStatement
    (hOpen : token.kind ≠ .eof) :
    printStatement.Orderly token := by
  apply Orderly.bind (.advance hOpen)
  intro _ other
  apply Orderly.withCurrent
  split
  · next hString =>
    apply Orderly.update_bind (blind_emitLine _)
    exact .advance (by simp [hString])
  · exact
      .bind (.update (blind_emit _)) fun _ _ =>
        .bind (orderly_expression _) fun _ _ =>
          .update (blind_emitLine _)

/- A block is opened in good order. -/
theorem orderly_openBlock
    (block : Block)
    (hOpen : token.kind ≠ .eof) :
    (openBlock block).Orderly token :=
  .bind (.advance hOpen) fun _ _ =>
    .bind (.update (blind_emit _)) fun _ _ =>
      .bind (orderly_comparison _) fun _ _ =>
        .bind (orderly_expect (by simp) _) fun _ _ =>
          .bind (orderly_endOfLine _) fun _ _ =>
            .update (blind_emitLine _)

/- A block is closed in good order. -/
theorem orderly_closeBlock
    (hOpen : token.kind ≠ .eof) :
    closeBlock.Orderly token :=
  .bind (.advance hOpen) fun _ _ =>
    .bind (.update (blind_emitLine _)) fun _ =>
      orderly_endOfLine

/- A label is declared in good order. -/
theorem orderly_labelStatement
    (hOpen : token.kind ≠ .eof) :
    labelStatement.Orderly token := by
  apply Orderly.bind (.advance hOpen)
  intro _ _
  apply Orderly.bind (orderly_expectIdent _)
  intro name other
  apply Orderly.withSession
  · exact fun _ _ _ => rfl
  · intro s _
    split
    · exact orderly_naming _
    · exact
        .bind (.update (blind_emitLine _)) fun _ _ =>
          .update (blind_addLabel _)

/- A jump is read in good order. -/
theorem orderly_gotoStatement
    (hOpen : token.kind ≠ .eof) :
    gotoStatement.Orderly token :=
  .bind (.advance hOpen) fun _ _ =>
    .bind (orderly_expectIdent _) fun _ _ =>
      .bind (.update (blind_emitLine _)) fun _ _ =>
        .update (blind_addJump _)

/- So is an assignment. -/
theorem orderly_letStatement
    (hOpen : token.kind ≠ .eof) :
    letStatement.Orderly token :=
  .bind (.advance hOpen) fun _ _ =>
    .bind (orderly_expectIdent _) fun _ _ =>
      .bind (.update (blind_declare _)) fun _ _ =>
        .bind (.update (blind_emit _)) fun _ _ =>
          .bind (orderly_expect (by simp) _) fun _ _ =>
            .bind (orderly_expression _) fun _ _ =>
              .update (blind_emitLine _)

/- So is the reading of a variable. -/
theorem orderly_inputStatement
    (hOpen : token.kind ≠ .eof) :
    inputStatement.Orderly token :=
  .bind (.advance hOpen) fun _ _ =>
    .bind (orderly_expectIdent _) fun _ _ =>
      .bind (.update (blind_declare _)) fun _ _ =>
        .bind (.update (blind_emitLine _)) fun _ _ =>
          .bind (.update (blind_emitLine _)) fun _ _ =>
            .bind (.update (blind_emitLine _)) fun _ _ =>
              .update (blind_emitLine _)

/- So is any statement. -/
theorem orderly_statement
    (token : Token)
    (blocks : List Block) :
    (statement token blocks).Orderly token := by
  have hEnd
      {p : Production Unit}
      (hLine : p.Orderly token) :
      (do
        p
        endOfLine
        return blocks : Production (List Block)).Orderly token :=
    .bind hLine fun _ _ =>
      .bind (orderly_endOfLine _) fun _ _ => .pure _
  unfold statement
  split
  · next h => exact hEnd (orderly_printStatement (by simp [h]))
  · next h =>
    exact
      .bind (orderly_openBlock _ (by simp [h])) fun _ _ => .pure _
  · next h =>
    exact
      .bind (orderly_openBlock _ (by simp [h])) fun _ _ => .pure _
  · next h => exact hEnd (orderly_labelStatement (by simp [h]))
  · next h => exact hEnd (orderly_gotoStatement (by simp [h]))
  · next h => exact hEnd (orderly_letStatement (by simp [h]))
  · next h => exact hEnd (orderly_inputStatement (by simp [h]))
  · exact orderly_grammar _

------------------------------------------------------------
-- Programs
------------------------------------------------------------

/- A line is read in good order. -/
theorem orderly_line
    (blocks : List Block)
    (token : Token) :
    (line blocks).Orderly token := by
  apply Orderly.withCurrent
  split
  · next outer hOuter =>
    have hOpen : token.kind ≠ .eof := by
      intro hKind
      rw [hKind, outer?_eof] at hOuter
      cases hOuter
    exact .bind (orderly_closeBlock hOpen) fun _ _ => .pure _
  · apply Orderly.update_bind (blind_report _)
    exact orderly_statement token blocks

/- So are all lines. -/
theorem orderly_lines (token : Token) :
    lines.Orderly token := by
  apply Orderly.loop
  · exact fun _ _ _ _ => rfl
  · exact fun blocks s _ => orderly_line blocks s.current

/- The jumps are checked without a look ahead. -/
theorem orderly_checkJumps (token : Token) :
    checkJumps.Orderly token := by
  apply Orderly.withSession
  · exact fun _ _ _ => rfl
  · intro s _
    split
    · exact .pure _
    · exact orderly_naming _

/- A program is read in good order. -/
theorem orderly_program (token : Token) :
    program.Orderly token :=
  .bind (.update (blind_report _)) fun _ _ =>
    .bind (.update (blind_headerLine _)) fun _ _ =>
      .bind (.update (blind_headerLine _)) fun _ _ =>
        .bind (orderly_skipNewlines _) fun _ _ =>
          .bind (orderly_lines _) fun _ _ =>
            .bind (.update (blind_emitLine _)) fun _ _ =>
              .bind (.update (blind_emitLine _)) fun _ =>
                orderly_checkJumps

end Grammar

end TeenyC
