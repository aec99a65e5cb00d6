import TeenyC.Compile
import TeenyC.Proofs.Parsing.Statement

/-
  What the rule for whole programs achieves, and what comes of a
  compilation.

  Key definitions include:
    * `Session.HasRead`
    * `Compilation.Outcome`

  Key theorems include:
    * `Grammar.achieves_lines`
    * `Grammar.achieves_program`
    * `Compilation.outcome`
-/

namespace TeenyC

open TeenyC.Tree

------------------------------------------------------------
-- Programs that Are Read
------------------------------------------------------------

/-
  The session has read a program, knows its names, and has
  written and reported its statements.
-/
structure Session.HasRead
    (start : Cursor)
    (history : History)
    (program : Statements)
    (s : Session) : Prop where
  reads : start.Reads history program
  knows : s.Knows history
  wrote : s.Wrote program.text (.program :: program.events)

namespace Grammar

open Production

variable {start : Cursor}
variable {s : Session}

/- At the end of input outside all blocks a program is read. -/
theorem hasRead_of_atMargin
    {draft : Draft}
    (hAt : s.AtMargin start draft)
    (hBlocks : draft.blocks = [])
    (hKind : s.current.kind = .eof) :
    ∃ history program, s.HasRead start history program := by
  have hWord := hAt.stands.fixed_word .finish hKind trivial
  have hFrames : draft.frames = [] := List.map_eq_nil_iff.mp hBlocks
  have hRead :
      draft.read s.current.word =
        .ok (.finish, Draft.whole draft.done) := by
    simp [Draft.read, hAt.spot, Draft.readMargin, Token.word,
      hKind, hFrames]
  rcases hAt.stands with
    ⟨history, passed, hFollows, hAlike, hKnows, hWrote⟩
  have hTakes :
      passed.Takes .finish (Draft.whole draft.done) := by
    unfold Draft.Takes
    rw [hWord, hAlike, hRead]
  have hNoted :
      s.Knows
        (history ++
          [{ leaf := .finish, line := s.current.line }]) :=
    hKnows.record trivial
  refine
    ⟨history ++ [{ leaf := .finish, line := s.current.line }],
      draft.done, ⟨?_, ?_, ?_, hNoted.named⟩, hNoted, ?_⟩
  · have hSupplied := hFollows.supplied
    rw [List.append_cons] at hSupplied
    rcases hSupplied.split with ⟨last, hProgram, _⟩
    refine ⟨last, ?_⟩
    rwa [History.tokens_snoc, Placed.token_eq hWord]
  · exact
      ⟨history.tokens, _, History.tokens_snoc _ _, rfl,
        History.kind_ne_eof hFollows.unfinished⟩
  · rw [History.leaves_snoc]
    exact hFollows.path.snoc hTakes
  · simpa [Draft.text, Draft.events, hFrames] using hWrote

/- Lines are read up to the end of the program. -/
theorem achieves_lines
    (hAt : s.AtLine start []) :
    lines.Achieves start s fun _ t =>
      ∃ history program, t.HasRead start history program := by
  refine Achieves.mono
    (achieves_loop
      (fun blocks t => t.AtLine start blocks)
      ?_ [] s hAt) ?_
  · intro blocks t hMore hLine
    exact achieves_line hLine hMore
  · intro blocks t hPost
    rcases hPost with ⟨⟨draft, hLine, hBlocks⟩, hOff⟩
    simp only [hasLine, Bool.or_eq_false_iff,
      Bool.not_eq_eq_eq_not, Bool.not_false,
      List.isEmpty_iff, bne_eq_false_iff_eq] at hOff
    obtain ⟨hNone, hKind⟩ := hOff
    exact hasRead_of_atMargin hLine (hBlocks ▸ hNone) hKind

/- Jumps are checked once all labels are known. -/
theorem achieves_checkJumps
    {history : History}
    {program : Statements}
    (hReads : start.Reads history program)
    (hKnows : s.Knows history) :
    checkJumps.Achieves start s fun _ t =>
      t = s ∧ history.stray? = none := by
  have hStray : s.strayJump? = history.stray? := by
    unfold Session.strayJump? History.stray?
    rw [hKnows.jumps, hKnows.labels]
  apply achieves_withSession
  split
  · next hNone => exact achieves_pure ⟨rfl, hStray ▸ hNone⟩
  · next jump hSome =>
    exact achieves_fail (.stray hReads (hStray ▸ hSome))

/- The session before the first token, with the first lines. -/
theorem stands_begin
    (hBegin : Session.begin start Artifact.empty = .ok s) :
    (((s.report .program).headerLine
        "#include <stdio.h>").headerLine
          "int main(void)\x7b").Stands start Draft.start ""
      [.program] := by
  unfold Session.begin at hBegin
  split at hBegin
  · cases hBegin
  · next current second hFirst =>
    split at hBegin
    · cases hBegin
    · next ahead third hSecond =>
      cases hBegin
      refine ⟨[], Draft.start, ⟨?_, .nil, List.not_mem_nil⟩, rfl, ?_,
        rfl, rfl⟩
      · exact .cons hFirst (.cons hSecond .nil)
      · exact ⟨Leaf.wellNamed_nil, rfl, rfl, rfl, rfl⟩

/- A program is read from the start of its text. -/
theorem achieves_program
    (hBegin : Session.begin start Artifact.empty = .ok s) :
    program.Achieves start s fun _ t =>
      ∃ history program,
        start.Reads history program ∧ history.stray? = none ∧
          t.artifact.output = program.generate ∧
            t.events.toList = .program :: program.events ∧
              t.vars = (Leaf.targets history.leaves).eraseDups ∧
                t.labels = Leaf.labels history.leaves := by
  have hStands := stands_begin hBegin
  apply achieves_update_bind
  apply achieves_update_bind
  apply achieves_update_bind
  apply achieves_bind
  apply (achieves_skipNewlines hStands rfl).mono
  intro _ t hPost
  rcases hPost with ⟨hAt, hKind⟩
  apply achieves_bind
  apply (achieves_lines ⟨_, ⟨rfl, hAt, hKind⟩, rfl⟩).mono
  intro _ u hPost
  rcases hPost with ⟨history, program, hReads, hKnows, hWrote⟩
  apply achieves_emitLine_bind
  apply achieves_emitLine_bind
  apply (achieves_checkJumps hReads hKnows.write.write).mono
  intro _ v hPost
  rcases hPost with ⟨hSame, hStray⟩
  subst hSame
  have hAll :=
    (hWrote.emit (codeLine "return 0;")).emit (codeLine "\x7d")
  refine ⟨history, program, hReads, hStray, ?_, hAll.events,
    hKnows.vars, hKnows.labels⟩
  have hTargets := hReads.spells.targets_eq
  have hHeader := hKnows.header
  rw [hKnows.vars, hTargets] at hHeader
  rw [Artifact.output, hAll.body]
  change u.artifact.header ++ _ = _
  rw [hHeader]
  simp [Statements.generate, Statements.closing,
    String.append_assoc]

end Grammar

------------------------------------------------------------
-- Compilations
------------------------------------------------------------

namespace Compilation

/-
  A compilation that succeeds yields the C program of what it
  has read; one that fails gives a diagnostic that is deserved.
-/
inductive Outcome (start : Cursor) : Compilation → Prop
| accepted
    {c : Compilation}
    {artifact : Artifact}
    {history : History}
    {program : Statements}
    (hResult : c.result = .ok artifact)
    (hReads : start.Reads history program)
    (hStray : history.stray? = none)
    (hOutput : artifact.output = program.generate)
    (hEvents :
      c.events.toList =
        .program :: program.events ++
          [.parsed program.targets.eraseDups.length
            (Leaf.labels history.leaves).length]) :
    Outcome start c
| refused
    {c : Compilation}
    {d : Diagnostic}
    (hResult : c.result = .error d)
    (hRefused : Refused start d) :
    Outcome start c

/- What comes of the compilation of any source. -/
theorem outcome (source : String) :
    Outcome (Cursor.start source) (ofSource source) := by
  unfold ofSource
  split
  · next s hBegin =>
    have hProgram := Grammar.achieves_program hBegin
    unfold Production.Achieves at hProgram
    unfold ofSession
    split at hProgram
    · next t hRun =>
      rcases hProgram with
        ⟨history, program, hReads, hStray, hOutput, hEvents,
          hVars, hLabels⟩
      rw [hRun]
      refine .accepted rfl hReads hStray hOutput ?_
      simp [hEvents, hVars, hLabels, hReads.spells.targets_eq]
    · next d t hRun =>
      rw [hRun]
      exact .refused rfl hProgram
  · next e hBegin =>
    refine .refused rfl ?_
    unfold Session.begin at hBegin
    split at hBegin
    · next hFault =>
      cases hBegin
      exact .lexical .nil hFault
    · next current second hFirst =>
      split at hBegin
      · next hFault =>
        cases hBegin
        exact .lexical (.cons hFirst .nil) hFault
      · cases hBegin

end Compilation

end TeenyC
