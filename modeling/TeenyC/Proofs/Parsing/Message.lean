import TeenyC.Proofs.Parsing.FirstFault
import TeenyC.Proofs.Parsing.Lookahead
import TeenyC.Proofs.Token.OneLine

/-
  Diagnostics are told on one line.

  A message is put together from fixed words, numbers, and what
  was met in the program: characters, which are escaped, and texts
  of tokens. A line break and the end of input are told by their
  names, and every other token has a text on one line.

  Key theorems include:
    * `LexError.onOneLine`
    * `GrammarError.onOneLine`
    * `NamingError.onOneLine`
    * `Refused.onOneLine`
    * `diagnostics_stay_on_one_line`
-/

namespace TeenyC

open TeenyC.Text

------------------------------------------------------------
-- Messages
------------------------------------------------------------

/- A lexical error is told on one line if its cause is. -/
theorem LexError.onOneLine
    {e : LexError}
    (hCause : OnOneLine e.cause.message) :
    OnOneLine (Diagnostic.lexical e).message := by
  have hLine := onOneLine_toString e.line
  have hPosition := onOneLine_toString e.position
  change
    OnOneLine
      ("lex error at line " ++ toString e.line ++ " (byte " ++
        toString e.position ++ "): " ++ e.cause.message)
  simp only [onOneLine_append_iff, hLine, hPosition, hCause,
    and_true]
  decide

/- A grammar error is told on one line if its token is well spelled. -/
theorem GrammarError.onOneLine
    {e : GrammarError}
    (hFound : e.found.Spelled) :
    OnOneLine (Diagnostic.grammar e).message := by
  have hLine := onOneLine_toString e.found.line
  have hToken := hFound.onOneLine_describe
  have hMessage : OnOneLine e.message := by
    unfold GrammarError.message
    split
    · next kind _ =>
      have hKind := kind.onOneLine_name
      simp only [onOneLine_append_iff, hKind, hToken, and_true]
      decide
    all_goals
      simp only [onOneLine_append_iff, hToken, and_true]
      decide
  change
    OnOneLine
      ("parse error at line " ++ toString e.found.line ++ ": " ++
        e.message)
  simp only [onOneLine_append_iff, hLine, hMessage, and_true]
  decide

/- A naming error is told on one line if its name is. -/
theorem NamingError.onOneLine
    {e : NamingError}
    (hName : OnOneLine e.name) :
    OnOneLine (Diagnostic.naming e).message := by
  have hLine := onOneLine_toString e.line
  have hMessage : OnOneLine e.message := by
    unfold NamingError.message
    split
    all_goals
      simp only [onOneLine_append_iff, hName, and_true]
      decide
  change
    OnOneLine
      ("semantic error at line " ++ toString e.line ++ ": " ++
        e.message)
  simp only [onOneLine_append_iff, hLine, hMessage, and_true]
  decide

------------------------------------------------------------
-- Refusals
------------------------------------------------------------

/- Whatever is wrong with a program is told on one line. -/
theorem Refused.onOneLine
    {start : Cursor}
    {d : Diagnostic}
    (hRefused : Refused start d) :
    OnOneLine d.message := by
  cases hRefused with
  | lexical _ hFault =>
      exact LexError.onOneLine (Cursor.onOneLine_of_fault hFault)
  | @grammar _ token _ _ _ _ _ hSupplied =>
      have hSpelled := hSupplied.spelled token (by simp)
      exact GrammarError.onOneLine hSpelled
  | @naming _ placed _ _ _ _ hSupplied _ _ _ hOffends =>
      have hSpelled := hSupplied.spelled placed.token (by simp)
      have hIdent : placed.leaf.kind = .ident := by
        rcases Leaf.Allowed.cases_not hOffends with
          ⟨name, hLeaf, _⟩ | ⟨name, hLeaf, _⟩
        · rw [hLeaf]
          rfl
        · rw [hLeaf]
          rfl
      have hKind : placed.token.kind ≠ .newline := by
        simp [Placed.token, hIdent]
      exact NamingError.onOneLine (hSpelled.onOneLine hKind)
  | @stray history _ jump hReads hStray =>
      rcases History.stray?_eq_some hStray with
        ⟨before, after, hHistory, _, _⟩
      rcases hReads.supplied with ⟨last, hSupplied⟩
      let target : Placed :=
        { leaf := .jump jump.label, line := jump.line }
      have hMember : target.token ∈ history.tokens := by
        rw [hHistory]
        simp [History.tokens, target]
      have hSpelled := hSupplied.spelled target.token hMember
      have hKind : target.token.kind ≠ .newline := by
        simp [Placed.token, Leaf.kind, target]
      exact NamingError.onOneLine (hSpelled.onOneLine hKind)

/- The fault that a cursor stops at is told on one line. -/
theorem Cursor.Stops.onOneLine
    {c : Cursor}
    {tokens : List Token}
    {e : LexError}
    (hStops : c.Stops tokens e) :
    OnOneLine (Diagnostic.lexical e).message := by
  induction hStops with
  | fault hFault =>
      exact LexError.onOneLine (Cursor.onOneLine_of_fault hFault)
  | cons _ _ _ ih => exact ih

/-
  Whatever error a compilation or a scan gives for any text, its
  message holds no line break, carriage return, tab or NUL.
-/
theorem diagnostics_stay_on_one_line (source : String) :
    (∀ d,
        compile source = .error d → OnOneLine d.message) ∧
      ∀ e,
        tokenize source = .error e →
          OnOneLine (Diagnostic.lexical e).message := by
  constructor
  · intro d hCompile
    exact (refused_of_compile hCompile).onOneLine
  · intro e hTokens
    rcases (tokenize_eq_error_iff source e).mp hTokens with
      ⟨tokens, hStops⟩
    exact hStops.onOneLine

/- A sign is told with the line break behind it. -/
theorem diagnostics_stay_on_one_line_break :
    let e : LexError :=
      { cause := .loneBang '\n', line := 2, position := 14 }
    compile "LET a = 1\nIF a!\n" = .error (.lexical e) ∧
      tokenize "LET a = 1\nIF a!\n" = .error e ∧
        (Diagnostic.lexical e).message =
            "lex error at line 2 (byte 14): " ++
              "expected !=, got !\\n" ∧
          OnOneLine (Diagnostic.lexical e).message := by
  intro e
  have hCompile :
      compile "LET a = 1\nIF a!\n" = .error (.lexical e) := by
    decide +kernel
  refine ⟨hCompile, by decide +kernel, by decide +kernel, ?_⟩
  exact
    (diagnostics_stay_on_one_line "LET a = 1\nIF a!\n").1 _
      hCompile

end TeenyC
