import TeenyC.Compile
import TeenyC.Proofs.Parsing.Orderly

/-
  A compilation is one run of the grammar.

  It starts from a line break before the program, and reads the
  first token as any other. So what holds of the runs of orderly
  rules holds of compilations.

  Key definitions include:
    * `Session.opening`
    * `Grammar.opened`
    * `Production.verdict`

  Key theorems include:
    * `compile_of_error`
    * `compile_of_ok`
    * `Grammar.orderly_opened`
-/

namespace TeenyC

/-
  The session that has yet to move to its first token, from a
  line break before the program.
-/
def Session.opening
    (first : Token)
    (cursor : Cursor) : Session where
  cursor := cursor
  current := { kind := .newline, text := "", line := 0 }
  ahead := first
  vars := []
  labels := []
  jumps := []
  artifact := Artifact.empty
  events := #[]

/- A program is read from its first token on. -/
def Grammar.opened : Production Unit := do
  Production.advance
  Grammar.program

/- The C text of a session that has read its program. -/
def Production.verdict :
    Except Diagnostic Unit × Session → Except Diagnostic String
| (.ok _, s) => .ok s.artifact.output
| (.error d, _) => .error d

variable {source : String}
variable {c : Cursor}

/- A program whose first token is a fault fails with it. -/
theorem compile_of_error
    {e : LexError}
    (hNext : (Cursor.start source).nextToken = (.error e, c)) :
    compile source = .error (.lexical e) := by
  unfold compile Compilation.ofSource Session.begin
  rw [hNext]
  rfl

/- A compilation is a run of the grammar from the first token. -/
theorem compile_of_ok
    {first : Token}
    (hNext : (Cursor.start source).nextToken = (.ok first, c)) :
    compile source =
      Production.verdict
        (Grammar.opened.run (Session.opening first c)) := by
  have hMove :
      Production.advance.run (Session.opening first c) =
        (Session.opening first c).advance := rfl
  unfold Grammar.opened
  rw [Production.run_bind, hMove]
  unfold compile Compilation.ofSource Session.begin Session.advance
  rw [hNext]
  dsimp only [Session.opening]
  rcases c.nextToken with ⟨item, next⟩
  cases item with
  | error e => rfl
  | ok second =>
      dsimp only [Compilation.ofSession]
      generalize Grammar.program.run _ = r
      rcases r with ⟨result, t⟩
      cases result <;> rfl

/- A program is read in good order from its first token on. -/
theorem Grammar.orderly_opened
    {token : Token}
    (hOpen : token.kind ≠ .eof) :
    opened.Orderly token :=
  .bind (.advance hOpen) fun _ => orderly_program

end TeenyC
