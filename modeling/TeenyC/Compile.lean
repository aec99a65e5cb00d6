import TeenyC.Grammar.Program

/-
  Compilation of a Teeny program to a C program.

  Key definitions include:
    * `Compilation`
    * `Compilation.ofSource`
    * `compile`
-/

namespace TeenyC

/- What came of a compilation, and the reports made on the way. -/
structure Compilation where
  result : Except Diagnostic Artifact
  events : Array Event

namespace Compilation

/- What came of a session that has read its program. -/
def ofSession (s : Session) : Compilation :=
  match Grammar.program.run s with
  | (.ok _, t) =>
      { result := .ok t.artifact
        events :=
          t.events.push
            (.parsed t.vars.length t.labels.length) }
  | (.error d, t) => { result := .error d, events := t.events }

/- Compile a program text. -/
def ofSource (source : String) : Compilation :=
  match Session.begin (Cursor.start source) Artifact.empty with
  | .ok s => ofSession s
  | .error e => { result := .error (.lexical e), events := #[] }

end Compilation

/- The C text of a program, or what is wrong with the program. -/
def compile (source : String) : Except Diagnostic String :=
  (Compilation.ofSource source).result.map Artifact.output

end TeenyC
