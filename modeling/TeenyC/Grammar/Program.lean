import TeenyC.Grammar.Statement

/-
  The rule for whole programs.

    program := {newline} {statement} EOF

  Key definitions include:
    * `Grammar.lines`
    * `Grammar.checkJumps`
    * `Grammar.program`
-/

namespace TeenyC

namespace Grammar

open Production

/- Read lines until all is read and every block is closed. -/
def lines : Production (List Block) :=
  loop hasLine line consumes_line []

/- Require a declaration for the label of every jump. -/
def checkJumps : Production Unit :=
  withSession fun s =>
    match s.strayJump? with
    | none => return ()
    | some jump =>
        fail
          (.naming
            { cause := .labelMissing
              name := jump.label
              line := jump.line })

/-
  Read a program. Jumps may run ahead of their labels, so they
  are checked at the end.
-/
def program : Production Unit := do
  report .program
  headerLine "#include <stdio.h>"
  headerLine "int main(void)\x7b"
  skipNewlines
  let _ ← lines
  emitLine "return 0;"
  emitLine "\x7d"
  checkJumps

end Grammar

end TeenyC
