import TeenyC.Production

/-
  The rules for single tokens and for the end of a line.

    nl := NEWLINE {NEWLINE}

  Key definitions include:
    * `Grammar.expect`
    * `Grammar.expectIdent`
    * `Grammar.skipNewlines`
    * `Grammar.endOfLine`
-/

namespace TeenyC

namespace Grammar

open Production

/- Read a token of the given kind. -/
def expect (kind : Kind) : Production Unit :=
  withCurrent fun token =>
    if token.kind = kind then advance
    else
      fail (.grammar { cause := .expected kind, found := token })

/- Read an identifier. -/
def expectIdent : Production Token :=
  withCurrent fun token => do
    expect .ident
    return token

/- Whether a line break is next. -/
def atNewline (s : Session) : Bool :=
  s.current.kind == .newline

/- A line break can be passed. -/
theorem consumes_advance_atNewline :
    advance.Consumes (atNewline · = true) :=
  consumes_advance.mono fun s hLine => by
    simp only [atNewline, beq_iff_eq] at hLine
    simp [hLine]

/- Pass any number of line breaks. -/
def skipNewlines : Production Unit :=
  loop
    (fun _ s => atNewline s)
    (fun _ => advance)
    (fun _ => consumes_advance_atNewline)
    ()

/- Read the end of a line and the blank lines after it. -/
def endOfLine : Production Unit := do
  report .newline
  expect .newline
  skipNewlines

end Grammar

end TeenyC
