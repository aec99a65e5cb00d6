import TeenyC.Grammar.Terminal

/-
  The rules for expressions, which are copied to the body as
  they are read.

    comparison := expression (cmpop expression)+
    expression := term {("+" | "-") term}
    term       := unary {("*" | "/") unary}
    unary      := ["+" | "-"] primary
    primary    := NUMBER | IDENT

  A blank on each side of a joining operator keeps it from
  running into a sign; a sign stands close to its operand.

  Key definitions include:
    * `Grammar.primary`
    * `Grammar.unary`
    * `Grammar.chain`
    * `Grammar.term`
    * `Grammar.expression`
    * `Grammar.comparison`
-/

namespace TeenyC

namespace Grammar

open Production

/- A number, or a variable that has been declared. -/
def primary : Production Unit :=
  withSession fun s => do
    let token := s.current
    report (.primary token.kind token.text)
    match token.kind with
    | .number => do
        emit token.text
        advance
    | .ident =>
        if s.vars.contains token.text then do
          emit token.text
          advance
        else
          fail
            (.naming
              { cause := .unassigned
                name := token.text
                line := token.line })
    | _ => fail (.grammar { cause := .operand, found := token })

/- An operand with at most one sign. -/
def unary : Production Unit := do
  report .unary
  withCurrent fun token =>
    if token.kind.isAdditive then do
      emit token.text
      advance
      primary
    else primary

/- One more operator and operand of a chain. -/
def link (operand : Production Unit) : Production Unit :=
  withCurrent fun token => do
    emit (" " ++ token.text ++ " ")
    advance
    operand

/- A link uses up its operator. -/
theorem consumes_link
    {joins : Kind → Bool}
    (hEof : joins .eof = false)
    (operand : Production Unit) :
    (link operand).Consumes fun s =>
      joins s.current.kind = true := by
  apply Consumes.withCurrent
  intro token
  apply Consumes.update_bind
  · apply Consumes.bind
    apply consumes_advance.mono
    intro s hJoins hKind
    rw [hKind, hEof] at hJoins
    cases hJoins.1
  · intro s hCondition
    exact hCondition

/-
  As many links as there are operators of one level, which may
  be any kinds but the end of input.
-/
def chain
    (joins : Kind → Bool)
    (hEof : joins .eof = false)
    (operand : Production Unit) : Production Unit :=
  loop
    (fun _ s => joins s.current.kind)
    (fun _ => link operand)
    (fun _ => consumes_link hEof operand)
    ()

/- Factors joined from left to right. -/
def term : Production Unit := do
  report .term
  unary
  chain Kind.isMultiplicative rfl unary

/- Terms joined from left to right. -/
def expression : Production Unit := do
  report .expression
  term
  chain Kind.isAdditive rfl term

/- Expressions compared from left to right, two at least. -/
def comparison : Production Unit := do
  report .comparison
  expression
  withCurrent fun token =>
    if token.kind.isComparison then
      chain Kind.isComparison rfl expression
    else
      fail (.grammar { cause := .comparison, found := token })

end Grammar

end TeenyC
