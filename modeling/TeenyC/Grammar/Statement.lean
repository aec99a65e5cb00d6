import TeenyC.Grammar.Expression

/-
  The rules for statements, read line by line.

    statement := "PRINT" (STRING | expression) nl
               | "IF" comparison "THEN" nl {statement} "ENDIF" nl
               | "WHILE" comparison "REPEAT" nl {statement}
                   "ENDWHILE" nl
               | "LABEL" IDENT nl
               | "GOTO" IDENT nl
               | "LET" IDENT "=" expression nl
               | "INPUT" IDENT nl

  A line opens a block, closes the innermost open block, or
  stands for itself. The open blocks are handed from line to
  line, the innermost first.

  Key definitions include:
    * `Block`
    * `Block.outer?`
    * `Grammar.statement`
    * `Grammar.line`

  Progress is stated by:
    * `Grammar.consumes_line`
-/

namespace TeenyC

------------------------------------------------------------
-- Blocks
------------------------------------------------------------

/- The statements that hold other statements. -/
inductive Block where
| conditional
| repetition
deriving DecidableEq

namespace Block

/- The word between the condition and the held statements. -/
def separator : Block → Keyword
| .conditional => .thenKw
| .repetition => .repeatKw

/- The word after the held statements. -/
def closer : Block → Keyword
| .conditional => .endIf
| .repetition => .endWhile

/- What the body holds in front of the condition. -/
def opening : Block → String
| .conditional => "if("
| .repetition => "while("

/- The blocks left open after a word that closes the innermost. -/
def outer?
    (blocks : List Block)
    (kind : Kind) : Option (List Block) :=
  match blocks with
  | [] => none
  | block :: outer =>
      if kind = .keyword block.closer then some outer else none

end Block

namespace Grammar

open Production

------------------------------------------------------------
-- Statements
------------------------------------------------------------

/- Print a string as it is, or the value of an expression. -/
def printStatement : Production Unit := do
  advance
  withCurrent fun token =>
    if token.kind = .string then do
      emitLine ("printf(\"" ++ token.text ++ "\\n\");")
      advance
    else do
      emit "printf(\"%.2f\\n\", (float)("
      expression
      emitLine "));"

/- Open a block at its condition. -/
def openBlock (block : Block) : Production Unit := do
  advance
  emit block.opening
  comparison
  expect (.keyword block.separator)
  endOfLine
  emitLine ")\x7b"

/- Close a block. -/
def closeBlock : Production Unit := do
  advance
  emitLine "\x7d"
  endOfLine

/-
  Declare a label, once only. The empty statement after it lets
  a label stand last in a block.
-/
def labelStatement : Production Unit := do
  advance
  let token ← expectIdent
  withSession fun s =>
    if s.labels.contains token.text then
      fail
        (.naming
          { cause := .labelTwice
            name := token.text
            line := token.line })
    else do
      emitLine (token.text ++ ":;")
      addLabel token.text

/- Jump to a label, declared before or after. -/
def gotoStatement : Production Unit := do
  advance
  let token ← expectIdent
  emitLine ("goto " ++ token.text ++ ";")
  addJump { label := token.text, line := token.line }

/- Assign to a variable, which is declared before its value is read. -/
def letStatement : Production Unit := do
  advance
  let token ← expectIdent
  declare token.text
  emit (token.text ++ " = ")
  expect (.operator .assign)
  expression
  emitLine ";"

/- Read a variable, which becomes zero if no number can be read. -/
def inputStatement : Production Unit := do
  advance
  let token ← expectIdent
  declare token.text
  emitLine ("if(0 == scanf(\"%f\", &" ++ token.text ++ ")) \x7b")
  emitLine (token.text ++ " = 0;")
  emitLine "scanf(\"%*s\");"
  emitLine "\x7d"

/-
  Read the statement that starts with a given token, to the end
  of its line or, if it opens a block, of its first line.
-/
def statement
    (token : Token)
    (blocks : List Block) : Production (List Block) :=
  match token.kind with
  | .keyword .print => do
      printStatement
      endOfLine
      return blocks
  | .keyword .ifKw => do
      openBlock .conditional
      return .conditional :: blocks
  | .keyword .whileKw => do
      openBlock .repetition
      return .repetition :: blocks
  | .keyword .label => do
      labelStatement
      endOfLine
      return blocks
  | .keyword .goto => do
      gotoStatement
      endOfLine
      return blocks
  | .keyword .letKw => do
      letStatement
      endOfLine
      return blocks
  | .keyword .input => do
      inputStatement
      endOfLine
      return blocks
  | _ => fail (.grammar { cause := .statement, found := token })

------------------------------------------------------------
-- Lines
------------------------------------------------------------

/- Read one line, given the blocks that are open before it. -/
def line (blocks : List Block) : Production (List Block) :=
  withCurrent fun token =>
    match Block.outer? blocks token.kind with
    | some outer => do
        closeBlock
        return outer
    | none => do
        report (.statement token.kind)
        statement token blocks

/- There is another line unless all is read and closed. -/
def hasLine
    (blocks : List Block)
    (s : Session) : Bool :=
  !blocks.isEmpty || s.current.kind != .eof

/- The end of input closes no block. -/
theorem outer?_eof (blocks : List Block) :
    Block.outer? blocks .eof = none := by
  cases blocks with
  | nil => rfl
  | cons block outer => simp [Block.outer?]

/- Every statement starts by passing its first token. -/
theorem consumes_statement
    (token : Token)
    (blocks : List Block) :
    (statement token blocks).Consumes
      (fun s => s.current = token) := by
  by_cases hEof : token.kind = .eof
  · have hFail :
        statement token blocks =
          fail
            (.grammar { cause := .statement, found := token }) := by
      simp [statement, hEof]
    rw [hFail]
    exact consumes_fail _ _
  · have hAdvance :
        advance.Consumes (fun s => s.current = token) :=
      consumes_advance.mono fun s hToken => hToken ▸ hEof
    unfold statement
    split
    · exact (hAdvance.bind _).bind _
    · exact (hAdvance.bind _).bind _
    · exact (hAdvance.bind _).bind _
    · exact (hAdvance.bind _).bind _
    · exact (hAdvance.bind _).bind _
    · exact (hAdvance.bind _).bind _
    · exact (hAdvance.bind _).bind _
    · exact consumes_fail _ _

/- Every line uses up a token. -/
theorem consumes_line (blocks : List Block) :
    (line blocks).Consumes (hasLine blocks · = true) := by
  apply Consumes.withCurrent
  intro token
  cases hOuter : Block.outer? blocks token.kind with
  | some outer =>
      have hEof : token.kind ≠ .eof := by
        intro hKind
        rw [hKind, outer?_eof] at hOuter
        cases hOuter
      apply Consumes.bind
      apply Consumes.bind
      exact consumes_advance.mono fun s hToken =>
        hToken.2 ▸ hEof
  | none =>
      apply Consumes.update_bind
      · exact (consumes_statement token blocks).mono
          fun s hToken => hToken.2
      · intro s hCondition
        exact hCondition

end Grammar

end TeenyC
