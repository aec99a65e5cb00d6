import TeenyC.Text.Escape
import TeenyC.Token.Basic

/-
  What can be wrong with a program, and the words for it.

  A lexical error is a place where no token can be read; a
  grammar error is a token that fits no rule; a naming error is
  a label or variable that is declared twice or not at all.

  Key definitions include:
    * `LexCause`
    * `LexError`
    * `GrammarCause`
    * `GrammarError`
    * `NamingCause`
    * `NamingError`
    * `Diagnostic`
    * `Diagnostic.line`
    * `Diagnostic.position?`
    * `Diagnostic.message`
-/

namespace TeenyC

------------------------------------------------------------
-- Lexical Errors
------------------------------------------------------------

/- Why no token can be read. -/
inductive LexCause where
| unknown (ch : Char)
| loneBang (next : Char)
| unterminatedString
| illegalInString (ch : Char)
| bareFraction (text : String)
deriving DecidableEq

namespace LexCause

/- The cause in words. -/
def message : LexCause → String
| .unknown ch => "unknown token: " ++ Text.quotedChar ch
| .loneBang next => "expected !=, got !" ++ Text.escapedChar next
| .unterminatedString => "unterminated string literal"
| .illegalInString ch =>
    "illegal character in string: " ++ Text.quotedChar ch
| .bareFraction text =>
    "illegal character in number: " ++ text ++
      " must be followed by a digit"

end LexCause

/- A lexical error with its line and its offset in bytes. -/
structure LexError where
  cause : LexCause
  line : Nat
  position : Nat
deriving DecidableEq

------------------------------------------------------------
-- Grammar Errors
------------------------------------------------------------

/- What a token fails to be. -/
inductive GrammarCause where
| expected (kind : Kind)
| comparison
| statement
| operand
deriving DecidableEq

/- A grammar error with the token it was found at. -/
structure GrammarError where
  cause : GrammarCause
  found : Token
deriving DecidableEq

namespace GrammarError

/- The error in words. -/
def message (e : GrammarError) : String :=
  match e.cause with
  | .expected kind =>
      "expected " ++ kind.name ++ ", got " ++ e.found.describe
  | .comparison =>
      "expected comparison operator at " ++ e.found.describe
  | .statement => "invalid statement at " ++ e.found.describe
  | .operand => "unexpected token " ++ e.found.describe

end GrammarError

------------------------------------------------------------
-- Naming Errors
------------------------------------------------------------

/- How a name breaks the rules of declaration. -/
inductive NamingCause where
| labelTwice
| labelMissing
| unassigned
deriving DecidableEq

/- A naming error with the name and the line it stands on. -/
structure NamingError where
  cause : NamingCause
  name : String
  line : Nat
deriving DecidableEq

namespace NamingError

/- The error in words. -/
def message (e : NamingError) : String :=
  match e.cause with
  | .labelTwice => "label already exists: " ++ e.name
  | .labelMissing =>
      "attempting to GOTO an undeclared label: " ++ e.name
  | .unassigned =>
      "referencing variable before assignment: " ++ e.name

end NamingError

------------------------------------------------------------
-- Diagnostics
------------------------------------------------------------

/- What a program can be refused for. -/
inductive Diagnostic where
| lexical (e : LexError)
| grammar (e : GrammarError)
| naming (e : NamingError)
deriving DecidableEq

namespace Diagnostic

/- The line a diagnostic points to. -/
def line : Diagnostic → Nat
| .lexical e => e.line
| .grammar e => e.found.line
| .naming e => e.line

/- The byte a diagnostic points to, which only lexical errors give. -/
def position? : Diagnostic → Option Nat
| .lexical e => some e.position
| .grammar _ | .naming _ => none

/- The diagnostic as its reader sees it. -/
def message (d : Diagnostic) : String :=
  match d with
  | .lexical e =>
      "lex error at line " ++ toString e.line ++
        " (byte " ++ toString e.position ++ "): " ++
        e.cause.message
  | .grammar e =>
      "parse error at line " ++ toString e.found.line ++ ": " ++
        e.message
  | .naming e =>
      "semantic error at line " ++ toString e.line ++ ": " ++
        e.message

end Diagnostic

end TeenyC
