import TeenyC.Text.Graphic
import TeenyC.Text.Combining

/-
  Escaped text, the form in which messages and log lines show
  characters of a program.

  A character that would not be seen, or that would change how
  its neighbours are seen, is written by its code point in
  hexadecimal; NUL, TAB, CR, LF and the backslash have short
  escapes; the marks that close the quotation around it take a
  backslash.

  Key definitions include:
    * `Text.isShown`
    * `Text.escapeChar`
    * `Text.escapedChar`
    * `Text.quotedChar`
    * `Text.quotedString`
-/

namespace TeenyC.Text

------------------------------------------------------------
-- Characters That Stand For Themselves
------------------------------------------------------------

/- The letters that leave only a blank on the page. -/
def blankLetters : List Char :=
  ['\u115f', '\u1160', '\u3164', '\uffa0']

/-
  A character is shown as it is when it is the plain space or
  has ink and a place of its own.
-/
def isShown (ch : Char) : Bool :=
  ch == ' ' ||
    (isGraphic ch && !isCombining ch && !blankLetters.contains ch)

------------------------------------------------------------
-- Escapes
------------------------------------------------------------

/- A code point as a braced hexadecimal escape. -/
def codePointEscape (ch : Char) : List Char :=
  ['\\', 'u', '\x7b'] ++ Nat.toDigits 16 ch.toNat ++ ['\x7d']

/-
  One character in escaped form, where `marks` are the marks
  that need a backslash in front of them.
-/
def escapeChar
    (marks : List Char)
    (ch : Char) : List Char :=
  match ch with
  | '\x00' => ['\\', '0']
  | '\t' => ['\\', 't']
  | '\r' => ['\\', 'r']
  | '\n' => ['\\', 'n']
  | '\\' => ['\\', '\\']
  | _ =>
      if marks.contains ch then ['\\', ch]
      else if isShown ch then [ch]
      else codePointEscape ch

/- A character in escaped form, fit for either kind of quotation. -/
def escapedChar (ch : Char) : String :=
  String.ofList (escapeChar ['\'', '"'] ch)

/- A character in single quotes. -/
def quotedChar (ch : Char) : String :=
  String.ofList (['\''] ++ escapeChar ['\''] ch ++ ['\''])

/- A text in double quotes. -/
def quotedString (text : String) : String :=
  String.ofList
    (['"'] ++ text.toList.flatMap (escapeChar ['"']) ++ ['"'])

end TeenyC.Text
