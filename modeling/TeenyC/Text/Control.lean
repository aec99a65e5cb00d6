/-
  Control sequences, the characters by which a text commands a
  terminal, and the plain text that is left without them.

  A sequence starts with an escape character. What follows it
  says of which kind the sequence is, and each kind has an end
  of its own. A blank inside a short sequence is shown and
  breaks it off: what follows is shown too, and the sequence is
  taken up again at the next control character.

  Key definitions include:
    * `Text.isPlain`
    * `Text.Phase`
    * `Text.Phase.next`
    * `Text.Display`
    * `Text.Display.shown`
    * `Text.withoutControls`
-/

namespace TeenyC.Text

------------------------------------------------------------
-- Characters
------------------------------------------------------------

/- The controls that move within a text: TAB, LF, FF and CR. -/
def isBlankControl (ch : Char) : Bool :=
  ch == '\t' || ch == '\n' || ch == '\x0c' || ch == '\r'

/- The controls: those below the space, and DEL. -/
def isControl (ch : Char) : Bool :=
  ch.toNat < 0x20 || ch == '\x7f'

/- A character beyond ASCII, which takes several bytes. -/
def isWide (ch : Char) : Bool :=
  0x7f < ch.toNat

/- A character that plain text may hold. -/
def isPlain (ch : Char) : Bool :=
  isBlankControl ch || !isControl ch

------------------------------------------------------------
-- Phases
------------------------------------------------------------

/- Where a text stands, outside or inside a sequence. -/
inductive Phase where
| outside
| escape
| escapeTail
| control
| device
| deviceParameters
| deviceTail
| command
| string
deriving DecidableEq

namespace Phase

/- Whether a blank is shown inside the sequence. -/
def admitsBlanks : Phase → Bool
| .outside | .escape | .escapeTail | .control => true
| .device | .deviceParameters | .deviceTail => false
| .command | .string => false

/- The phase after an ASCII character that is no control. -/
def afterVisible (phase : Phase) (ch : Char) : Phase :=
  match phase with
  | .outside => .outside
  | .escape =>
      if ch < '0' then .escapeTail
      else
        match ch with
        | '[' => .control
        | ']' => .command
        | 'P' => .device
        | 'X' | '^' | '_' => .string
        | _ => .outside
  | .escapeTail => if ch < '0' then .escapeTail else .outside
  | .control => if ch < '@' then .control else .outside
  | .device =>
      if ch < '0' then .deviceTail
      else if ch < '@' then .deviceParameters
      else .string
  | .deviceParameters =>
      if ch < '0' then .deviceTail
      else if ch < '<' then .deviceParameters
      else .string
  | .deviceTail => if ch < '0' then .deviceTail else .string
  | .command => .command
  | .string => .string

/-
  The phase after a character beyond ASCII. A string ends at
  the byte of the string terminator, also when that byte is
  part of such a character.
-/
def afterWide (phase : Phase) (ch : Char) : Phase :=
  if phase = .string ∧ 0x9c ∈ String.utf8EncodeChar ch then
    .outside
  else phase

/- The phase after a control. A command ends at BEL. -/
def afterControl (phase : Phase) (ch : Char) : Phase :=
  match ch with
  | '\x1b' => .escape
  | '\x18' | '\x1a' => .outside
  | '\x07' => if phase = .command then .outside else phase
  | _ => phase

/- The phase after a character that is not shown. -/
def next (phase : Phase) (ch : Char) : Phase :=
  if isControl ch then phase.afterControl ch
  else if isWide ch then phase.afterWide ch
  else phase.afterVisible ch

end Phase

------------------------------------------------------------
-- Displays
------------------------------------------------------------

/- The phase of a text, and whether a blank has broken it off. -/
structure Display where
  phase : Phase
  broken : Bool
deriving DecidableEq

namespace Display

/- A text starts outside any sequence. -/
def start : Display where
  phase := .outside
  broken := false

/- Whether a character is shown. -/
def shows (d : Display) (ch : Char) : Bool :=
  if d.broken || d.phase = .outside then isPlain ch
  else isBlankControl ch && d.phase.admitsBlanks

/-
  Pass a character. One beyond ASCII that is shown ends the
  sequence that a blank has broken off.
-/
def pass (d : Display) (ch : Char) : Display :=
  if d.shows ch then
    { phase := if isWide ch then .outside else d.phase
      broken := true }
  else
    { phase := d.phase.next ch
      broken := false }

/- What is shown of a text. -/
def shown (d : Display) : List Char → List Char
| [] => []
| ch :: text =>
    if d.shows ch then ch :: (d.pass ch).shown text
    else (d.pass ch).shown text

end Display

/- A text without its control sequences. -/
def withoutControls (text : String) : String :=
  String.ofList (Display.start.shown text.toList)

end TeenyC.Text
