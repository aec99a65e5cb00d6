import TeenyC.Text.Control

/-
  The arguments of the command line.

  Arguments are taken from left to right. An option that waits
  for its value, and a value that has been given, are pending
  until the next option or positional argument settles them; so
  a fault of a pending value is found only then, and a fault
  that needs no settling is found first. After a lone double
  dash every argument is positional.

  A command is run with any reader of arguments. The one given
  here is the standard one.

  Key definitions include:
    * `Slot`
    * `UsageError`
    * `UsageError.advice`
    * `Ending`
    * `Invocation`
    * `Intake`
    * `Invocation.ofArguments`
    * `ArgumentReader`
    * `ArgumentReader.standard`
-/

namespace TeenyC

------------------------------------------------------------
-- Slots
------------------------------------------------------------

/- What can be given a value. -/
inductive Slot where
| input
| output
| emit
deriving DecidableEq

namespace Slot

/- A slot as a usage error names it. -/
def label : Slot → String
| .input => "<INPUT>"
| .output => "--output <PATH>"
| .emit => "--emit <FORMAT>"

/- A path cannot be empty, a format can. -/
def admitsEmpty : Slot → Bool
| .input | .output => false
| .emit => true

end Slot

------------------------------------------------------------
-- Endings
------------------------------------------------------------

/- What can be wrong with the arguments. -/
inductive UsageError where
| unexpectedArgument (argument : String)
| unexpectedValue (value option : String)
| missingValue (slot : Slot)
| repeated (slot : Slot)
| missingInput
deriving DecidableEq

/- The arguments in short. -/
def usageText : String :=
  "Usage: teeny-cli [OPTIONS] <INPUT>\n"

/- Where more about the arguments is to be found. -/
def hintText : String :=
  "For more information, try '--help'.\n"

namespace UsageError

/-
  The error in words. What it quotes of the arguments is free
  of control sequences.
-/
def message : UsageError → String
| .unexpectedArgument argument =>
    "unexpected argument '" ++
      Text.withoutControls argument ++ "' found"
| .unexpectedValue value option =>
    "unexpected value '" ++
      Text.withoutControls value ++ "' for '" ++ option ++
      "' found; no more were expected"
| .missingValue slot =>
    "a value is required for '" ++ slot.label ++
      "' but none was supplied"
| .repeated slot =>
    "the argument '" ++ slot.label ++
      "' cannot be used multiple times"
| .missingInput =>
    "the following required arguments were not provided:"

/-
  What is said below the first line of a usage error: the input
  if it is missing, and the usage unless only a value is. Guesses
  at what was meant are left out, and the usage is not cut down
  to the arguments at hand.
-/
def advice : UsageError → String
| .missingInput =>
    "  <INPUT>\n\n" ++ usageText ++ "\n" ++ hintText
| .missingValue _ => "\n" ++ hintText
| .unexpectedArgument _ | .unexpectedValue _ _ | .repeated _ =>
    "\n" ++ usageText ++ "\n" ++ hintText

end UsageError

/- Why the arguments call for no compilation. -/
inductive Ending where
| refused (e : UsageError)
| help
| version
deriving DecidableEq

------------------------------------------------------------
-- Intake
------------------------------------------------------------

/- What has been given but not settled. -/
inductive Pending where
| nothing
| awaiting (slot : Slot)
| given (slot : Slot) (value : String)
deriving DecidableEq

/- The settled values, and what is pending. -/
structure Intake where
  input : Option String
  output : Option String
  emit : Option String
  pending : Pending
deriving DecidableEq

namespace Intake

/- Nothing has been given yet. -/
def empty : Intake where
  input := none
  output := none
  emit := none
  pending := .nothing

/- The settled value of a slot. -/
def get
    (s : Intake) : Slot → Option String
| .input => s.input
| .output => s.output
| .emit => s.emit

/- Settle a value. -/
def set
    (s : Intake)
    (value : String) : Slot → Intake
| .input => { s with input := some value }
| .output => { s with output := some value }
| .emit => { s with emit := some value }

/- Give a value to a slot that has none. -/
def fill
    (s : Intake)
    (slot : Slot)
    (value : String) : Except Ending Intake :=
  if (s.get slot).isSome then
    .error (.refused (.repeated slot))
  else if value.isEmpty && !slot.admitsEmpty then
    .error (.refused (.missingValue slot))
  else .ok (s.set value slot)

/- Settle what is pending. -/
def settle (s : Intake) : Except Ending Intake :=
  match s.pending with
  | .nothing => .ok s
  | .awaiting slot => .error (.refused (.missingValue slot))
  | .given slot value =>
      { s with pending := .nothing }.fill slot value

/- Whether a positional argument has been given. -/
def hasInput (s : Intake) : Bool :=
  match s.pending with
  | .given .input _ => true
  | _ => s.input.isSome

/- Take an option whose value comes with it. -/
def takeAttached
    (s : Intake)
    (slot : Slot)
    (value : String) : Except Ending Intake := do
  (← s.settle).fill slot value

/- Take an option whose value is the next argument. -/
def takeOption
    (s : Intake)
    (slot : Slot) : Except Ending Intake := do
  return { ← s.settle with pending := .awaiting slot }

/- Take a request that ends the intake. -/
def takeRequest
    (s : Intake)
    (ending : Ending) : Except Ending Intake := do
  let _ ← s.settle
  throw ending

/- Take a positional argument, of which there is one. -/
def takePositional
    (s : Intake)
    (argument : String) : Except Ending Intake := do
  if s.hasInput then
    throw (.refused (.unexpectedArgument argument))
  return { ← s.settle with pending := .given .input argument }

/- Take an option by its long name. -/
def takeLong
    (s : Intake)
    (name : String)
    (value? : Option String) : Except Ending Intake :=
  match name, value? with
  | "output", none => s.takeOption .output
  | "output", some value => s.takeAttached .output value
  | "emit", none => s.takeOption .emit
  | "emit", some value => s.takeAttached .emit value
  | "help", none => s.takeRequest .help
  | "version", none => s.takeRequest .version
  | "help", some value =>
      .error (.refused (.unexpectedValue value "--help"))
  | "version", some value =>
      .error (.refused (.unexpectedValue value "--version"))
  | _, _ =>
      .error (.refused (.unexpectedArgument ("--" ++ name)))

/-
  Take an option by its letter. What follows the letter is the
  option's value, with or without an equals sign.
-/
def takeShort
    (s : Intake)
    (letter : Char)
    (rest : List Char) : Except Ending Intake :=
  match letter, rest with
  | 'o', [] => s.takeOption .output
  | 'o', '=' :: value =>
      s.takeAttached .output (String.ofList value)
  | 'o', value => s.takeAttached .output (String.ofList value)
  | 'h', _ => s.takeRequest .help
  | 'V', _ => s.takeRequest .version
  | _, _ =>
      .error
        (.refused
          (.unexpectedArgument (String.ofList ['-', letter])))

/- Take an argument that stands before any lone double dash. -/
def take
    (s : Intake)
    (argument : String) : Except Ending Intake :=
  match argument.toList with
  | '-' :: '-' :: long =>
      match long.span (· != '=') with
      | (name, []) => s.takeLong (String.ofList name) none
      | (name, _ :: value) =>
          s.takeLong (String.ofList name)
            (some (String.ofList value))
  | '-' :: letter :: rest => s.takeShort letter rest
  | _ =>
      match s.pending with
      | .awaiting slot =>
          .ok { s with pending := .given slot argument }
      | _ => s.takePositional argument

/- Take all arguments. -/
def takeAll
    (s : Intake) : List String → Except Ending Intake
| [] => .ok s
| "--" :: positional => positional.foldlM takePositional s
| argument :: later => do (← s.take argument).takeAll later

end Intake

------------------------------------------------------------
-- Invocations
------------------------------------------------------------

/- The file written to when none is named. -/
def defaultOutput : String := "out.c"

/- The format emitted when none is named. -/
def defaultFormat : String := "c"

/- What the arguments ask for. -/
structure Invocation where
  input : String
  output : String
  format : String
deriving DecidableEq

namespace Invocation

/- Read the arguments. -/
def ofArguments
    (arguments : List String) : Except Ending Invocation := do
  let s ← Intake.empty.takeAll arguments
  let s ← s.settle
  match s.input with
  | none => throw (.refused .missingInput)
  | some input =>
      return {
        input := input
        output := s.output.getD defaultOutput
        format := s.emit.getD defaultFormat }

end Invocation

------------------------------------------------------------
-- Readers
------------------------------------------------------------

/-
  What reads arguments: what they ask for or why they ask for
  nothing, and what is said below the first line of a usage error.
-/
structure ArgumentReader where
  read : List String → Except Ending Invocation
  advice : UsageError → String

/- The reader that the command is run with. -/
def ArgumentReader.standard : ArgumentReader where
  read := Invocation.ofArguments
  advice := UsageError.advice

end TeenyC
