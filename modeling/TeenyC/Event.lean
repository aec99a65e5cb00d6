import TeenyC.Text.Escape
import TeenyC.Token.Basic

/-
  What the compiler reports while it works, and the choice of
  the reports that are shown.

  Of what a log may be asked for, filters know one directive: a
  level, or a target and a level. A word that is no level, `off`
  among them, shows nothing. Lists of directives, levels in
  capitals or numbers, spans and fields are left out, and
  so is the time that stands before each line of a log.

  Key definitions include:
    * `Level`
    * `Event`
    * `Event.level`
    * `Event.target`
    * `Event.message`
    * `Event.fields`
    * `Event.line`
    * `Filter`
    * `Filter.ofDirective`
    * `Filter.shows`
-/

namespace TeenyC

------------------------------------------------------------
-- Levels
------------------------------------------------------------

/- The weight of a report, the lightest first. -/
inductive Level where
| trace
| debug
| info
| warn
| error
deriving DecidableEq

namespace Level

/- The level's name in capitals. -/
def name : Level → String
| .trace => "TRACE"
| .debug => "DEBUG"
| .info => "INFO"
| .warn => "WARN"
| .error => "ERROR"

/- A heavier level has a larger rank. -/
def rank : Level → Nat
| .trace => 0
| .debug => 1
| .info => 2
| .warn => 3
| .error => 4

/- The level of a given lower-case name. -/
def ofName? : String → Option Level
| "trace" => some .trace
| "debug" => some .debug
| "info" => some .info
| "warn" => some .warn
| "error" => some .error
| _ => none

end Level

------------------------------------------------------------
-- Events
------------------------------------------------------------

/-
  The reports: one for each rule of the grammar as it begins,
  one for a program that has been read, one for a file that has
  been written, and one for a finished run.
-/
inductive Event where
| program
| statement (kind : Kind)
| comparison
| expression
| term
| unary
| primary (kind : Kind) (text : String)
| newline
| parsed (symbols labels : Nat)
| wrote (path : String) (bytes : Nat)
| compiled (input output : String)
deriving DecidableEq

/- A detail of a report. -/
inductive Detail where
| text (value : String)
| count (value : Nat)
deriving DecidableEq

namespace Detail

/- A detail as a log line shows it. -/
def render : Detail → String
| .text value => value
| .count value => toString value

end Detail

namespace Event

/- The weight of each report. -/
def level : Event → Level
| .parsed _ _ | .wrote _ _ => .debug
| .compiled _ _ => .info
| _ => .trace

/- The part of the program that reports. -/
def target : Event → String
| .parsed _ _ => "teeny_core::compiler"
| .wrote _ _ => "teeny_core::emitter"
| .compiled _ _ => "teeny_cli"
| _ => "teeny_core::parser"

/- The words of each report. -/
def message : Event → String
| .program => "program"
| .statement _ => "statement"
| .comparison => "comparison"
| .expression => "expression"
| .term => "term"
| .unary => "unary"
| .primary _ _ => "primary"
| .newline => "newline"
| .parsed _ _ => "parsed program"
| .wrote _ _ => "wrote output file"
| .compiled _ _ => "compiled"

/- The named details of each report. -/
def fields : Event → List (String × Detail)
| .statement kind => [("kind", .text kind.name)]
| .primary kind text =>
    [("kind", .text kind.name),
      ("text", .text (Text.quotedString text))]
| .parsed symbols labels =>
    [("symbols", .count symbols), ("labels", .count labels)]
| .wrote path bytes =>
    [("path", .text path), ("bytes", .count bytes)]
| .compiled input output =>
    [("input", .text input), ("output", .text output)]
| _ => []

/- A report as a line of the log. -/
def line (e : Event) : String :=
  e.level.name ++ " " ++ e.target ++ ": " ++ e.message ++
    String.join
      (e.fields.map fun (key, detail) =>
        " " ++ key ++ "=" ++ detail.render) ++ "\n"

end Event

------------------------------------------------------------
-- Filters
------------------------------------------------------------

/-
  A filter shows the reports of at least a given level whose
  target starts with a given text. No level shows nothing.
-/
structure Filter where
  least : Option Level
  target : String
deriving DecidableEq

namespace Filter

/- The filter that shows nothing. -/
def silent : Filter where
  least := none
  target := ""

/-
  The filter a directive asks for: a level alone, or a target
  and a level with an equals sign between them.
-/
def ofDirective (directive : String) : Filter :=
  match directive.toList.span (· != '=') with
  | (level, []) =>
      { least := Level.ofName? (String.ofList level)
        target := "" }
  | (target, _ :: level) =>
      { least := Level.ofName? (String.ofList level)
        target := String.ofList target }

/- Whether a filter shows a report. -/
def shows
    (f : Filter)
    (e : Event) : Bool :=
  match f.least with
  | none => false
  | some least =>
      least.rank ≤ e.level.rank &&
        f.target.toList.isPrefixOf e.target.toList

end Filter

end TeenyC
