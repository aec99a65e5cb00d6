import TeenyC.CommandLine.Arguments
import TeenyC.File.Access
import TeenyC.Scanner

/-
  A run of the command: from arguments and files to what is
  printed, and to the file that is written.

  Key definitions include:
    * `RunError`
    * `Outcome`
    * `helpText`
    * `execute`
    * `ArgumentReader.command`
    * `command`
-/

namespace TeenyC

------------------------------------------------------------
-- Errors
------------------------------------------------------------

/- Why a run fails whose arguments are in order. -/
inductive RunError where
| unreadable (path : String) (fault : Fault)
| failed (failure : Failure)
| unknownFormat (format : String)
deriving DecidableEq

namespace RunError

/- The error in words. -/
def message : RunError → String
| .unreadable path _ => "failed to read input file " ++ path
| .failed failure => failure.message
| .unknownFormat format =>
    "unsupported emit format: " ++ format

/- What lies behind the error, where something does. -/
def cause? : RunError → Option Fault
| .unreadable _ fault => some fault
| .failed (.unwritable _ fault) => some fault
| .failed (.refused _) | .unknownFormat _ => none

/- The error as it is printed. -/
def print (e : RunError) : String :=
  "Error: " ++ e.message ++ "\n" ++
    match e.cause? with
    | none => ""
    | some fault =>
        "\nCaused by:\n    " ++ fault.message ++ "\n"

end RunError

------------------------------------------------------------
-- Outcomes
------------------------------------------------------------

/- What a run shows to its caller. -/
structure Outcome where
  status : Nat
  stdout : String
  stderr : String
deriving DecidableEq

/- The summary of the arguments. -/
def helpText : String :=
  "Compiles Teeny programs to C\n" ++
  "\n" ++
  usageText ++
  "\n" ++
  "Arguments:\n" ++
  "  <INPUT>  Teeny source file to compile\n" ++
  "\n" ++
  "Options:\n" ++
  "  -o, --output <PATH>  Where to write the generated C " ++
    "program [default: out.c]\n" ++
  "      --emit <FORMAT>  Output format: c, tokens " ++
    "[default: c]\n" ++
  "  -h, --help           Print help\n" ++
  "  -V, --version        Print version\n"

/- The name and number of the version. -/
def versionText : String := "teeny-cli 0.1.0\n"

/-
  The outcome of a run that ends with its arguments, given what
  is said below the first line of a usage error.
-/
def Ending.outcome
    (advice : UsageError → String) : Ending → Outcome
| .help => { status := 0, stdout := helpText, stderr := "" }
| .version =>
    { status := 0, stdout := versionText, stderr := "" }
| .refused e =>
    { status := 1
      stdout := ""
      stderr := "error: " ++ e.message ++ "\n" ++ advice e }

------------------------------------------------------------
-- Runs
------------------------------------------------------------

/- Compile to a file, and name the file. -/
def executeCompile
    {m : Type → Type}
    [Monad m]
    (files : FileAccess m)
    (invocation : Invocation)
    (source : String) :
    m (Except RunError String × Array Event) := do
  let (result, events) ←
    compileTo files source invocation.output
  match result with
  | .error failure => return (.error (.failed failure), events)
  | .ok () =>
      let done :=
        "Compiling completed: " ++ invocation.output ++ "\n"
      let event :=
        Event.compiled invocation.input invocation.output
      return (.ok done, events.push event)

/- List the tokens of a program text, one to a line. -/
def listTokens (source : String) : Except RunError String :=
  match tokenize source with
  | .error e => .error (.failed (.refused (.lexical e)))
  | .ok tokens =>
      .ok
        (String.join
          (tokens.map fun token => token.listing ++ "\n"))

/- Do what an invocation asks for. -/
def execute
    {m : Type → Type}
    [Monad m]
    (files : FileAccess m)
    (invocation : Invocation) :
    m (Except RunError String × Array Event) := do
  match ← files.readText invocation.input with
  | .error fault =>
      return (.error (.unreadable invocation.input fault), #[])
  | .ok source =>
      match invocation.format with
      | "c" => executeCompile files invocation source
      | "tokens" => return (listTokens source, #[])
      | other => return (.error (.unknownFormat other), #[])

/- The outcome of a run, with the reports that a filter shows. -/
def outcomeOf
    (filter : Filter)
    (result : Except RunError String)
    (events : Array Event) : Outcome :=
  let log :=
    String.join
      ((events.toList.filter filter.shows).map Event.line)
  match result with
  | .ok text => { status := 0, stdout := text, stderr := log }
  | .error e =>
      { status := 1, stdout := "", stderr := log ++ e.print }

/- Run the command on its arguments, however they are read. -/
def ArgumentReader.command
    {m : Type → Type}
    [Monad m]
    (reader : ArgumentReader)
    (files : FileAccess m)
    (filter : Filter)
    (arguments : List String) : m Outcome := do
  match reader.read arguments with
  | .error ending => return ending.outcome reader.advice
  | .ok invocation =>
      let (result, events) ← execute files invocation
      return outcomeOf filter result events

/- Run the command on its arguments. -/
def command
    {m : Type → Type}
    [Monad m]
    (files : FileAccess m)
    (filter : Filter)
    (arguments : List String) : m Outcome :=
  ArgumentReader.standard.command files filter arguments

end TeenyC
