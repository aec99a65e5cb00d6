import TeenyC.CommandLine.Run

/-
  The command itself: real files, the environment, and the
  standard streams.
-/

namespace TeenyC

/- The number of an operating system's error, where it has one. -/
def faultCode? : IO.Error → Option UInt32
| .alreadyExists _ code _ => some code
| .otherError code _ => some code
| .resourceBusy code _ => some code
| .resourceVanished code _ => some code
| .unsupportedOperation code _ => some code
| .hardwareFault code _ => some code
| .unsatisfiedConstraints code _ => some code
| .illegalOperation code _ => some code
| .protocolError code _ => some code
| .timeExpired code _ => some code
| .interrupted _ code _ => some code
| .noFileOrDirectory _ code _ => some code
| .invalidArgument _ code _ => some code
| .permissionDenied _ code _ => some code
| .resourceExhausted _ code _ => some code
| .inappropriateType _ code _ => some code
| .noSuchThing _ code _ => some code
| .unexpectedEof => none
| .userError _ => none

/- The fault that an operating system's error stands for. -/
def faultOf (e : IO.Error) : Fault :=
  match (faultCode? e).bind fun code => Fault.ofCode? code.toNat with
  | some fault => fault
  | none => .other (toString e)

/- Run an action on a file, and name its fault if it has one. -/
def guardFile
    {α : Type}
    (path : String)
    (action : IO α) : IO (Except Fault α) := do
  if path.toList.contains '\x00' then return .error .nulInPath
  try
    return .ok (← action)
  catch e =>
    return .error (faultOf e)

/-
  Access to the files of the machine. A written file is flushed,
  so that a fault which shows only then is not lost.
-/
def machineFiles : FileAccess IO where
  read path :=
    guardFile path do
      let handle ← IO.FS.Handle.mk path .read
      return (← handle.readBinToEnd).toList
  write path a :=
    guardFile path do
      let handle ← IO.FS.Handle.mk path .write
      handle.write a.output.toUTF8
      handle.flush

/- The filter that the environment asks for. -/
def environmentFilter : IO Filter := do
  match ← IO.getEnv "RUST_LOG" with
  | some directive => return Filter.ofDirective directive
  | none => return Filter.silent

end TeenyC

def main (arguments : List String) : IO UInt32 := do
  let filter ← TeenyC.environmentFilter
  let outcome ←
    TeenyC.command TeenyC.machineFiles filter arguments
  (← IO.getStdout).putStr outcome.stdout
  (← IO.getStderr).putStr outcome.stderr
  return outcome.status.toUInt32
