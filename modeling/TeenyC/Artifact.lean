import TeenyC.Text.Encoding

/-
  The C text under construction.

  Declarations go to the header and statements to the body, in
  whatever order they arise; the finished text is the header
  followed by the body.

  Key definitions include:
    * `Artifact`
    * `Artifact.emit`
    * `Artifact.emitLine`
    * `Artifact.headerLine`
    * `Artifact.output`
    * `Sink`
    * `Artifact.writeTo`
-/

namespace TeenyC

------------------------------------------------------------
-- Header and Body
------------------------------------------------------------

/- The two parts of a C text. -/
structure Artifact where
  header : String
  body : String
deriving DecidableEq

namespace Artifact

/- The artifact before anything is written. -/
def empty : Artifact where
  header := ""
  body := ""

/- Add text to the body. -/
def emit
    (a : Artifact)
    (text : String) : Artifact :=
  { a with body := a.body ++ text }

/- Add a line to the body. -/
def emitLine
    (a : Artifact)
    (text : String) : Artifact :=
  { a with body := a.body ++ text ++ "\n" }

/- Add a line to the header. -/
def headerLine
    (a : Artifact)
    (text : String) : Artifact :=
  { a with header := a.header ++ text ++ "\n" }

/- The finished text. -/
def output (a : Artifact) : String :=
  a.header ++ a.body

end Artifact

------------------------------------------------------------
-- Sinks
------------------------------------------------------------

/-
  A receiver of bytes, which may have room for only so many
  more and then takes no further byte.
-/
structure Sink where
  taken : List UInt8
  room : Option Nat
deriving DecidableEq

namespace Sink

/- A sink that has taken nothing yet. -/
def fresh (room : Option Nat) : Sink where
  taken := []
  room := room

/- Hand over bytes, and tell whether all of them were taken. -/
def accept
    (s : Sink)
    (bytes : List UInt8) : Bool × Sink :=
  match s.room with
  | none => (true, { s with taken := s.taken ++ bytes })
  | some room =>
      (decide (bytes.length ≤ room),
        { taken := s.taken ++ bytes.take room
          room := some (room - bytes.length) })

end Sink

namespace Artifact

/-
  Hand over the header and then the body. A sink that does not
  take all of the header is not offered the body.
-/
def writeTo
    (a : Artifact)
    (sink : Sink) : Bool × Sink :=
  match sink.accept (Text.encode a.header.toList) with
  | (true, later) => later.accept (Text.encode a.body.toList)
  | (false, later) => (false, later)

end Artifact

end TeenyC
