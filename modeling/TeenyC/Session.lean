import TeenyC.Cursor
import TeenyC.Artifact
import TeenyC.Event

/-
  The state of a compilation: two tokens and the cursor behind
  them, the names met so far, the text written so far, and the
  reports made so far.

  Key definitions include:
    * `Jump`
    * `Session`
    * `Session.begin`
    * `Session.advance`
    * `Session.left`

  Progress is stated by:
    * `Session.left_advance_le`
    * `Session.left_advance_lt`
-/

namespace TeenyC

/- A jump to a label, with the line it stands on. -/
structure Jump where
  label : String
  line : Nat
deriving DecidableEq

/-
  A session reads its program through `current`, and knows one
  token more, `ahead`. Variables and labels stand in the order
  of their declaration, jumps in the order of their reading.
-/
structure Session where
  cursor : Cursor
  current : Token
  ahead : Token
  vars : List String
  labels : List String
  jumps : List Jump
  artifact : Artifact
  events : Array Event

namespace Session

------------------------------------------------------------
-- Beginning and Advancing
------------------------------------------------------------

/-
  Begin at a cursor, writing after what an artifact holds. The
  first two tokens must be readable.
-/
def begin
    (cursor : Cursor)
    (artifact : Artifact) : Except LexError Session :=
  match cursor.nextToken with
  | (.error e, _) => .error e
  | (.ok current, cursor) =>
      match cursor.nextToken with
      | (.error e, _) => .error e
      | (.ok ahead, cursor) =>
          .ok
            { cursor := cursor
              current := current
              ahead := ahead
              vars := []
              labels := []
              jumps := []
              artifact := artifact
              events := #[] }

/-
  Move on by one token. If none can be read, both tokens stay,
  and the cursor stays where the reading failed.
-/
def advance (s : Session) : Except Diagnostic Unit × Session :=
  match s.cursor.nextToken with
  | (.ok token, cursor) =>
      (.ok (),
        { s with
          cursor := cursor
          current := s.ahead
          ahead := token })
  | (.error e, cursor) =>
      (.error (.lexical e), { s with cursor := cursor })

------------------------------------------------------------
-- Progress
------------------------------------------------------------

/- A token other than the end of input is still to be read. -/
def weight (token : Token) : Nat :=
  if token.kind = .eof then 0 else 1

/- A bound on the number of tokens still to be read. -/
def left (s : Session) : Nat :=
  s.cursor.bytesAhead + weight s.current + weight s.ahead

/- Moving on never adds to what is left. -/
theorem left_advance_le
    (s : Session) :
    s.advance.2.left ≤ s.left := by
  unfold advance
  split
  · next token cursor hToken =>
    have hLe := Cursor.bytesAhead_nextToken_le s.cursor
    have hLt := @Cursor.bytesAhead_nextToken_lt s.cursor token
    rw [hToken] at hLe hLt
    dsimp only [left] at hLe hLt ⊢
    by_cases hKind : token.kind = .eof
    · simp only [weight, hKind, if_true]
      omega
    · have hMove := hLt rfl hKind
      simp only [weight, hKind, if_false]
      omega
  · next e cursor hError =>
    have hLe := Cursor.bytesAhead_nextToken_le s.cursor
    rw [hError] at hLe
    dsimp only [left] at hLe ⊢
    omega

/- Moving on from a token uses it up. -/
theorem left_advance_lt
    {s : Session}
    (hKind : s.current.kind ≠ .eof)
    (hDone : s.advance.1 = .ok ()) :
    s.advance.2.left < s.left := by
  unfold advance at hDone ⊢
  split at hDone
  · next token cursor hToken =>
    have hLe := Cursor.bytesAhead_nextToken_le s.cursor
    have hLt := @Cursor.bytesAhead_nextToken_lt s.cursor token
    have hCurrent : weight s.current = 1 := by
      simp [weight, hKind]
    rw [hToken] at hLe hLt
    dsimp only [left] at hLe hLt ⊢
    by_cases hNext : token.kind = .eof
    · have hZero : weight token = 0 := by
        simp [weight, hNext]
      omega
    · have hMove := hLt rfl hNext
      have hOne : weight token = 1 := by
        simp [weight, hNext]
      omega
  · cases hDone

------------------------------------------------------------
-- Writing and Declaring
------------------------------------------------------------

/- Add text to the body. -/
def emit
    (text : String)
    (s : Session) : Session :=
  { s with artifact := s.artifact.emit text }

/- Add a line to the body. -/
def emitLine
    (text : String)
    (s : Session) : Session :=
  { s with artifact := s.artifact.emitLine text }

/- Add a line to the header. -/
def headerLine
    (text : String)
    (s : Session) : Session :=
  { s with artifact := s.artifact.headerLine text }

/- Make a report. -/
def report
    (event : Event)
    (s : Session) : Session :=
  { s with events := s.events.push event }

/- Declare a variable, in the header too unless it is known. -/
def declare
    (name : String)
    (s : Session) : Session :=
  if s.vars.contains name then s
  else
    { s with
      vars := s.vars ++ [name]
      artifact := s.artifact.headerLine ("float " ++ name ++ ";") }

/- Add a label. -/
def addLabel
    (name : String)
    (s : Session) : Session :=
  { s with labels := s.labels ++ [name] }

/- Add a jump. -/
def addJump
    (jump : Jump)
    (s : Session) : Session :=
  { s with jumps := s.jumps ++ [jump] }

/- The first jump whose label is not declared. -/
def strayJump? (s : Session) : Option Jump :=
  s.jumps.find? fun jump => !s.labels.contains jump.label

end Session

end TeenyC
