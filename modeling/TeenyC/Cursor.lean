import TeenyC.Lexeme
import TeenyC.Text.Encoding

/-
  A place in a program text, counted in bytes.

  A cursor holds what lies ahead of it. It moves byte by byte
  or token by token, and may come to rest inside a character of
  several bytes; only the byte-wise move leads there.

  Key definitions include:
    * `Cursor`
    * `Cursor.start`
    * `Cursor.current`
    * `Cursor.peek`
    * `Cursor.advance`
    * `Cursor.nextToken`
    * `Cursor.bytesAhead`
    * `Cursor.lastLine`

  Progress is stated by:
    * `Cursor.bytesAhead_nextToken_le`
    * `Cursor.bytesAhead_nextToken_lt`

  That lines stay small is stated by:
    * `Cursor.lastLine_nextToken`
    * `Cursor.lastLine_start_lt`
-/

namespace TeenyC

------------------------------------------------------------
-- Cursors
------------------------------------------------------------

/-
  The characters ahead, the bytes still ahead of a character
  that has been entered, the bytes passed, and the line.

  Lines have no greatest number here. They are meant for 32 bits,
  and fit there unless a text has billions of line breaks: see
  `lastLine_start_lt`. The line of a token, a jump or an error is
  the line of some cursor.
-/
structure Cursor where
  ahead : List Char
  entered : List UInt8
  position : Nat
  line : Nat
deriving DecidableEq

namespace Cursor

/-
  The cursor before a program text. The last line is closed
  whether the text closes it or not.
-/
def start (source : String) : Cursor where
  ahead := source.toList ++ ['\n']
  entered := []
  position := 0
  line := 1

/- The number of bytes ahead. -/
def bytesAhead (c : Cursor) : Nat :=
  c.entered.length + Text.byteLength c.ahead

/- The line that is reached when all that is ahead is passed. -/
def lastLine (c : Cursor) : Nat :=
  c.line + c.ahead.count '\n'

/- The byte under the cursor, or zero past the end. -/
def current (c : Cursor) : UInt8 :=
  match c.entered, c.ahead with
  | byte :: _, _ => byte
  | [], ch :: _ => (String.utf8EncodeChar ch).headD 0
  | [], [] => 0

/- Move on by one byte, also past the end. -/
def advance (c : Cursor) : Cursor :=
  match c.entered, c.ahead with
  | _ :: later, _ =>
      { c with entered := later, position := c.position + 1 }
  | [], ch :: rest =>
      { ahead := rest
        entered := (String.utf8EncodeChar ch).tail
        position := c.position + 1
        line := if ch = '\n' then c.line + 1 else c.line }
  | [], [] => { c with position := c.position + 1 }

/- The byte after the one under the cursor, or zero past the end. -/
def peek (c : Cursor) : UInt8 :=
  c.advance.current

/- Move on over whole characters, to where `rest` is ahead. -/
def pass
    (c : Cursor)
    (passed rest : List Char) : Cursor where
  ahead := rest
  entered := []
  position := c.position + Text.byteLength passed
  line := c.line + passed.count '\n'

/-
  An error is placed where it was noticed, except that a number
  is named by its start.
-/
def faultPosition
    (start stop : Cursor) : LexCause → Nat
| .bareFraction _ => start.position
| _ => stop.position

/-
  Read the next token. At a fault the cursor stays where the
  fault was noticed; the end of input can be read again and
  again, and moves the cursor by one byte each time.
-/
def nextToken (c : Cursor) : Except LexError Token × Cursor :=
  match c.entered with
  | _ :: _ =>
      (.error
        { cause := .unknown '\x00'
          line := c.line
          position := c.position }, c)
  | [] =>
      let start :=
        c.pass (Lexeme.gap c.ahead) (Lexeme.afterGap c.ahead)
      match Lexeme.read start.ahead with
      | .finish =>
          (.ok { kind := .eof, text := "", line := start.line },
            start.advance)
      | .lexeme kind text rest =>
          (.ok
            { kind := kind
              text := String.ofList text
              line := start.line },
            start.pass (kind.spell text) rest)
      | .fault cause passed rest =>
          let stop := start.pass passed rest
          (.error
            { cause := cause
              line := stop.line
              position := faultPosition start stop cause },
            stop)

------------------------------------------------------------
-- Lines
------------------------------------------------------------

/- A cursor has not passed its last line. -/
theorem line_le_lastLine (c : Cursor) :
    c.line ≤ c.lastLine :=
  Nat.le_add_right _ _

/- A byte-wise move goes on towards the same last line. -/
theorem lastLine_advance (c : Cursor) :
    c.advance.lastLine = c.lastLine := by
  rcases c with ⟨ahead, entered, position, line⟩
  cases entered with
  | cons byte later => rfl
  | nil =>
      cases ahead with
      | nil => rfl
      | cons ch rest =>
          by_cases hBreak : ch = '\n'
          · simp only [advance, lastLine, hBreak, if_true,
              List.count_cons_self]
            omega
          · simp [advance, lastLine, hBreak]

/- So does a move over characters that stand ahead. -/
theorem lastLine_pass
    {c : Cursor}
    {passed rest : List Char}
    (hWhole : passed ++ rest = c.ahead) :
    (c.pass passed rest).lastLine = c.lastLine := by
  rw [lastLine, lastLine, ← hWhole, List.count_append, pass]
  dsimp only
  omega

/- So does the reading of a token. -/
theorem lastLine_nextToken (c : Cursor) :
    c.nextToken.2.lastLine = c.lastLine := by
  unfold nextToken
  split
  · rfl
  · have hGap :=
      lastLine_pass (Lexeme.gap_append_afterGap c.ahead)
    dsimp only
    rw [← hGap]
    generalize
      c.pass (Lexeme.gap c.ahead) (Lexeme.afterGap c.ahead) =
        start
    have hCovers := Lexeme.read_covers start.ahead
    cases hRead : Lexeme.read start.ahead with
    | finish => exact lastLine_advance start
    | lexeme kind text rest =>
        rw [hRead] at hCovers
        cases hCovers with
        | lexeme _ _ hWhole => exact lastLine_pass hWhole
    | fault cause passed rest =>
        rw [hRead] at hCovers
        cases hCovers with
        | fault hWhole => exact lastLine_pass hWhole

/- A text with few line breaks has a last line that fits in 32 bits. -/
theorem lastLine_start_lt
    {source : String}
    (hFew : source.toList.count '\n' < UInt32.size - 2) :
    (start source).lastLine < UInt32.size := by
  simp only [lastLine, start, List.count_append,
    List.count_singleton_self]
  simp only [UInt32.size] at hFew ⊢
  omega

------------------------------------------------------------
-- Progress
------------------------------------------------------------

/- A byte-wise move passes at most one byte. -/
theorem bytesAhead_advance_le
    (c : Cursor) :
    c.advance.bytesAhead ≤ c.bytesAhead := by
  rcases c with ⟨ahead, entered, position, line⟩
  cases entered with
  | cons byte later => simp [advance, bytesAhead]
  | nil =>
      cases ahead with
      | nil => simp [advance, bytesAhead]
      | cons ch rest => simp [advance, bytesAhead]

/- After a move over whole characters the rest is ahead. -/
theorem bytesAhead_pass
    (c : Cursor)
    (passed rest : List Char) :
    (c.pass passed rest).bytesAhead = Text.byteLength rest := by
  simp [pass, bytesAhead]

/- The gap and what follows it share the bytes ahead. -/
theorem byteLength_gap_add
    (source : List Char) :
    Text.byteLength (Lexeme.gap source) +
        Text.byteLength (Lexeme.afterGap source) =
      Text.byteLength source := by
  rw [← Text.byteLength_append, Lexeme.gap_append_afterGap]

/- Reading a token never moves back. -/
theorem bytesAhead_nextToken_le
    (c : Cursor) :
    c.nextToken.2.bytesAhead ≤ c.bytesAhead := by
  unfold nextToken
  split
  · exact Nat.le_refl _
  · next hEntered =>
    have hGap := byteLength_gap_add c.ahead
    have hCovers := Lexeme.read_covers (Lexeme.afterGap c.ahead)
    have hAhead : c.bytesAhead = Text.byteLength c.ahead := by
      simp [bytesAhead, hEntered]
    dsimp only [pass] at hCovers ⊢
    cases hRead : Lexeme.read (Lexeme.afterGap c.ahead) with
    | finish =>
        have hMove :=
          bytesAhead_advance_le
            (c.pass (Lexeme.gap c.ahead)
              (Lexeme.afterGap c.ahead))
        rw [bytesAhead_pass] at hMove
        dsimp only [pass] at hMove ⊢
        omega
    | lexeme kind text rest =>
        rw [hRead] at hCovers
        cases hCovers with
        | lexeme hKind hSome hWhole =>
            have hLength := congrArg Text.byteLength hWhole
            rw [Text.byteLength_append] at hLength
            simp only [bytesAhead, List.length_nil] at hAhead ⊢
            omega
    | fault cause passed rest =>
        rw [hRead] at hCovers
        cases hCovers with
        | fault hWhole =>
            have hLength := congrArg Text.byteLength hWhole
            rw [Text.byteLength_append] at hLength
            simp only [bytesAhead, List.length_nil] at hAhead ⊢
            omega

/- Reading a token other than the end of input moves on. -/
theorem bytesAhead_nextToken_lt
    {c : Cursor}
    {token : Token}
    (hToken : c.nextToken.1 = .ok token)
    (hKind : token.kind ≠ .eof) :
    c.nextToken.2.bytesAhead < c.bytesAhead := by
  unfold nextToken at hToken ⊢
  split at hToken
  · cases hToken
  · next hEntered =>
    have hGap := byteLength_gap_add c.ahead
    have hCovers := Lexeme.read_covers (Lexeme.afterGap c.ahead)
    have hAhead : c.bytesAhead = Text.byteLength c.ahead := by
      simp [bytesAhead, hEntered]
    dsimp only [pass] at hToken ⊢
    cases hRead : Lexeme.read (Lexeme.afterGap c.ahead) with
    | finish =>
        rw [hRead] at hToken
        cases hToken
        exact absurd rfl hKind
    | lexeme kind text rest =>
        rw [hRead] at hCovers
        cases hCovers with
        | lexeme hKind hSome hWhole =>
            have hLength := congrArg Text.byteLength hWhole
            have hPos := Text.byteLength_pos hSome
            rw [Text.byteLength_append] at hLength
            simp only [bytesAhead, List.length_nil] at hAhead ⊢
            omega
    | fault cause passed rest =>
        rw [hRead] at hToken
        cases hToken

end Cursor

end TeenyC
