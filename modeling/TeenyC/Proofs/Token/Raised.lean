import Mathlib.Logic.Function.Iterate
import TeenyC.Proofs.Token.ByteReading

/-
  Scanners in the middle of a text.

  A scanner keeps nothing of the text that it has passed, except
  for the number of its bytes and line breaks. One that has been
  moved over a text byte by byte answers as one that begins behind
  it does; its lines and positions are larger by these numbers. So
  does a scanner that holds the whole text and decodes characters
  by their places in it.

  Key definitions include:
    * `Item.raise`
    * `Cursor.raise`
    * `Scanner.raise`

  Key theorems include:
    * `Cursor.TokenRead.raise`
    * `Cursor.nextToken_raise`
    * `Scanner.performAll_raise`
    * `Cursor.iterate_advance`
    * `Scanner.performAll_moves`
    * `Scanner.answers_behind`
-/

namespace TeenyC

------------------------------------------------------------
-- Raised Lines and Positions
------------------------------------------------------------

/- The same item, told from further on in a text. -/
def Item.raise
    (bytes lines : Nat) : Item → Item
| .ok token => .ok { token with line := token.line + lines }
| .error e =>
    .error
      { e with
        line := e.line + lines
        position := e.position + bytes }

/- The same cursor, further on in a text. -/
def Cursor.raise
    (bytes lines : Nat)
    (c : Cursor) : Cursor :=
  { c with
    position := c.position + bytes
    line := c.line + lines }

namespace Scanner

/- The same answer, told from further on in a text. -/
def Answer.raise
    (bytes lines : Nat) : Answer → Answer
| .moved => .moved
| .byte value => .byte value
| .item told => .item (Item.raise bytes lines told)
| .ended => .ended

/- The same scanner, further on in a text. -/
def raise
    (bytes lines : Nat)
    (s : Scanner) : Scanner :=
  { s with cursor := s.cursor.raise bytes lines }

end Scanner

variable {bytes lines : Nat}

/- The last item is the last from further on too. -/
@[simp]
theorem Item.isLast_raise (item : Item) :
    Item.isLast (Item.raise bytes lines item) = item.isLast := by
  cases item <;> rfl

------------------------------------------------------------
-- Readings
------------------------------------------------------------

namespace Cursor

/- A byte-wise move does not depend on what has been passed. -/
theorem advance_raise (c : Cursor) :
    (c.raise bytes lines).advance =
      c.advance.raise bytes lines := by
  rcases c with ⟨ahead, entered, position, line⟩
  cases entered with
  | cons byte later =>
      simp [advance, raise, Nat.add_right_comm]
  | nil =>
      cases ahead with
      | nil => simp [advance, raise, Nat.add_right_comm]
      | cons ch rest =>
          by_cases hLine : ch = '\n' <;>
            simp [advance, raise, hLine, Nat.add_right_comm]

/- Nor does a move over whole characters. -/
theorem pass_raise
    (c : Cursor)
    (passed rest : List Char) :
    (c.raise bytes lines).pass passed rest =
      (c.pass passed rest).raise bytes lines := by
  simp [pass, raise, Nat.add_right_comm]

/- The byte after the cursor is the same. -/
theorem peek_raise (c : Cursor) :
    (c.raise bytes lines).peek = c.peek := by
  rw [peek, advance_raise]
  rfl

/- A fault is placed as many bytes further on. -/
theorem faultPosition_raise
    (start stop : Cursor)
    (cause : LexCause) :
    faultPosition (start.raise bytes lines)
        (stop.raise bytes lines) cause =
      faultPosition start stop cause + bytes := by
  cases cause <;> rfl

/- What is read behind a gap is told from further on. -/
theorem TokenRead.raise
    {start : Cursor}
    {result : Item × Cursor}
    (hRead : start.TokenRead result) :
    (start.raise bytes lines).TokenRead
      (Item.raise bytes lines result.1,
        result.2.raise bytes lines) := by
  cases hRead with
  | finish hRead =>
      rw [← advance_raise]
      exact .finish hRead
  | lexeme hRead hKind hWhole =>
      rw [← pass_raise]
      exact .lexeme hRead hKind hWhole
  | @fault cause passed rest hRead hWhole =>
      have hFault : (start.raise bytes lines).TokenRead _ :=
        .fault hRead hWhole
      rw [pass_raise, faultPosition_raise] at hFault
      exact hFault

/- A gap is skipped alike further on in a text. -/
theorem skipGap_raise (c : Cursor) :
    (c.raise bytes lines).skipGap =
      c.skipGap.raise bytes lines :=
  pass_raise c _ _

/- A token is read alike further on in a text. -/
theorem nextToken_raise (c : Cursor) :
    (c.raise bytes lines).nextToken =
      (Item.raise bytes lines c.nextToken.1,
        c.nextToken.2.raise bytes lines) := by
  by_cases hEntered : c.entered = []
  · have hThere :
        (c.raise bytes lines).skipGap.TokenRead
          (c.raise bytes lines).nextToken :=
      tokenRead_nextToken hEntered
    rw [skipGap_raise] at hThere
    exact hThere.unique (tokenRead_nextToken hEntered).raise
  · have hThere : (c.raise bytes lines).entered ≠ [] := hEntered
    rw [nextToken_entered hEntered, nextToken_entered hThere]
    rfl

end Cursor

------------------------------------------------------------
-- Steps
------------------------------------------------------------

namespace Scanner

/- A step is answered alike further on in a text. -/
theorem perform_raise
    (s : Scanner)
    (step : Step) :
    (s.raise bytes lines).perform step =
      ((s.perform step).1.raise bytes lines,
        (s.perform step).2.raise bytes lines) := by
  cases step with
  | advance =>
      simp [perform, advance, raise, Answer.raise,
        Cursor.advance_raise]
  | peek =>
      simp [perform, raise, Answer.raise, Cursor.peek_raise]
  | getToken =>
      simp [perform, getToken, raise, Answer.raise,
        Cursor.nextToken_raise]
  | next =>
      rw [perform_next, perform_next]
      by_cases hMark : s.finished <;>
        simp [raise, Answer.raise, hMark, Cursor.nextToken_raise]

/- So are all steps together. -/
theorem performAll_raise
    (s : Scanner)
    (steps : List Step) :
    (s.raise bytes lines).performAll steps =
      ((s.performAll steps).1.map (Answer.raise bytes lines),
        (s.performAll steps).2.raise bytes lines) := by
  induction steps generalizing s with
  | nil => rfl
  | cons step steps ih =>
      rw [performAll_cons, perform_raise, ih, performAll_cons]
      rfl

end Scanner

------------------------------------------------------------
-- Moves over a Text
------------------------------------------------------------

namespace Cursor

variable {c : Cursor}
variable {ch : Char}
variable {passed rest : List Char}

/- One move for each byte left of a character leads behind it. -/
theorem iterate_advance_leave (c : Cursor) :
    advance^[c.entered.length] c = c.leave := by
  rcases c with ⟨ahead, entered, position, line⟩
  induction entered generalizing position with
  | nil => rfl
  | cons byte later ih =>
      rw [List.length_cons, Function.iterate_succ_apply]
      refine (ih (position + 1)).trans ?_
      simp [leave, Nat.add_right_comm, Nat.add_assoc]

/- One move for each byte of a character passes it. -/
theorem iterate_advance_char
    (hEntered : c.entered = [])
    (hAhead : c.ahead = ch :: rest) :
    advance^[ch.utf8Size] c = c.pass [ch] rest := by
  have hInside :
      c.advance.entered = (String.utf8EncodeChar ch).tail := by
    unfold advance
    rw [hEntered, hAhead]
  have hSize : ch.utf8Size = c.advance.entered.length + 1 := by
    have hSome := Char.utf8Size_pos ch
    rw [hInside, List.length_tail, String.length_utf8EncodeChar]
    omega
  rw [hSize, Function.iterate_succ_apply, iterate_advance_leave,
    leave_advance hEntered hAhead]

/-
  One move for each byte of a text passes the text. The induction
  is on its characters.
-/
theorem iterate_advance
    (hEntered : c.entered = [])
    (hAhead : c.ahead = passed ++ rest) :
    advance^[Text.byteLength passed] c = c.pass passed rest := by
  induction passed generalizing c with
  | nil => exact (pass_nil hEntered hAhead).symm
  | cons ch passed ih =>
      rw [Text.byteLength_cons, Nat.add_comm,
        Function.iterate_add_apply,
        iterate_advance_char hEntered hAhead, ih rfl rfl, pass_pass]
      rfl

/- Behind a first part of a text a cursor begins the second. -/
theorem pass_start (before text : String) :
    (start (before ++ text)).pass before.toList
        (text.toList ++ ['\n']) =
      (start text).raise before.utf8ByteSize
        (before.toList.count '\n') := by
  simp [start, pass, raise, Text.byteLength_toList]

end Cursor

namespace Scanner

/- Moves by hand move the cursor, and heed no mark. -/
theorem performAll_advance
    (s : Scanner)
    (count : Nat) :
    s.performAll (List.replicate count .advance) =
      (List.replicate count .moved,
        { s with cursor := Cursor.advance^[count] s.cursor }) := by
  induction count generalizing s with
  | zero => rfl
  | succ count ih =>
      rw [List.replicate_succ, performAll_cons, ih]
      rfl

/- One move for each byte of a text leads to where the rest begins. -/
theorem performAll_moves (before text : String) :
    (start (before ++ text)).performAll
        (List.replicate before.utf8ByteSize .advance) =
      (List.replicate before.utf8ByteSize .moved,
        (start text).raise before.utf8ByteSize
          (before.toList.count '\n')) := by
  have hAhead :
      (Cursor.start (before ++ text)).ahead =
        before.toList ++ (text.toList ++ ['\n']) := by
    simp [Cursor.start]
  have hMoves := Cursor.iterate_advance rfl hAhead
  rw [Text.byteLength_toList, Cursor.pass_start] at hMoves
  rw [performAll_advance]
  dsimp only [start]
  rw [hMoves]
  rfl

/- A scanner of a text stands within its bytes. -/
theorem within_start_push (source : String) :
    (start source).cursor.Within (source.push '\n').toList := by
  rw [String.toList_push]
  exact Cursor.within_start source

/-
  A scanner that has been moved over the first part of a text, byte
  by byte, answers all further steps as one that begins with the
  second part. Kinds, texts and causes are the same; each line is
  larger by the line breaks of the first part, and each position by
  its bytes. A scanner that goes by the bytes of the whole text
  answers so too.
-/
theorem answers_behind
    (before text : String)
    (steps : List Step) :
    let bytes := before.utf8ByteSize
    let lines := before.toList.count '\n'
    let whole := (before ++ text).push '\n'
    let moves := List.replicate bytes Step.advance
    let fresh := (start text).performAll steps
    let answers :=
      List.replicate bytes Answer.moved ++
        fresh.1.map (Answer.raise bytes lines)
    let last := fresh.2.raise bytes lines
    (start (before ++ text)).performAll (moves ++ steps) =
        (answers, last) ∧
      ((start (before ++ text)).inBytes whole).performAll?
            (moves ++ steps) =
          some (answers, last.inBytes whole) ∧
        ((start text).inBytes (text.push '\n')).performAll?
            steps =
          some (fresh.1, fresh.2.inBytes (text.push '\n')) := by
  intro bytes lines whole moves fresh answers last
  have hRun :
      (start (before ++ text)).performAll (moves ++ steps) =
        (answers, last) := by
    rw [performAll_append, performAll_moves, performAll_raise]
  refine ⟨hRun, ?_, ?_⟩
  · rw [performAll?_inBytes (within_start_push _), hRun]
  · exact performAll?_inBytes (within_start_push _) steps

/- A fault behind a line of three bytes. -/
example :
    let moves := List.replicate 3 Step.advance
    let passed := ((start "é\n!é").performAll moves).2
    (passed.perform .getToken).1 =
      .item
        (.error
          { cause := .loneBang 'é', line := 2, position := 3 }) := by
  decide +kernel

end Scanner

end TeenyC
