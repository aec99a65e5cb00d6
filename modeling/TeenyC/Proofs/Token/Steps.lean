import TeenyC.Proofs.Text.Bytes
import TeenyC.Proofs.Token.Scan

/-
  A scanner in the hands of a caller.

  A caller may move the cursor byte by byte, look at the next byte,
  and read or request tokens, in any order, also after a fault,
  after the end of input, and past the end of the text. Whatever it
  does, the cursor stands between two characters of the text, inside
  one of several bytes, or beyond the end; and its line is that of
  the characters passed.

  Key definitions include:
    * `Scanner.Step`
    * `Scanner.Answer`
    * `Scanner.perform`
    * `Scanner.performAll`
    * `Cursor.Within`
    * `Cursor.skipGap`
    * `Cursor.TokenRead`

  Key theorems include:
    * `Cursor.Within.advance`
    * `Cursor.Within.pass`
    * `Cursor.TokenRead.unique`
    * `Cursor.tokenRead_nextToken`
    * `Cursor.Within.nextToken`
    * `Cursor.Within.current_eq`
    * `Cursor.Within.line_eq`
    * `Scanner.within_performAll`
-/

namespace TeenyC

------------------------------------------------------------
-- Steps
------------------------------------------------------------

namespace Scanner

/-
  What a caller may do: move on by a byte, look at the byte after
  the cursor, read a token, or request the next item.
-/
inductive Step where
| advance
| peek
| getToken
| next
deriving DecidableEq

/- What a step answers. A request after the last item has ended. -/
inductive Answer where
| moved
| byte (value : UInt8)
| item (item : Item)
| ended
deriving DecidableEq

/- Do one step. -/
def perform
    (s : Scanner) : Step → Answer × Scanner
| .advance => (.moved, s.advance)
| .peek => (.byte s.cursor.peek, s)
| .getToken =>
    let (item, later) := s.getToken
    (.item item, later)
| .next =>
    match s.next? with
    | none => (.ended, s)
    | some (item, later) => (.item item, later)

/- Do one step after the other. -/
def performAll
    (s : Scanner) : List Step → List Answer × Scanner
| [] => ([], s)
| step :: steps =>
    let (answer, later) := s.perform step
    let (answers, last) := later.performAll steps
    (answer :: answers, last)

/- The first step is done, then the others. -/
theorem performAll_cons
    (s : Scanner)
    (step : Step)
    (steps : List Step) :
    s.performAll (step :: steps) =
      ((s.perform step).1 ::
          ((s.perform step).2.performAll steps).1,
        ((s.perform step).2.performAll steps).2) :=
  rfl

/- Steps are done one part after the other. -/
theorem performAll_append
    (s : Scanner)
    (steps more : List Step) :
    s.performAll (steps ++ more) =
      ((s.performAll steps).1 ++
          ((s.performAll steps).2.performAll more).1,
        ((s.performAll steps).2.performAll more).2) := by
  induction steps generalizing s with
  | nil => rfl
  | cons step steps ih =>
      rw [List.cons_append, performAll_cons, ih, performAll_cons]
      rfl

/- Only a request heeds the mark, and only a request sets it. -/
theorem perform_next
    (s : Scanner) :
    s.perform .next =
      if s.finished then (.ended, s)
      else
        (.item s.cursor.nextToken.1,
          { cursor := s.cursor.nextToken.2
            finished := Item.isLast s.cursor.nextToken.1 }) := by
  unfold perform next?
  by_cases hMark : s.finished <;> simp [hMark]

/- An item is what the cursor reads, and leaves the cursor there. -/
theorem perform_item
    {s : Scanner}
    {step : Step}
    {item : Item}
    (hItem : (s.perform step).1 = .item item) :
    item = s.cursor.nextToken.1 ∧
      (s.perform step).2.cursor = s.cursor.nextToken.2 := by
  cases step with
  | advance => cases hItem
  | peek => cases hItem
  | getToken =>
      cases hItem
      exact ⟨rfl, rfl⟩
  | next =>
      rw [perform_next] at hItem ⊢
      split at hItem
      · cases hItem
      · next hMark =>
        cases hItem
        rw [if_neg hMark]
        exact ⟨rfl, rfl⟩

end Scanner

------------------------------------------------------------
-- Cursors within a Text
------------------------------------------------------------

namespace Cursor

/-
  A cursor stands between two characters of a text, inside one of
  them, or beyond the end. A character that can be stood in is no
  line break, which has one byte only.
-/
inductive Within (buffer : List Char) : Cursor → Prop
| between
    {before ahead : List Char}
    (hWhole : before ++ ahead = buffer) :
    Within buffer
      { ahead := ahead
        entered := []
        position := Text.byteLength before
        line := 1 + before.count '\n' }
| inside
    {before ahead : List Char}
    {ch : Char}
    {passed entered : List UInt8}
    (hWhole : before ++ ch :: ahead = buffer)
    (hBytes : passed ++ entered = String.utf8EncodeChar ch)
    (hPassed : passed ≠ [])
    (hEntered : entered ≠ []) :
    Within buffer
      { ahead := ahead
        entered := entered
        position := Text.byteLength before + passed.length
        line := 1 + before.count '\n' }
| beyond
    (extra : Nat) :
    Within buffer
      { ahead := []
        entered := []
        position := Text.byteLength buffer + extra
        line := 1 + buffer.count '\n' }

variable {buffer passed rest : List Char}
variable {c : Cursor}

/- A text is begun before its first character. -/
theorem within_start (source : String) :
    Within (source.toList ++ ['\n']) (start source) :=
  .between (List.nil_append (source.toList ++ ['\n']))

/- A line break has one byte. -/
theorem ne_newline_of_length
    {ch : Char}
    {passed entered : List UInt8}
    (hBytes : passed ++ entered = String.utf8EncodeChar ch)
    (hPassed : passed ≠ [])
    (hEntered : entered ≠ []) :
    ch ≠ '\n' := by
  rintro rfl
  have hLength := congrArg List.length hBytes
  rw [List.length_append, String.length_utf8EncodeChar]
    at hLength
  have hLeft := List.length_pos_of_ne_nil hPassed
  have hRight := List.length_pos_of_ne_nil hEntered
  have hSize : '\n'.utf8Size = 1 := rfl
  omega

/- The bytes of a character are entered one by one, then passed. -/
theorem within_entered
    {before ahead : List Char}
    {ch : Char}
    {passed entered : List UInt8}
    (hWhole : before ++ ch :: ahead = buffer)
    (hBytes : passed ++ entered = String.utf8EncodeChar ch)
    (hPassed : passed ≠ [])
    (hLine : ch ≠ '\n') :
    Within buffer
      { ahead := ahead
        entered := entered
        position := Text.byteLength before + passed.length
        line := 1 + before.count '\n' } := by
  by_cases hEntered : entered = []
  · rw [hEntered, List.append_nil] at hBytes
    have hMoved : (before ++ [ch]) ++ ahead = buffer := by
      simp [hWhole]
    have hBetween := Within.between hMoved
    rw [Text.byteLength_append, Text.byteLength_cons,
      Text.byteLength_nil, ← String.length_utf8EncodeChar,
      ← hBytes, List.count_append, List.count_singleton,
      beq_false_of_ne hLine] at hBetween
    rw [hEntered]
    exact hBetween
  · exact .inside hWhole hBytes hPassed hEntered

/- A byte-wise move stays within the text, or goes beyond it. -/
theorem Within.advance
    (hWithin : Within buffer c) :
    Within buffer c.advance := by
  cases hWithin with
  | @between before ahead hWhole =>
      cases ahead with
      | nil =>
          rw [List.append_nil] at hWhole
          rw [hWhole]
          exact .beyond 1
      | cons ch rest =>
          by_cases hLine : ch = '\n'
          · have hMoved : (before ++ [ch]) ++ rest = buffer := by
              simp [hWhole]
            have hMove := Within.between hMoved
            have hSize : '\n'.utf8Size = 1 := rfl
            have hTail : (String.utf8EncodeChar '\n').tail = [] :=
              rfl
            rw [hLine] at hMove ⊢
            simpa [Cursor.advance, Nat.add_assoc, hSize, hTail]
              using hMove
          · rcases
                List.exists_cons_of_ne_nil
                  (String.utf8EncodeChar_ne_nil (c := ch)) with
              ⟨byte, later, hBytes⟩
            have hCut :
                [byte] ++ later = String.utf8EncodeChar ch :=
              hBytes.symm
            have hMove :=
              within_entered hWhole hCut (by simp) hLine
            simpa [Cursor.advance, hLine, hBytes] using hMove
  | @inside before ahead ch passed entered hWhole hBytes hPassed
      hEntered =>
      cases entered with
      | nil => exact absurd rfl hEntered
      | cons byte later =>
          have hCut :
              (passed ++ [byte]) ++ later =
                String.utf8EncodeChar ch := by
            simpa using hBytes
          have hMove :=
            within_entered hWhole hCut (by simp)
              (ne_newline_of_length hBytes hPassed hEntered)
          simpa [Cursor.advance, Nat.add_assoc] using hMove
  | @beyond extra => exact .beyond (extra + 1)

/- So does a move over whole characters that are ahead. -/
theorem Within.pass
    (hWithin : Within buffer c)
    (hEntered : c.entered = [])
    (hAhead : passed ++ rest = c.ahead) :
    Within buffer (c.pass passed rest) := by
  cases hWithin with
  | @between before ahead hWhole =>
      have hMoved : (before ++ passed) ++ rest = buffer := by
        rw [List.append_assoc, hAhead, hWhole]
      have hMove := Within.between hMoved
      rw [Text.byteLength_append, List.count_append] at hMove
      simpa [Cursor.pass, Nat.add_assoc] using hMove
  | inside _ _ _ hSome => exact absurd hEntered hSome
  | @beyond extra =>
      rcases List.append_eq_nil_iff.mp hAhead with
        ⟨hPassed, hRest⟩
      rw [hPassed, hRest]
      exact .beyond extra

------------------------------------------------------------
-- Readings of a Cursor
------------------------------------------------------------

/- The cursor behind the gap that is ahead. -/
def skipGap (c : Cursor) : Cursor :=
  c.pass (Lexeme.gap c.ahead) (Lexeme.afterGap c.ahead)

/- A gap is skipped over whole characters. -/
@[simp]
theorem entered_skipGap (c : Cursor) : c.skipGap.entered = [] :=
  rfl

/- What follows the gap is ahead behind it. -/
@[simp]
theorem ahead_skipGap (c : Cursor) :
    c.skipGap.ahead = Lexeme.afterGap c.ahead :=
  rfl

/- A gap has no line breaks. -/
@[simp]
theorem line_skipGap (c : Cursor) : c.skipGap.line = c.line := by
  rw [skipGap, pass, (Lexeme.gap_gap c.ahead).count_newline]
  rfl

/- A gap is not skipped backwards. -/
theorem position_le_skipGap (c : Cursor) :
    c.position ≤ c.skipGap.position :=
  Nat.le_add_right _ _

/- A gap is skipped within the text. -/
theorem Within.skipGap
    (hWithin : Within buffer c)
    (hEntered : c.entered = []) :
    Within buffer c.skipGap :=
  hWithin.pass hEntered (Lexeme.gap_append_afterGap c.ahead)

/-
  What a cursor behind a gap reads, and where it is left: at an
  end of input a byte further, behind a lexeme, or at a fault.
-/
inductive TokenRead (start : Cursor) : Item × Cursor → Prop
| finish
    (hRead : Lexeme.read start.ahead = .finish) :
    TokenRead start
      (.ok { kind := .eof, text := "", line := start.line },
        start.advance)
| lexeme
    {kind : Kind}
    {text rest : List Char}
    (hRead : Lexeme.read start.ahead = .lexeme kind text rest)
    (hKind : kind ≠ .eof)
    (hWhole : kind.spell text ++ rest = start.ahead) :
    TokenRead start
      (.ok
        { kind := kind
          text := String.ofList text
          line := start.line },
        start.pass (kind.spell text) rest)
| fault
    {cause : LexCause}
    {passed rest : List Char}
    (hRead : Lexeme.read start.ahead = .fault cause passed rest)
    (hWhole : passed ++ rest = start.ahead) :
    TokenRead start
      (.error
        { cause := cause
          line := (start.pass passed rest).line
          position :=
            faultPosition start (start.pass passed rest) cause },
        start.pass passed rest)

/- Between two characters a token is read behind the gap. -/
theorem tokenRead_nextToken
    (hEntered : c.entered = []) :
    TokenRead c.skipGap c.nextToken := by
  have hCovers := Lexeme.read_covers c.skipGap.ahead
  unfold Cursor.nextToken
  rw [hEntered]
  dsimp only
  split
  · next hRead => exact .finish hRead
  · next kind text rest hRead =>
    change Lexeme.read c.skipGap.ahead = _ at hRead
    rw [hRead] at hCovers
    cases hCovers with
    | lexeme hKind _ hWhole => exact .lexeme hRead hKind hWhole
  · next cause passed rest hRead =>
    change Lexeme.read c.skipGap.ahead = _ at hRead
    rw [hRead] at hCovers
    cases hCovers with
    | fault hWhole => exact .fault hRead hWhole

/- A cursor reads one token. -/
theorem TokenRead.unique
    {start : Cursor}
    {result other : Item × Cursor}
    (hRead : start.TokenRead result)
    (hOther : start.TokenRead other) :
    result = other := by
  cases hRead with
  | finish hFirst =>
      cases hOther with
      | finish => rfl
      | lexeme hSecond | fault hSecond =>
          rw [hFirst] at hSecond
          cases hSecond
  | lexeme hFirst =>
      cases hOther with
      | lexeme hSecond =>
          rw [hFirst] at hSecond
          cases hSecond
          rfl
      | finish hSecond | fault hSecond =>
          rw [hFirst] at hSecond
          cases hSecond
  | fault hFirst =>
      cases hOther with
      | fault hSecond =>
          rw [hFirst] at hSecond
          cases hSecond
          rfl
      | finish hSecond | lexeme hSecond =>
          rw [hFirst] at hSecond
          cases hSecond

/- Inside a character nothing can be read. -/
theorem nextToken_entered
    (hEntered : c.entered ≠ []) :
    c.nextToken =
      (.error
        { cause := .unknown '\x00'
          line := c.line
          position := c.position }, c) := by
  unfold Cursor.nextToken
  split
  · rfl
  · next hNone => exact absurd hNone hEntered

/- A token is read within the text. -/
theorem Within.nextToken
    (hWithin : Within buffer c) :
    Within buffer c.nextToken.2 := by
  by_cases hEntered : c.entered = []
  · have hStart := hWithin.skipGap hEntered
    have hRead := tokenRead_nextToken hEntered
    generalize c.nextToken = result at hRead ⊢
    cases hRead with
    | finish => exact hStart.advance
    | lexeme _ _ hWhole => exact hStart.pass rfl hWhole
    | fault _ hWhole => exact hStart.pass rfl hWhole
  · rw [nextToken_entered hEntered]
    exact hWithin

------------------------------------------------------------
-- Bytes and Lines of a Cursor
------------------------------------------------------------

/- The bytes of a text in which a character is cut. -/
theorem encode_cut
    {before ahead : List Char}
    {ch : Char}
    {passed entered : List UInt8}
    (hWhole : before ++ ch :: ahead = buffer)
    (hBytes : passed ++ entered = String.utf8EncodeChar ch) :
    Text.encode buffer =
      (Text.encode before ++ passed) ++
        (entered ++ Text.encode ahead) := by
  rw [← hWhole, Text.encode_append, Text.encode_cons, ← hBytes]
  simp [List.append_assoc]

/- What is ahead of a cursor stands behind its place. -/
theorem Within.drop_eq
    (hWithin : Within buffer c) :
    (Text.encode buffer).drop c.position =
      c.entered ++ Text.encode c.ahead := by
  cases hWithin with
  | between hWhole =>
      rw [← hWhole, Text.drop_encode_append, List.nil_append]
  | inside hWhole hBytes _ _ =>
      rw [encode_cut hWhole hBytes]
      apply List.drop_left'
      rw [List.length_append, Text.length_encode]
  | beyond =>
      rw [List.drop_eq_nil_of_le]
      · rfl
      · rw [Text.length_encode]
        exact Nat.le_add_right _ _

/- The byte under a cursor is the byte at its place. -/
theorem Within.current_eq
    (hWithin : Within buffer c) :
    c.current = Text.byteAt buffer c.position := by
  have hHead :
      Text.byteAt buffer c.position =
        ((Text.encode buffer).drop c.position).headD 0 := by
    rw [Text.byteAt, List.getD_eq_getElem?_getD,
      List.headD_eq_head?_getD, List.head?_drop]
  rw [hHead, hWithin.drop_eq]
  unfold current
  split
  · next hEntered => rw [hEntered]; rfl
  · next ch rest hEntered hAhead =>
    rcases
        List.exists_cons_of_ne_nil
          (String.utf8EncodeChar_ne_nil (c := ch)) with
      ⟨byte, later, hBytes⟩
    rw [hEntered, hAhead, Text.encode_cons, hBytes]
    rfl
  · next hEntered hAhead => rw [hEntered, hAhead]; rfl

/- The line of a cursor is that of its place. -/
theorem Within.line_eq
    (hWithin : Within buffer c) :
    c.line = Text.lineAt buffer c.position := by
  cases hWithin with
  | between hWhole => rw [← hWhole, Text.lineAt_append]
  | @inside before _ ch passed _ hWhole hBytes hPassed hEntered =>
      have hTake :
          (Text.encode buffer).take
              (Text.byteLength before + passed.length) =
            Text.encode before ++ passed := by
        rw [encode_cut hWhole hBytes]
        apply List.take_left'
        rw [List.length_append, Text.length_encode]
      have hNone : '\n'.toUInt8 ∉ passed := by
        intro hMember
        have hHere : '\n'.toUInt8 ∈ String.utf8EncodeChar ch :=
          hBytes ▸ List.mem_append_left _ hMember
        exact
          ne_newline_of_length hBytes hPassed hEntered
            (Text.eq_of_mem_utf8EncodeChar (by decide) hHere)
      rw [Text.lineAt, hTake, List.count_append,
        List.count_eq_zero.mpr hNone,
        Text.count_encode (by decide), Nat.add_zero]
  | beyond =>
      rw [Text.lineAt, List.take_of_length_le,
        Text.count_encode (by decide)]
      rw [Text.length_encode]
      exact Nat.le_add_right _ _

end Cursor

namespace Scanner

variable {buffer : List Char}
variable {s : Scanner}

/- Every step keeps the cursor within the text. -/
theorem within_perform
    (hWithin : s.cursor.Within buffer)
    (step : Step) :
    (s.perform step).2.cursor.Within buffer := by
  cases step with
  | advance => exact hWithin.advance
  | peek => exact hWithin
  | getToken => exact hWithin.nextToken
  | next =>
      rw [perform_next]
      split
      · exact hWithin
      · exact hWithin.nextToken

/- So do all steps together. -/
theorem within_performAll
    (hWithin : s.cursor.Within buffer)
    (steps : List Step) :
    (s.performAll steps).2.cursor.Within buffer := by
  induction steps generalizing s with
  | nil => exact hWithin
  | cons step steps ih =>
      exact ih (within_perform hWithin step)

end Scanner

end TeenyC
