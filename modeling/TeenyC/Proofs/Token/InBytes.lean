import TeenyC.Proofs.Token.Behind
import TeenyC.Proofs.Token.ByteScanner
import TeenyC.Proofs.Token.Progress

/-
  Cursors as places in the bytes of a text.

  A cursor within a text stands at a byte of it. From there the bytes
  tell what the characters tell: all that decides is below 128, and
  the bytes of larger characters are passed over together. So the
  loops of a byte scanner end where a character does, and what lies
  between two such places can be cut out.

  Key definitions include:
    * `Cursor.inBytes`
    * `Cursor.letter`
    * `Cursor.leave`
    * `Cursor.Follows`

  Key theorems include:
    * `Cursor.Within.advance_inBytes`
    * `Cursor.Within.advanceWhile_follows`
    * `Cursor.Within.advanceWhile_next`
    * `Cursor.Within.slice_eq`
    * `Cursor.Within.skipGap_inBytes`
-/

namespace TeenyC

------------------------------------------------------------
-- Characters of One Byte
------------------------------------------------------------

namespace Lexeme

/- Digits have one byte. -/
theorem toNat_le_of_isDigit
    {ch : Char}
    (hDigit : ch.isDigit = true) :
    ch.toNat ≤ 127 := by
  have hLast := (Char.isDigit_iff_toNat.mp hDigit).2
  change ch.toNat ≤ 57 at hLast
  omega

/- Letters have one byte, too. -/
theorem toNat_le_of_isAlphanum
    {ch : Char}
    (hAlphanum : ch.isAlphanum = true) :
    ch.toNat ≤ 127 := by
  rcases Bool.or_eq_true_iff.mp hAlphanum with hAlpha | hDigit
  · have hLast : ch.toNat ≤ 122 := by
      rcases Bool.or_eq_true_iff.mp hAlpha with hUpper | hLower
      · have hUpTo : ch.toNat ≤ 90 :=
          UInt32.le_iff_toNat_le.mp (of_decide_eq_true hUpper).2
        omega
      · exact
          UInt32.le_iff_toNat_le.mp
            (of_decide_eq_true (Bool.and_eq_true_iff.mp hLower).2)
    omega
  · exact toNat_le_of_isDigit hDigit

/- What no string may hold has one byte. -/
theorem toNat_le_of_not_isStringText
    {ch : Char}
    (hStop : isStringText ch = false) :
    ch.toNat ≤ 127 := by
  rw [isStringText, Bool.not_eq_false',
    List.contains_iff_mem] at hStop
  have hAll : stringStops.all (·.toNat ≤ 127) = true := by
    decide
  exact of_decide_eq_true (List.all_eq_true.mp hAll ch hStop)

end Lexeme

namespace Cursor

/- A cursor as a place in the bytes of a text. -/
def inBytes
    (c : Cursor)
    (buffer : String)
    (finished : Bool) : ByteScanner where
  buffer := buffer
  position := c.position
  current := c.current
  line := c.line
  finished := finished

variable {buffer : String}
variable {finished : Bool}
variable {c last : Cursor}
variable {ch mark : Char}
variable {text rest : List Char}

------------------------------------------------------------
-- Single Bytes
------------------------------------------------------------

/- The text has ended where nothing is ahead. -/
theorem Within.atEnd_inBytes
    (hWithin : c.Within buffer.toList)
    (finished : Bool) :
    (c.inBytes buffer finished).atEnd = true ↔
      c.entered = [] ∧ c.ahead = [] := by
  unfold ByteScanner.atEnd inBytes
  rw [decide_eq_true_iff, ← Text.byteLength_toList]
  cases hWithin with
  | @between before ahead hWhole =>
      have hSome := @Text.byteLength_pos ahead
      rw [← hWhole, Text.byteLength_append]
      cases ahead with
      | nil => simp
      | cons ch rest =>
          have hPos := hSome (by simp)
          simp only [List.cons_ne_nil, and_false, iff_false]
          omega
  | @inside before ahead ch passed entered hWhole hBytes hPassed
      hEntered =>
      have hLength := congrArg List.length hBytes
      have hMore := List.length_pos_of_ne_nil hEntered
      rw [List.length_append, String.length_utf8EncodeChar]
        at hLength
      rw [← hWhole, Text.byteLength_append, Text.byteLength_cons]
      simp only [hEntered, false_and, iff_false]
      omega
  | beyond => simp

/- The next byte is the byte under the cursor moved on. -/
theorem Within.peek_inBytes
    (hWithin : c.Within buffer.toList) :
    (c.inBytes buffer finished).peek = c.peek := by
  rw [peek, hWithin.advance.current_eq, position_advance]
  rfl

/- At the end of the text no byte is left. -/
theorem current_of_ended
    (hEntered : c.entered = [])
    (hAhead : c.ahead = []) :
    c.current = 0 := by
  rw [current, hEntered, hAhead]

/- A character of one byte is under the cursor as it is. -/
theorem current_of_narrow
    (hEntered : c.entered = [])
    (hAhead : c.ahead = ch :: rest)
    (hNarrow : ch.toNat ≤ 127) :
    c.current = ch.toUInt8 := by
  rw [current, hEntered, hAhead]
  dsimp only
  rw [Text.utf8EncodeChar_of_le hNarrow]
  rfl

/- A larger character begins with a byte from 128 on. -/
theorem le_current_of_wide
    (hEntered : c.entered = [])
    (hAhead : c.ahead = ch :: rest)
    (hWide : ¬ ch.toNat ≤ 127) :
    128 ≤ c.current.toNat := by
  rcases
      List.exists_cons_of_ne_nil
        (String.utf8EncodeChar_ne_nil (c := ch)) with
    ⟨byte, later, hBytes⟩
  have hMember : byte ∈ String.utf8EncodeChar ch := by
    rw [hBytes]
    exact List.mem_cons_self
  rw [current, hEntered, hAhead]
  dsimp only
  rw [hBytes]
  exact Text.le_of_mem_utf8EncodeChar hWide hMember

/- Inside a character all bytes are from 128 on. -/
theorem Within.le_current_of_entered
    (hWithin : c.Within buffer.toList)
    (hEntered : c.entered ≠ []) :
    128 ≤ c.current.toNat := by
  cases hWithin with
  | between => exact absurd rfl hEntered
  | @inside before ahead ch passed entered _ hBytes hPassed _ =>
      cases entered with
      | nil => exact absurd rfl hEntered
      | cons byte later =>
          have hMember : byte ∈ String.utf8EncodeChar ch := by
            rw [← hBytes]
            simp
          refine Text.le_of_mem_utf8EncodeChar ?_ hMember
          intro hNarrow
          have hLength := congrArg List.length hBytes
          have hSome := List.length_pos_of_ne_nil hPassed
          rw [Text.utf8EncodeChar_of_le hNarrow,
            List.length_append, List.length_cons,
            List.length_singleton] at hLength
          omega
  | beyond => exact absurd rfl hEntered

/- A mark is under the cursor where it is ahead. -/
theorem Within.current_eq_iff
    (hWithin : c.Within buffer.toList)
    (mark : Char)
    (hNarrow : mark.toNat ≤ 127)
    (hMark : mark ≠ '\x00') :
    c.current = mark.toUInt8 ↔
      c.entered = [] ∧ c.ahead.head? = some mark := by
  have hByte := Text.toNat_toUInt8_of_le hNarrow
  constructor
  · intro hCurrent
    rw [← hCurrent] at hByte
    have hEntered : c.entered = [] := by
      by_contra hInside
      have hLarge := hWithin.le_current_of_entered hInside
      omega
    refine ⟨hEntered, ?_⟩
    cases hAhead : c.ahead with
    | nil =>
        rw [current_of_ended hEntered hAhead] at hByte
        exact absurd (Char.toNat_inj.mp hByte.symm) hMark
    | cons ch rest =>
        by_cases hSmall : ch.toNat ≤ 127
        · rw [current_of_narrow hEntered hAhead hSmall,
            Text.toNat_toUInt8_of_le hSmall] at hByte
          rw [List.head?_cons, Char.toNat_inj.mp hByte]
        · have hLarge := le_current_of_wide hEntered hAhead hSmall
          omega
  · rintro ⟨hEntered, hHead⟩
    rcases List.head?_eq_some_iff.mp hHead with ⟨rest, hAhead⟩
    exact current_of_narrow hEntered hAhead hNarrow

/- A byte-wise move is the same by bytes. -/
theorem Within.advance_inBytes
    (hWithin : c.Within buffer.toList) :
    (c.inBytes buffer finished).advance =
      c.advance.inBytes buffer finished := by
  have hLine :
      (c.inBytes buffer finished).advance.line =
        c.advance.line := by
    change (if c.current = _ ∧ _ then c.line + 1 else c.line) = _
    simp only [hWithin.current_eq_iff '\n' (by decide)
      (by decide), ← Bool.not_eq_true, hWithin.atEnd_inBytes]
    cases hEntered : c.entered with
    | cons => simp [Cursor.advance, hEntered]
    | nil =>
        cases hAhead : c.ahead <;>
          simp [Cursor.advance, hEntered, hAhead]
  apply ByteScanner.ext
  case buffer => rfl
  case position => exact (position_advance c).symm
  case current => exact hWithin.peek_inBytes
  case line => exact hLine
  case finished => rfl

------------------------------------------------------------
-- Letters
------------------------------------------------------------

/- The byte under the cursor, as a character of one byte. -/
def letter (c : Cursor) : Char :=
  Char.ofUInt8 c.current

/- A byte is the character of its number. -/
theorem toNat_ofUInt8 (byte : UInt8) :
    (Char.ofUInt8 byte).toNat = byte.toNat :=
  rfl

/- At the end of the text the letter is a NUL. -/
theorem letter_of_ended
    (hEntered : c.entered = [])
    (hAhead : c.ahead = []) :
    c.letter = '\x00' := by
  rw [letter, current_of_ended hEntered hAhead]
  rfl

/- A character of one byte is the letter. -/
theorem letter_of_narrow
    (hEntered : c.entered = [])
    (hAhead : c.ahead = ch :: rest)
    (hNarrow : ch.toNat ≤ 127) :
    c.letter = ch := by
  apply Char.toNat_inj.mp
  rw [letter, toNat_ofUInt8,
    current_of_narrow hEntered hAhead hNarrow,
    Text.toNat_toUInt8_of_le hNarrow]

/- A test that no larger character passes goes by the letter. -/
theorem test_letter
    {p : Char → Bool}
    (hWide : ∀ ch, p ch = true → ch.toNat ≤ 127)
    (hEntered : c.entered = [])
    (hAhead : c.ahead = ch :: rest) :
    p c.letter = p ch := by
  by_cases hNarrow : ch.toNat ≤ 127
  · rw [letter_of_narrow hEntered hAhead hNarrow]
  · have hLarge := le_current_of_wide hEntered hAhead hNarrow
    have hLetter : ¬ p c.letter = true := by
      intro hTrue
      have hSmall := hWide _ hTrue
      rw [letter, toNat_ofUInt8] at hSmall
      omega
    rw [Bool.eq_false_iff.mpr hLetter,
      Bool.eq_false_iff.mpr fun hTrue => hNarrow (hWide ch hTrue)]

/- The next letter is the letter of the cursor moved on. -/
theorem Within.nextLetter_inBytes
    (hWithin : c.Within buffer.toList)
    (finished : Bool) :
    (c.inBytes buffer finished).nextLetter = c.advance.letter := by
  rw [ByteScanner.nextLetter, hWithin.peek_inBytes]
  rfl

------------------------------------------------------------
-- Moves over Characters
------------------------------------------------------------

/- The cursor behind the character that has been entered. -/
def leave (c : Cursor) : Cursor where
  ahead := c.ahead
  entered := []
  position := c.position + c.entered.length
  line := c.line

/- No character is left if none has been entered. -/
theorem leave_of_nil
    (hEntered : c.entered = []) :
    c.leave = c := by
  rcases c with ⟨ahead, entered, position, line⟩
  cases hEntered
  rfl

/- Nothing is passed by a move over no characters. -/
theorem pass_nil
    (hEntered : c.entered = [])
    (hAhead : c.ahead = rest) :
    c.pass [] rest = c := by
  rcases c with ⟨ahead, entered, position, line⟩
  cases hEntered
  cases hAhead
  rfl

/- One who enters a character and leaves it has passed it. -/
theorem leave_advance
    (hEntered : c.entered = [])
    (hAhead : c.ahead = ch :: rest) :
    c.advance.leave = c.pass [ch] rest := by
  have hLength := String.length_utf8EncodeChar ch
  have hSome := Char.utf8Size_pos ch
  rcases c with ⟨ahead, entered, position, line⟩
  cases hEntered
  cases hAhead
  simp only [advance, leave, pass, List.length_tail, hLength,
    Text.byteLength_cons, Text.byteLength_nil,
    List.count_singleton, Cursor.mk.injEq, true_and]
  constructor
  · omega
  · by_cases hLine : ch = '\n' <;> simp [hLine]

/- A character of one byte is passed by one move. -/
theorem advance_of_narrow
    (hEntered : c.entered = [])
    (hAhead : c.ahead = ch :: rest)
    (hNarrow : ch.toNat ≤ 127) :
    c.advance = c.pass [ch] rest := by
  rw [← leave_advance hEntered hAhead, leave_of_nil]
  unfold advance
  rw [hEntered, hAhead]
  dsimp only
  rw [Text.utf8EncodeChar_of_le hNarrow]
  rfl

------------------------------------------------------------
-- Loops
------------------------------------------------------------

variable {test : ByteScanner → Bool}
variable {p : Char → Bool}

/- A loop whose test holds goes on behind the current byte. -/
theorem Within.advanceWhile_of_true
    (hWithin : c.Within buffer.toList)
    (hSome : c.entered ≠ [] ∨ c.ahead ≠ [])
    (hTest : test (c.inBytes buffer finished) = true) :
    (c.inBytes buffer finished).advanceWhile test =
      (c.advance.inBytes buffer finished).advanceWhile test := by
  have hMore : ¬ (c.inBytes buffer finished).atEnd = true := by
    rw [hWithin.atEnd_inBytes, not_and_or]
    exact hSome
  rw [ByteScanner.advanceWhile, if_pos hTest, if_neg hMore,
    hWithin.advance_inBytes]

/- A loop whose test fails ends. -/
theorem advanceWhile_of_false
    (hTest : test (c.inBytes buffer finished) = false) :
    (c.inBytes buffer finished).advanceWhile test =
      some (c.inBytes buffer finished) := by
  rw [ByteScanner.advanceWhile, hTest]
  rfl

/- A loop that goes on inside of characters leaves them. -/
theorem Within.advanceWhile_leave
    (hWithin : c.Within buffer.toList)
    (hInside :
      ∀ d : Cursor,
        d.Within buffer.toList → d.entered ≠ [] →
          test (d.inBytes buffer finished) = true) :
    (c.inBytes buffer finished).advanceWhile test =
      (c.leave.inBytes buffer finished).advanceWhile test := by
  induction hEntered : c.entered generalizing c with
  | nil => rw [leave_of_nil hEntered]
  | cons byte later ih =>
      have hSome : c.entered ≠ [] := by simp [hEntered]
      have hAdvance :
          c.advance =
            { c with
              entered := later
              position := c.position + 1 } := by
        unfold Cursor.advance
        rw [hEntered]
      have hLeave : c.advance.leave = c.leave := by
        rw [hAdvance, leave, leave, hEntered]
        simp only [List.length_cons, Cursor.mk.injEq, true_and,
          and_true]
        omega
      rw [hWithin.advanceWhile_of_true (.inl hSome)
          (hInside c hWithin hSome),
        ih hWithin.advance (by rw [hAdvance]), hLeave]

/-
  A test on bytes follows a test on characters: at a character it
  is the same, inside of a larger one that passes it holds, and at
  the end of the text it fails.
-/
structure Follows
    (buffer : String)
    (finished : Bool)
    (test : ByteScanner → Bool)
    (p : Char → Bool) : Prop where
  here :
    ∀ (c : Cursor) (ch : Char) (rest : List Char),
      c.Within buffer.toList → c.entered = [] →
        c.ahead = ch :: rest →
          test (c.inBytes buffer finished) = p ch
  inside :
    ∀ (c : Cursor) (ch : Char),
      c.Within buffer.toList → c.entered ≠ [] →
        ¬ ch.toNat ≤ 127 → p ch = true →
          test (c.inBytes buffer finished) = true
  ended :
    ∀ c : Cursor,
      c.Within buffer.toList → c.entered = [] → c.ahead = [] →
        test (c.inBytes buffer finished) = false

/- Such a loop passes the characters that pass the test. -/
theorem Within.advanceWhile_follows
    (hWithin : c.Within buffer.toList)
    (hEntered : c.entered = [])
    (hTest : Follows buffer finished test p) :
    (c.inBytes buffer finished).advanceWhile test =
      some
        ((c.pass (c.ahead.takeWhile p)
          (c.ahead.dropWhile p)).inBytes buffer finished) := by
  induction hAhead : c.ahead generalizing c with
  | nil =>
      rw [advanceWhile_of_false
          (hTest.ended c hWithin hEntered hAhead),
        List.takeWhile_nil, List.dropWhile_nil,
        pass_nil hEntered hAhead]
  | cons ch rest ih =>
      have hHere := hTest.here c ch rest hWithin hEntered hAhead
      cases hPass : p ch with
      | false =>
          rw [advanceWhile_of_false (hHere.trans hPass),
            List.takeWhile_cons_of_neg (by simp [hPass]),
            List.dropWhile_cons_of_neg (by simp [hPass]),
            pass_nil hEntered hAhead]
      | true =>
          have hMove := leave_advance hEntered hAhead
          have hOver :
              (c.advance.inBytes buffer finished).advanceWhile
                  test =
                ((c.pass [ch] rest).inBytes buffer
                  finished).advanceWhile test := by
            by_cases hNarrow : ch.toNat ≤ 127
            · rw [advance_of_narrow hEntered hAhead hNarrow]
            · rw [← hMove]
              apply hWithin.advance.advanceWhile_leave
              intro d hInside hSome
              exact hTest.inside d ch hInside hSome hNarrow hPass
          have hNext : (c.pass [ch] rest).Within buffer.toList :=
            hWithin.pass hEntered (by simp [hAhead])
          rw [hWithin.advanceWhile_of_true
              (.inr (by rw [hAhead]; exact List.cons_ne_nil ch rest))
              (hHere.trans hPass),
            hOver, ih hNext rfl rfl, pass_pass,
            List.takeWhile_cons_of_pos hPass,
            List.dropWhile_cons_of_pos hPass]
          rfl

/-
  A loop that looks at the next letter stops on the last character
  that passes the test; one move more has passed them all.
-/
theorem Within.advanceWhile_next
    (hWithin : c.Within buffer.toList)
    (finished : Bool)
    (hEntered : c.entered = [])
    (hAhead : c.ahead = ch :: rest)
    (hNarrow : ch.toNat ≤ 127)
    (hWide : ∀ ch, p ch = true → ch.toNat ≤ 127)
    (hNul : p '\x00' = false) :
    ∃ last : Cursor,
      (c.inBytes buffer finished).advanceWhile
            (fun s => p s.nextLetter) =
          some (last.inBytes buffer finished) ∧
        last.Within buffer.toList ∧
          last.advance =
            c.pass (ch :: rest.takeWhile p) (rest.dropWhile p) := by
  have hMove := advance_of_narrow hEntered hAhead hNarrow
  have hLetter := hWithin.nextLetter_inBytes finished
  rw [hMove] at hLetter
  induction rest generalizing c ch with
  | nil =>
      refine ⟨c, advanceWhile_of_false ?_, hWithin, hMove⟩
      rw [hLetter, letter_of_ended rfl rfl, hNul]
  | cons next more ih =>
      have hTest :=
        test_letter (c := c.pass [ch] (next :: more)) hWide rfl rfl
      rw [← hLetter] at hTest
      cases hPass : p next with
      | false =>
          refine
            ⟨c, advanceWhile_of_false (hTest.trans hPass), hWithin,
              ?_⟩
          rw [List.takeWhile_cons_of_neg (by simp [hPass]),
            List.dropWhile_cons_of_neg (by simp [hPass]), hMove]
      | true =>
          have hNext : (c.pass [ch] (next :: more)).Within _ :=
            hWithin.pass hEntered (by simp [hAhead])
          have hSmall := hWide next hPass
          have hOver :=
            advance_of_narrow (c := c.pass [ch] (next :: more)) rfl
              rfl hSmall
          have hLook := hNext.nextLetter_inBytes finished
          rw [hOver] at hLook
          rcases ih hNext rfl rfl hSmall hOver hLook with
            ⟨last, hLoop, hLast, hStop⟩
          refine ⟨last, ?_, hLast, ?_⟩
          · rw [hWithin.advanceWhile_of_true
                (.inr (by rw [hAhead]; exact List.cons_ne_nil _ _))
                (hTest.trans hPass),
              hMove, hLoop]
          · rw [hStop, pass_pass, List.takeWhile_cons_of_pos hPass,
              List.dropWhile_cons_of_pos hPass]
            rfl

------------------------------------------------------------
-- Slices
------------------------------------------------------------

/- What is ahead can be cut off where a character ends. -/
theorem Within.slice_eq
    (hWithin : c.Within buffer.toList)
    (hEntered : c.entered = [])
    (hAhead : text ++ rest = c.ahead)
    (hSome : c.ahead ≠ []) :
    Text.slice? buffer c.position
        (c.position + Text.byteLength text) =
      some (String.ofList text) := by
  cases hWithin with
  | between hWhole =>
      dsimp only at hAhead
      rw [← hAhead] at hWhole
      exact Text.slice?_append hWhole
  | inside _ _ _ hInside => exact absurd hEntered hInside
  | beyond => exact absurd rfl hSome

/- Inside a character the text cannot be cut. -/
theorem Within.not_isValid
    (hWithin : c.Within buffer.toList)
    (hEntered : c.entered ≠ []) :
    ¬ (⟨c.position⟩ : String.Pos.Raw).IsValid buffer := by
  rw [Text.isValid_iff_exists_append]
  rintro ⟨first, more, hCut, hPlace⟩
  cases hWithin with
  | between => exact hEntered rfl
  | @inside before ahead ch passed entered hWhole hBytes hPassed
      hSome =>
      have hLength := congrArg List.length hBytes
      have hLeft := List.length_pos_of_ne_nil hPassed
      have hRight := List.length_pos_of_ne_nil hSome
      rw [List.length_append, String.length_utf8EncodeChar]
        at hLength
      dsimp only at hPlace
      rw [← hWhole] at hCut
      rcases List.append_eq_append_iff.mp hCut with
        ⟨middle, hBefore, _⟩ | ⟨middle, hFirst, hRest⟩
      · rw [hBefore, Text.byteLength_append] at hPlace
        omega
      · rw [hFirst, Text.byteLength_append] at hPlace
        cases middle with
        | nil =>
            rw [Text.byteLength_nil] at hPlace
            omega
        | cons next later =>
            cases hRest
            rw [Text.byteLength_cons] at hPlace
            omega
  | beyond => exact hEntered rfl

/- What is ahead and what has been passed are the whole. -/
theorem Within.position_add
    (hWithin : c.Within buffer.toList)
    (hEntered : c.entered = [])
    (hSome : c.ahead ≠ []) :
    c.position + Text.byteLength c.ahead = buffer.utf8ByteSize := by
  rw [← Text.byteLength_toList]
  cases hWithin with
  | between hWhole => rw [← hWhole, Text.byteLength_append]
  | inside _ _ _ hInside => exact absurd hEntered hInside
  | beyond => exact absurd rfl hSome

/- The character at a place is the one that is ahead, if any is. -/
theorem Within.charAt_inBytes
    (hWithin : c.Within buffer.toList)
    {s : ByteScanner}
    (hBuffer : s.buffer = buffer) :
    s.charAt c.position =
      if c.entered = [] then c.ahead.headD '\x00' else '\x00' := by
  rw [ByteScanner.charAt, hBuffer]
  by_cases hEntered : c.entered = []
  · rw [if_pos hEntered]
    cases hAhead : c.ahead with
    | nil =>
        have hEnd :=
          (hWithin.atEnd_inBytes false).mpr
            ⟨hEntered, hAhead⟩
        have hEmpty :=
          Text.slice?_end (of_decide_eq_true hEnd)
        change
          (Text.slice? buffer c.position buffer.utf8ByteSize).getD
            "" = "" at hEmpty
        cases hSlice :
            Text.slice? buffer c.position buffer.utf8ByteSize with
        | none => rfl
        | some rest =>
            rw [hSlice] at hEmpty
            rw [show rest = "" from hEmpty]
            rfl
    | cons ch rest =>
        have hSome : c.ahead ≠ [] := by simp [hAhead]
        have hSlice :=
          hWithin.slice_eq hEntered (List.append_nil c.ahead) hSome
        rw [hWithin.position_add hEntered hSome] at hSlice
        rw [hSlice, hAhead]
        simp
  · rw [if_neg hEntered,
      Text.slice?_eq_none (hWithin.not_isValid hEntered)]
    rfl

------------------------------------------------------------
-- Gaps
------------------------------------------------------------

/- Blanks are told by their bytes. -/
theorem follows_isBlank :
    Follows buffer finished
      (fun s => Lexeme.isBlank s.letter) Lexeme.isBlank := by
  have hWide (ch : Char) (hBlank : Lexeme.isBlank ch = true) :
      ch.toNat ≤ 127 := by
    rcases (Lexeme.isBlank_iff ch).mp hBlank with
      rfl | rfl | rfl <;> decide
  constructor
  case here =>
    intro c ch rest _ hEntered hAhead
    exact test_letter hWide hEntered hAhead
  case inside =>
    intro c ch _ _ hLarge hBlank
    exact absurd (hWide ch hBlank) hLarge
  case ended =>
    intro c _ hEntered hAhead
    change Lexeme.isBlank c.letter = false
    rw [letter_of_ended hEntered hAhead]
    rfl

/- The text of a comment is told by its bytes, up to the end. -/
theorem follows_isCommentText :
    Follows buffer finished
      (fun s => s.current != '\n'.toUInt8 && !s.atEnd)
      Lexeme.isCommentText := by
  have hOpen
      {c : Cursor}
      (hWithin : c.Within buffer.toList)
      (hSome : ¬ (c.entered = [] ∧ c.ahead = [])) :
      (c.inBytes buffer finished).atEnd = false := by
    rw [← Bool.not_eq_true, hWithin.atEnd_inBytes]
    exact hSome
  have hLine
      {c : Cursor}
      (hWithin : c.Within buffer.toList) :
      (c.inBytes buffer finished).current = '\n'.toUInt8 ↔ _ :=
    hWithin.current_eq_iff '\n' (by decide) (by decide)
  constructor
  case here =>
    intro c ch rest hWithin hEntered hAhead
    rw [hOpen hWithin (by simp [hAhead]), Bool.eq_iff_iff,
      Lexeme.isCommentText_iff]
    simp [hLine hWithin, hEntered, hAhead]
  case inside =>
    intro c ch hWithin hEntered _ _
    rw [hOpen hWithin (by simp [hEntered])]
    simp [hLine hWithin, hEntered]
  case ended =>
    intro c hWithin hEntered hAhead
    have hEnd :=
      (hWithin.atEnd_inBytes finished).mpr
        ⟨hEntered, hAhead⟩
    simp [hEnd]

/- What a string may hold is told by its bytes. -/
theorem follows_isStringText :
    Follows buffer finished
      (fun s => Lexeme.isStringText s.letter)
      Lexeme.isStringText := by
  have hWide
      (ch : Char)
      (hStop : (!Lexeme.isStringText ch) = true) :
      ch.toNat ≤ 127 :=
    Lexeme.toNat_le_of_not_isStringText (by simpa using hStop)
  constructor
  case here =>
    intro c ch rest _ hEntered hAhead
    exact Bool.not_inj (test_letter hWide hEntered hAhead)
  case inside =>
    intro c ch hWithin hEntered _ _
    have hLarge := hWithin.le_current_of_entered hEntered
    by_contra hStop
    have hHere : Lexeme.isStringText c.letter = false :=
      Bool.eq_false_iff.mpr hStop
    have hSmall := hWide c.letter (by rw [hHere]; rfl)
    rw [letter, toNat_ofUInt8] at hSmall
    omega
  case ended =>
    intro c _ hEntered hAhead
    change Lexeme.isStringText c.letter = false
    rw [letter_of_ended hEntered hAhead]
    rfl

/- Blanks and a comment are skipped. -/
theorem Within.skipGap_inBytes
    (hWithin : c.Within buffer.toList)
    (hEntered : c.entered = []) :
    ((c.inBytes buffer finished).skipBlanks? >>=
        ByteScanner.skipComment?) =
      some (c.skipGap.inBytes buffer finished) := by
  have hNext :
      (c.pass (c.ahead.takeWhile Lexeme.isBlank)
        (c.ahead.dropWhile Lexeme.isBlank)).Within
          buffer.toList :=
    hWithin.pass hEntered List.takeWhile_append_dropWhile
  have hMark :=
    hNext.current_eq_iff '#' (by decide) (by decide)
  rw [ByteScanner.skipBlanks?,
    hWithin.advanceWhile_follows hEntered follows_isBlank]
  change ByteScanner.skipComment? _ = _
  unfold ByteScanner.skipComment? Cursor.skipGap
  unfold Lexeme.gap Lexeme.afterGap
  split
  · next hHere =>
    rcases List.head?_eq_some_iff.mp (hMark.mp hHere).2 with
      ⟨comment, hComment⟩
    change c.ahead.dropWhile Lexeme.isBlank = _ at hComment
    rw [hNext.advanceWhile_follows rfl follows_isCommentText,
      pass_pass]
    change
      some ((c.pass (_ ++ List.takeWhile _ (List.dropWhile _ _))
        (List.dropWhile _ (List.dropWhile _ _))).inBytes _ _) = _
    rw [hComment, List.takeWhile_cons_of_pos rfl,
      List.dropWhile_cons_of_pos rfl]
    rfl
  · next hOther =>
    have hPlain :
        ∀ comment,
          c.ahead.dropWhile Lexeme.isBlank ≠ '#' :: comment := by
      intro comment hComment
      apply hOther
      apply hMark.mpr
      exact ⟨rfl, congrArg List.head? hComment⟩
    split
    · next comment hComment =>
      exact absurd hComment (hPlain comment)
    · rfl

/- Inside a character nothing is skipped. -/
theorem Within.skipGap_of_entered
    (hWithin : c.Within buffer.toList)
    (hEntered : c.entered ≠ []) :
    ((c.inBytes buffer finished).skipBlanks? >>=
        ByteScanner.skipComment?) =
      some (c.inBytes buffer finished) := by
  have hLarge := hWithin.le_current_of_entered hEntered
  have hBlank : Lexeme.isBlank c.letter = false := by
    rw [Bool.eq_false_iff, ne_eq, Lexeme.isBlank_iff]
    intro hSome
    have hByte := toNat_ofUInt8 c.current
    rw [← letter] at hByte
    rcases hSome with hHere | hHere | hHere <;>
      · rw [hHere] at hByte
        rw [← hByte] at hLarge
        exact absurd hLarge (by decide)
  have hMark : c.current ≠ '#'.toUInt8 := by
    intro hHere
    rw [hHere] at hLarge
    exact absurd hLarge (by decide)
  rw [ByteScanner.skipBlanks?, advanceWhile_of_false hBlank]
  exact if_neg hMark

end Cursor

end TeenyC
