import TeenyC.Proofs.Token.Place
import TeenyC.Proofs.Token.Progress

/-
  The lines and positions that a scanner gives.

  Whatever has been done with a scanner, a token has the line of
  the byte it starts on, and an error has the line of its position.
  As long as the cursor has not been moved by hand, each line break
  has been told as a token, and an error is placed between two
  characters of the source.

  Key definitions include:
    * `Token.Written`
    * `Item.Placed`
    * `Item.Counted`

  Key theorems include:
    * `Cursor.Within.placed`
    * `Cursor.line_nextToken`
    * `Cursor.Within.isValid_of_fault`
    * `Scanner.line_performAll`
    * `Scanner.placed_of_steps`
-/

namespace TeenyC

------------------------------------------------------------
-- Placed Items
------------------------------------------------------------

/-
  A token is written from its place up to where the cursor is left,
  a string with its quotes. The end of input is a NUL, or what is
  past the end.
-/
structure Token.Written
    (buffer : List Char)
    (place stop : Nat)
    (token : Token) : Prop where
  bytes :
    Text.encode (token.kind.spell token.text.toList) <+:
      (Text.encode buffer).drop place
  lexeme :
    token.kind ≠ .eof →
      stop =
        place +
          Text.byteLength (token.kind.spell token.text.toList)
  finish :
    token.kind = .eof →
      stop = place + 1 ∧ Text.byteAt buffer place = 0

namespace Item

/- The line of an item. -/
def line : Item → Nat
| .ok token => token.line
| .error e => e.line

/-
  A token has the line of the byte that it is written from, and an
  error that of its position. Both stand where the cursor passed.
-/
def Placed
    (buffer : List Char)
    (start stop : Nat) : Item → Prop
| .ok token =>
    ∃ place,
      start ≤ place ∧ token.Written buffer place stop ∧
        token.line = Text.lineAt buffer place
| .error e =>
    start ≤ e.position ∧ e.position ≤ stop ∧
      e.line = Text.lineAt buffer e.position

/- A place may be looked for from further before. -/
theorem Placed.of_le
    {buffer : List Char}
    {early start stop : Nat}
    {item : Item}
    (hPlaced : Placed buffer start stop item)
    (hLe : early ≤ start) :
    Placed buffer early stop item := by
  cases item with
  | ok token =>
      rcases hPlaced with ⟨place, hPlace, hWritten⟩
      exact ⟨place, Nat.le_trans hLe hPlace, hWritten⟩
  | error e => exact ⟨Nat.le_trans hLe hPlaced.1, hPlaced.2⟩

/- A token that is a line break. -/
def isNewline : Item → Bool
| .ok token => token.kind == .newline
| .error _ => false

end Item

/- An answer that is a line break. -/
def Scanner.Answer.isNewline : Scanner.Answer → Bool
| .item told => Item.isNewline told
| .moved | .byte _ | .ended => false

/-
  A token stands on the line that follows the line breaks told
  before it. An error is placed between characters of the source.
-/
def Item.Counted
    (source : String)
    (earlier : List Scanner.Answer) : Item → Prop
| .ok token =>
    token.line = 1 + earlier.countP Scanner.Answer.isNewline
| .error e =>
    (⟨e.position⟩ : String.Pos.Raw).IsValid source ∧
      e.position ≤ source.utf8ByteSize

------------------------------------------------------------
-- Line Breaks of Readings
------------------------------------------------------------

namespace Lexeme

variable {source passed rest text lexeme : List Char}
variable {cause : LexCause}
variable {kind : Kind}

/- A string at fault has no line break before the fault. -/
theorem newline_not_mem_of_readString
    (hRead : readString source = .fault cause passed rest) :
    '\n' ∉ passed := by
  have hText :
      '\n' ∉ '"' :: source.takeWhile isStringText := by
    intro hMember
    rcases List.mem_cons.mp hMember with hQuote | hIn
    · cases hQuote
    · cases List.mem_takeWhile_imp hIn
  unfold readString at hRead
  split at hRead
  · cases hRead
    exact hText
  · split at hRead
    · cases hRead
    · split at hRead <;>
        · cases hRead
          exact hText

/- A number at fault has passed digits only. -/
theorem newline_not_mem_of_readNumber
    (hRead : readNumber source = .fault cause passed rest) :
    '\n' ∉ passed := by
  unfold readNumber at hRead
  split at hRead
  · dsimp only at hRead
    split at hRead
    · cases hRead
      intro hMember
      cases List.mem_takeWhile_imp hMember
    · cases hRead
  · cases hRead

/- A sign at fault has passed nothing. -/
theorem passed_of_readSign
    {first : Char}
    (hRead : readSign first source = .fault cause passed rest) :
    passed = [] := by
  unfold readSign at hRead
  split at hRead
  · cases hRead
  · split at hRead <;>
      · cases hRead
        rfl

/- A fault is noticed before the next line break is passed. -/
theorem newline_not_mem_of_fault
    (hRead : read source = .fault cause passed rest) :
    '\n' ∉ passed := by
  unfold read at hRead
  split at hRead
  · cases hRead
  · next first more =>
    split at hRead
    · cases hRead
    split at hRead
    · cases hRead
    split at hRead
    · exact newline_not_mem_of_readString hRead
    split at hRead
    · exact newline_not_mem_of_readNumber hRead
    split at hRead
    · cases hRead
    · rw [passed_of_readSign hRead]
      exact List.not_mem_nil

/- A lexeme has a line break if it is one. -/
theorem Stands.count_newline
    (hStands : Stands rest kind text lexeme) :
    lexeme.count '\n' = if kind = .newline then 1 else 0 := by
  split
  · next hKind =>
    rw [hKind] at hStands
    cases hStands
    rfl
  · next hKind =>
    rw [List.count_eq_zero]
    intro hBreak
    exact hKind (hStands.eq_newline hBreak).1

end Lexeme

------------------------------------------------------------
-- Placed Readings
------------------------------------------------------------

namespace Cursor

variable {buffer : List Char}
variable {c : Cursor}

/- At the end of input the cursor is on a zero byte. -/
theorem current_of_finish
    (hEntered : c.entered = [])
    (hRead : Lexeme.read c.ahead = .finish) :
    c.current = 0 := by
  unfold current
  rw [hEntered]
  rcases Lexeme.read_eq_finish_iff.mp hRead with hNil | hNul
  · rw [hNil]
  · rcases List.head?_eq_some_iff.mp hNul with ⟨rest, hAhead⟩
    rw [hAhead]
    rfl

/- Moving past an end of input passes no line break. -/
theorem advance_of_finish
    (hEntered : c.entered = [])
    (hRead : Lexeme.read c.ahead = .finish) :
    c.advance.entered = [] ∧ c.advance.line = c.line := by
  unfold advance
  rw [hEntered]
  rcases Lexeme.read_eq_finish_iff.mp hRead with hNil | hNul
  · rw [hNil]
    exact ⟨rfl, rfl⟩
  · rcases List.head?_eq_some_iff.mp hNul with ⟨rest, hAhead⟩
    rw [hAhead]
    exact ⟨rfl, rfl⟩

/- What is passed up to a fault is on one line. -/
theorem line_pass_of_fault
    {cause : LexCause}
    {source passed rest : List Char}
    (hRead : Lexeme.read source = .fault cause passed rest) :
    (c.pass passed rest).line = c.line := by
  rw [Cursor.pass,
    List.count_eq_zero.mpr (Lexeme.newline_not_mem_of_fault hRead)]
  rfl

/- A fault is named by where its reading starts or stops. -/
theorem faultPosition_cases
    (start stop : Cursor)
    (cause : LexCause) :
    faultPosition start stop cause = start.position ∨
      faultPosition start stop cause = stop.position := by
  cases cause <;> simp [faultPosition]

/- A token that is read is placed behind the gap. -/
theorem TokenRead.placed
    {start : Cursor}
    {result : Item × Cursor}
    (hRead : TokenRead start result)
    (hStart : Within buffer start)
    (hEntered : start.entered = []) :
    Item.Placed buffer start.position result.2.position
      result.1 := by
  cases hRead with
  | finish hRead =>
      refine
        ⟨start.position, Nat.le_refl _, ?_, hStart.line_eq⟩
      constructor
      · exact List.nil_prefix
      · intro hKind
        exact absurd rfl hKind
      · intro _
        refine ⟨position_advance start, ?_⟩
        rw [← hStart.current_eq]
        exact current_of_finish hEntered hRead
  | @lexeme kind text rest _ hKind hWhole =>
      refine
        ⟨start.position, Nat.le_refl _, ?_, hStart.line_eq⟩
      constructor
      · rw [hStart.drop_eq, hEntered, ← hWhole,
          Text.encode_append, String.toList_ofList]
        exact List.prefix_append _ _
      · intro _
        rw [String.toList_ofList]
        rfl
      · intro hEof
        exact absurd hEof hKind
  | @fault cause passed rest hRead hWhole =>
      have hStop := hStart.pass hEntered hWhole
      have hMove :
          start.position ≤ (start.pass passed rest).position :=
        Nat.le_add_right _ _
      have hLine : (start.pass passed rest).line = start.line :=
        line_pass_of_fault hRead
      unfold Item.Placed
      rcases
          faultPosition_cases start (start.pass passed rest)
            cause with
        hHere | hHere
      · rw [hHere, hLine]
        exact ⟨Nat.le_refl _, hMove, hStart.line_eq⟩
      · rw [hHere]
        exact ⟨hMove, Nat.le_refl _, hStop.line_eq⟩

/- What a cursor within a text reads is placed. -/
theorem Within.placed
    (hWithin : Within buffer c) :
    Item.Placed buffer c.position c.nextToken.2.position
      c.nextToken.1 := by
  by_cases hEntered : c.entered = []
  · have hPlaced :=
      (tokenRead_nextToken hEntered).placed
        (hWithin.skipGap hEntered) rfl
    exact hPlaced.of_le (position_le_skipGap c)
  · rw [nextToken_entered hEntered]
    exact ⟨Nat.le_refl _, Nat.le_refl _, hWithin.line_eq⟩

------------------------------------------------------------
-- Line Breaks and Cuts
------------------------------------------------------------

/-
  Between two characters a cursor stays between two, and its line
  goes on where a line break is read, and only there. A token has
  the line of the cursor before it.
-/
theorem line_nextToken
    (hEntered : c.entered = []) :
    c.nextToken.2.entered = [] ∧
      c.nextToken.2.line =
          c.line + (Item.isNewline c.nextToken.1).toNat ∧
        ∀ token,
          c.nextToken.1 = .ok token → token.line = c.line := by
  have hRead := tokenRead_nextToken hEntered
  rw [← line_skipGap c]
  have hGap := entered_skipGap c
  generalize c.skipGap = start at hRead hGap ⊢
  generalize c.nextToken = result at hRead ⊢
  cases hRead with
  | finish hRead =>
      rcases advance_of_finish hGap hRead with ⟨hNone, hLine⟩
      refine ⟨hNone, hLine, ?_⟩
      intro token hToken
      cases hToken
      rfl
  | @lexeme kind text rest hRead hKind hWhole =>
      refine ⟨rfl, ?_, ?_⟩
      · rcases Lexeme.read_eq_lexeme_iff.mp hRead with
          ⟨hStands, _⟩
        rw [Cursor.pass, hStands.count_newline]
        cases kind <;> rfl
      · intro token hToken
        cases hToken
        rfl
  | fault hRead hWhole =>
      refine ⟨rfl, line_pass_of_fault hRead, ?_⟩
      intro token hToken
      cases hToken

/- An item is not on a line behind the cursor that it leaves. -/
theorem line_item_le (c : Cursor) :
    Item.line c.nextToken.1 ≤ c.nextToken.2.line := by
  by_cases hEntered : c.entered = []
  · have hRead := tokenRead_nextToken hEntered
    have hGap := entered_skipGap c
    generalize c.skipGap = start at hRead hGap
    generalize c.nextToken = result at hRead ⊢
    cases hRead with
    | finish hRead =>
        exact (advance_of_finish hGap hRead).2.ge
    | lexeme => exact Nat.le_add_right _ _
    | fault => exact Nat.le_refl _
  · rw [nextToken_entered hEntered]
    exact Nat.le_refl _

/- A cursor with a line break ahead cuts the text before its end. -/
theorem Within.isValid
    {source : String}
    (hWithin : Within (source.toList ++ ['\n']) c)
    (hEntered : c.entered = [])
    (hAhead : c.ahead ≠ []) :
    (⟨c.position⟩ : String.Pos.Raw).IsValid source ∧
      '\n' ∈ c.ahead := by
  cases hWithin with
  | @between before ahead hWhole =>
      rcases List.suffix_concat_iff.mp ⟨before, hWhole⟩ with
        hNil | ⟨more, hMore, _⟩
      · exact absurd hNil hAhead
      · rw [hMore, ← List.append_assoc] at hWhole
        refine ⟨?_, by simp [hMore]⟩
        rw [Text.isValid_iff_exists_append]
        exact ⟨before, more, List.append_cancel_right hWhole, rfl⟩
  | inside _ _ _ hSome => exact absurd hEntered hSome
  | beyond => exact absurd rfl hAhead

/- A fault of a closed text is placed between its characters. -/
theorem Within.isValid_of_fault
    {source : String}
    {e : LexError}
    (hWithin : Within (source.toList ++ ['\n']) c)
    (hEntered : c.entered = [])
    (hFault : c.nextToken.1 = .error e) :
    (⟨e.position⟩ : String.Pos.Raw).IsValid source := by
  have hRead := tokenRead_nextToken hEntered
  have hStart := hWithin.skipGap hEntered
  have hGap := entered_skipGap c
  generalize c.skipGap = start at hRead hStart hGap
  generalize c.nextToken = result at hRead hFault
  cases hRead with
  | finish => cases hFault
  | lexeme => cases hFault
  | @fault cause passed rest hRead hWhole =>
      cases hFault
      have hSome : start.ahead ≠ [] := by
        intro hNil
        rw [hNil] at hRead
        cases hRead
      rcases hStart.isValid hGap hSome with ⟨hValid, hBreak⟩
      have hRest : rest ≠ [] := by
        intro hNil
        rw [hNil, List.append_nil] at hWhole
        rw [← hWhole] at hBreak
        exact Lexeme.newline_not_mem_of_fault hRead hBreak
      have hStop := hStart.pass hGap hWhole
      dsimp only
      rcases
          faultPosition_cases start (start.pass passed rest)
            cause with
        hHere | hHere
      · rw [hHere]
        exact hValid
      · rw [hHere]
        exact (hStop.isValid rfl hRest).1

end Cursor

------------------------------------------------------------
-- Steps
------------------------------------------------------------

namespace Scanner

variable {s : Scanner}
variable {step : Step}
variable {steps : List Step}

/-
  A step that moves no cursor by hand keeps it between two
  characters, and its line goes on with each line break told.
-/
theorem line_perform
    (hEntered : s.cursor.entered = [])
    (hStep : step ≠ .advance) :
    (s.perform step).2.cursor.entered = [] ∧
      (s.perform step).2.cursor.line =
        s.cursor.line + (s.perform step).1.isNewline.toNat := by
  cases step with
  | advance => exact absurd rfl hStep
  | peek => exact ⟨hEntered, rfl⟩
  | getToken =>
      have hLine := Cursor.line_nextToken hEntered
      exact ⟨hLine.1, hLine.2.1⟩
  | next =>
      rw [perform_next]
      split
      · exact ⟨hEntered, rfl⟩
      · have hLine := Cursor.line_nextToken hEntered
        exact ⟨hLine.1, hLine.2.1⟩

/- So do all steps together. -/
theorem line_performAll
    (hEntered : s.cursor.entered = [])
    (hSteps : .advance ∉ steps) :
    (s.performAll steps).2.cursor.entered = [] ∧
      (s.performAll steps).2.cursor.line =
        s.cursor.line +
          (s.performAll steps).1.countP Answer.isNewline := by
  induction steps generalizing s with
  | nil => exact ⟨hEntered, rfl⟩
  | cons step steps ih =>
      rw [List.mem_cons, not_or] at hSteps
      rcases line_perform hEntered (Ne.symm hSteps.1) with
        ⟨hNone, hLine⟩
      rcases ih hNone hSteps.2 with ⟨hLast, hTotal⟩
      refine ⟨hLast, ?_⟩
      rw [performAll_cons]
      dsimp only
      rw [hTotal, hLine, List.countP_cons]
      cases (s.perform step).1.isNewline
      · simp
      · simp
        omega

/- An item is counted if all line breaks before it were told. -/
theorem counted_nextToken
    {source : String}
    {answers : List Answer}
    (hWithin : s.cursor.Within (source.toList ++ ['\n']))
    (hEntered : s.cursor.entered = [])
    (hLine :
      s.cursor.line = 1 + answers.countP Answer.isNewline) :
    Item.Counted source answers s.cursor.nextToken.1 := by
  cases hRead : s.cursor.nextToken.1 with
  | ok token =>
      exact
        ((Cursor.line_nextToken hEntered).2.2 token hRead).trans
          hLine
  | error e =>
      have hValid := hWithin.isValid_of_fault hEntered hRead
      exact ⟨hValid, hValid.le_rawEndPos⟩

/- A step goes on towards the same last line. -/
theorem lastLine_perform
    (s : Scanner)
    (step : Step) :
    (s.perform step).2.cursor.lastLine = s.cursor.lastLine := by
  cases step with
  | advance => exact Cursor.lastLine_advance s.cursor
  | peek => rfl
  | getToken => exact Cursor.lastLine_nextToken s.cursor
  | next =>
      rw [perform_next]
      split
      · rfl
      · exact Cursor.lastLine_nextToken s.cursor

/- So do all steps together. -/
theorem lastLine_performAll
    (s : Scanner)
    (steps : List Step) :
    (s.performAll steps).2.cursor.lastLine =
      s.cursor.lastLine := by
  induction steps generalizing s with
  | nil => rfl
  | cons step steps ih =>
      rw [performAll_cons]
      exact (ih _).trans (lastLine_perform s step)

/-
  Whatever has been done with a scanner, a token has the line of
  the byte it starts on, and an error that of its position. While
  no cursor is moved by hand, the line of a token follows the line
  breaks told before it, and an error is placed between characters
  of the source. Lines fit in 32 bits if the source has so few.
-/
theorem placed_of_steps
    {source : String}
    {steps : List Step}
    {step : Step}
    {answers : List Answer}
    {s later : Scanner}
    {item : Item}
    (hSteps : (start source).performAll steps = (answers, s))
    (hItem : s.perform step = (.item item, later)) :
    Item.Placed (source.toList ++ ['\n'])
        s.cursor.position later.cursor.position item ∧
      (.advance ∉ steps → Item.Counted source answers item) ∧
        (source.toList.count '\n' < UInt32.size - 2 →
          Item.line item < UInt32.size ∧
            later.cursor.line < UInt32.size) := by
  have hWithin :=
    within_performAll (s := start source)
      (Cursor.within_start source) steps
  rw [hSteps] at hWithin
  rcases perform_item (congrArg Prod.fst hItem) with
    ⟨hRead, hLater⟩
  rw [hItem] at hLater
  have hPlaced := hWithin.placed
  rw [← hRead, ← hLater] at hPlaced
  refine ⟨hPlaced, ?_, ?_⟩
  · intro hMoves
    have hLine :=
      line_performAll (s := start source) rfl hMoves
    rw [hSteps] at hLine
    rw [hRead]
    exact counted_nextToken hWithin hLine.1 hLine.2
  · intro hFew
    have hItemLine := Cursor.line_item_le s.cursor
    rw [← hRead, ← hLater] at hItemLine
    have hLast :
        later.cursor.lastLine = (start source).cursor.lastLine := by
      have hStep := lastLine_perform s step
      have hBefore := lastLine_performAll (start source) steps
      rw [hItem] at hStep
      rw [hSteps] at hBefore
      exact hStep.trans hBefore
    have hFits : later.cursor.line < UInt32.size :=
      calc
        later.cursor.line ≤ later.cursor.lastLine :=
          later.cursor.line_le_lastLine
        _ = (Cursor.start source).lastLine := hLast
        _ < UInt32.size := Cursor.lastLine_start_lt hFew
    exact ⟨Nat.lt_of_le_of_lt hItemLine hFits, hFits⟩

/- A sign at fault on the second line, behind a string. -/
theorem placed_of_steps_bang :
    let source := "PRINT \"é\"\n! 1"
    let steps : List Step := [.getToken, .next, .peek, .getToken]
    let run := (start source).performAll steps
    let e : LexError :=
      { cause := .loneBang ' ', line := 2, position := 11 }
    run.2.perform .next =
        (.item (.error e), (run.2.perform .next).2) ∧
      Item.Placed (source.toList ++ ['\n'])
          run.2.cursor.position
          (run.2.perform .next).2.cursor.position (.error e) ∧
        .advance ∉ steps ∧ Item.Counted source run.1 (.error e) ∧
          source.toList.count '\n' < UInt32.size - 2 ∧
            (run.2.perform .next).2.cursor.line < UInt32.size := by
  intro source steps run e
  have hItem :
      run.2.perform .next =
        (.item (.error e), (run.2.perform .next).2) :=
    Prod.ext (by decide +kernel) rfl
  have hMoves : .advance ∉ steps := by decide
  have hFew : source.toList.count '\n' < UInt32.size - 2 := by
    decide +kernel
  rcases placed_of_steps (s := run.2) rfl hItem with
    ⟨hPlaced, hCounted, hLines⟩
  exact
    ⟨hItem, hPlaced, hMoves, hCounted hMoves, hFew,
      (hLines hFew).2⟩

end Scanner

end TeenyC
