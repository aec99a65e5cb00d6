import TeenyC.Proofs.Token.Position

/-
  Lines that end with a carriage return, or without.

  A carriage return is a blank. Before a line break it is passed
  with the gap or with a comment, and it ends what the line break
  would end as well: no lexeme goes on with either, and a fault
  before either is on the same line. So two texts whose line
  breaks differ in that have the same tokens, or faults on one
  line.

  Key definitions include:
    * `withReturns`
    * `Lexeme.SameLines`
    * `Cursor.SameLines`
    * `SameOr`

  Key theorems include:
    * `Lexeme.SameLines.read_afterGap`
    * `Cursor.SameLines.nextToken`
    * `Item.sameOr_collect`
    * `sameOr_tokenize_withReturns`
-/

namespace TeenyC

/- A text with a carriage return before each line break. -/
def withReturns (source : String) : String :=
  String.ofList
    (source.toList.flatMap fun ch =>
      if ch = '\n' then ['\r', '\n'] else [ch])

namespace Lexeme

------------------------------------------------------------
-- Texts with the Same Lines
------------------------------------------------------------

/-
  Texts with the same lines: a line break of either may have a
  carriage return before it that the other has not.
-/
inductive SameLines : List Char → List Char → Prop
| nil : SameLines [] []
| cons
    {source other : List Char}
    (ch : Char)
    (hMore : SameLines source other) :
    SameLines (ch :: source) (ch :: other)
| added
    {source other : List Char}
    (hMore : SameLines source other) :
    SameLines ('\n' :: source) ('\r' :: '\n' :: other)
| removed
    {source other : List Char}
    (hMore : SameLines source other) :
    SameLines ('\r' :: '\n' :: source) ('\n' :: other)

variable {source other rest text lexeme : List Char}
variable {kind : Kind}

namespace SameLines

/- The same lines either way. -/
theorem symm (hSame : SameLines source other) :
    SameLines other source := by
  induction hSame with
  | nil => exact .nil
  | cons ch _ ih => exact .cons ch ih
  | added _ ih => exact .removed ih
  | removed _ ih => exact .added ih

/- A text has the same lines with carriage returns put in. -/
theorem withReturns_append
    (source rest : List Char) :
    SameLines (source ++ rest)
      ((source.flatMap fun ch =>
          if ch = '\n' then ['\r', '\n'] else [ch]) ++ rest) := by
  induction source with
  | nil =>
      induction rest with
      | nil => exact .nil
      | cons ch rest ih => exact .cons ch ih
  | cons ch source ih =>
      rw [List.flatMap_cons]
      split
      · next hBreak =>
        subst hBreak
        exact .added ih
      · exact .cons ch ih

------------------------------------------------------------
-- Gaps
------------------------------------------------------------

/- What goes on over carriage returns ends at the same place. -/
theorem dropWhile
    {member : Char → Bool}
    (hReturn : member '\r' = true)
    (hBreak : member '\n' = false)
    (hSame : SameLines source other) :
    SameLines (source.dropWhile member)
      (other.dropWhile member) := by
  induction hSame with
  | nil => exact .nil
  | @cons source other ch hMore ih =>
      by_cases hMember : member ch = true
      · rwa [List.dropWhile_cons_of_pos hMember,
          List.dropWhile_cons_of_pos hMember]
      · rw [List.dropWhile_cons_of_neg hMember,
          List.dropWhile_cons_of_neg hMember]
        exact .cons ch hMore
  | added hMore | removed hMore =>
      have hStop : ¬ member '\n' = true := by simp [hBreak]
      rw [List.dropWhile_cons_of_pos hReturn,
        List.dropWhile_cons_of_neg hStop,
        List.dropWhile_cons_of_neg hStop]
      exact .cons '\n' hMore

/- The gap ends at the same place. -/
theorem afterGap (hSame : SameLines source other) :
    SameLines (afterGap source) (afterGap other) := by
  have hBlanks :
      SameLines (source.dropWhile isBlank)
        (other.dropWhile isBlank) :=
    hSame.dropWhile rfl rfl
  unfold Lexeme.afterGap
  generalize source.dropWhile isBlank = left at hBlanks
  generalize other.dropWhile isBlank = right at hBlanks
  split
  · next comment =>
    cases hBlanks with
    | cons _ hMore => exact hMore.dropWhile rfl rfl
  · next hMark =>
    split
    · next comment =>
      cases hBlanks with
      | @cons source _ _ _ => exact absurd rfl (hMark source)
    · exact hBlanks

end SameLines

/- Behind the gap stands no carriage return. -/
theorem head?_afterGap_ne (source : List Char) :
    (afterGap source).head? ≠ some '\r' := by
  intro hHead
  cases (afterGap_head source).1 '\r' hHead

------------------------------------------------------------
-- Lexemes
------------------------------------------------------------

/- A lexeme that is no line break holds nothing of an ending. -/
theorem Stands.ne_ending
    {ch : Char}
    (hStands : Stands rest kind text lexeme)
    (hKind : kind ≠ .newline)
    (hCh : ch ∈ lexeme) :
    ch ≠ '\r' ∧ ch ≠ '\n' := by
  rcases hStands.mem_cases hCh with
    ⟨hBreak, _⟩ | hString | hLetter | hSign
  · exact absurd hBreak hKind
  · subst hString
    cases hStands with
    | string hText =>
        rw [List.cons_append, List.mem_cons, List.mem_append,
          List.mem_singleton] at hCh
        rcases hCh with hQuote | hIn | hQuote
        · rw [hQuote]
          decide
        · have hFree := hText ch hIn
          simp only [List.mem_cons, not_or] at hFree
          exact ⟨hFree.1, hFree.2.1⟩
        · rw [hQuote]
          decide
  · constructor <;>
      · intro hEnding
        rw [hEnding] at hLetter
        cases hLetter
  · constructor <;>
      · intro hEnding
        rw [hEnding] at hSign
        exact absurd hSign (by decide)

namespace SameLines

/- A lexeme may stand before the same lines. -/
theorem stands
    {more : List Char}
    (hSame : SameLines rest more)
    (hStands : Stands rest kind text lexeme) :
    Stands more kind text lexeme := by
  cases hSame with
  | nil => exact hStands
  | cons => exact hStands.of_head rfl
  | added | removed => exact hStands.of_parting rfl

/- What holds nothing of an ending is passed in both texts. -/
theorem exists_rest
    (hPlain : ∀ ch ∈ lexeme, ch ≠ '\r' ∧ ch ≠ '\n')
    (hSame : SameLines (lexeme ++ rest) other) :
    ∃ more, other = lexeme ++ more ∧ SameLines rest more := by
  induction lexeme generalizing other with
  | nil => exact ⟨other, rfl, hSame⟩
  | cons ch lexeme ih =>
      rw [List.forall_mem_cons] at hPlain
      rw [List.cons_append] at hSame
      generalize hWhole : lexeme ++ rest = whole at hSame
      cases hSame with
      | cons _ hMore =>
          rw [← hWhole] at hMore
          obtain ⟨more, hOther, hRest⟩ := ih hPlain.2 hMore
          exact ⟨more, by rw [hOther]; rfl, hRest⟩
      | added => exact absurd rfl hPlain.1.2
      | removed => exact absurd rfl hPlain.1.1

/- The same lexeme is read from the same lines. -/
theorem read_lexeme
    (hSame : SameLines source other)
    (hReturn : other.head? ≠ some '\r')
    (hRead : read source = .lexeme kind text rest) :
    ∃ more,
      read other = .lexeme kind text more ∧
        SameLines rest more := by
  obtain ⟨hStands, hSource⟩ := read_eq_lexeme_iff.mp hRead
  have hRest :
      ∃ more,
        other = kind.spell text ++ more ∧ SameLines rest more := by
    rw [hSource] at hSame
    by_cases hKind : kind = .newline
    · -- Only before a line break the endings may differ.
      have hBreak : kind.spell text = ['\n'] := by
        rw [hKind] at hStands ⊢
        cases hStands
        rfl
      rw [hBreak] at hSame ⊢
      cases hSame with
      | @cons _ more _ hMore => exact ⟨more, rfl, hMore⟩
      | added => exact absurd rfl hReturn
    · exact
        exists_rest (fun ch => hStands.ne_ending hKind) hSame
  obtain ⟨more, hOther, hMore⟩ := hRest
  exact
    ⟨more,
      read_eq_lexeme_iff.mpr ⟨hMore.stands hStands, hOther⟩,
      hMore⟩

/- The end of input is read from the same lines. -/
theorem read_finish
    (hSame : SameLines source other)
    (hReturn : other.head? ≠ some '\r')
    (hRead : read source = .finish) :
    read other = .finish := by
  rw [read_eq_finish_iff] at hRead ⊢
  cases hSame with
  | nil => exact .inl rfl
  | cons => simpa using hRead
  | added => exact absurd rfl hReturn
  | removed => simp at hRead

/- The same lines go on behind an end of input. -/
theorem tail_of_finish
    (hSame : SameLines source other)
    (hRead : read source = .finish) :
    SameLines source.tail other.tail := by
  cases hSame with
  | nil => exact .nil
  | cons _ hMore => exact hMore
  | added | removed => simp [read_eq_finish_iff] at hRead

end SameLines

/- Readings that are alike: the end, a lexeme, or two faults. -/
inductive Reading.Alike : Reading → Reading → Prop
| finish : Alike .finish .finish
| lexeme
    {kind : Kind}
    {text rest more : List Char}
    (hRest : SameLines rest more) :
    Alike (.lexeme kind text rest) (.lexeme kind text more)
| fault
    {cause other : LexCause}
    {passed rest before more : List Char} :
    Alike (.fault cause passed rest) (.fault other before more)

/-
  Behind the gaps of the same lines the readings are alike. What
  is a fault in one is so in the other, as all else is the same
  either way.
-/
theorem SameLines.read_afterGap
    (hSame : SameLines source other) :
    (read (Lexeme.afterGap source)).Alike
      (read (Lexeme.afterGap other)) := by
  have hAfter := hSame.afterGap
  have hLeft := head?_afterGap_ne source
  have hRight := head?_afterGap_ne other
  cases hRead : read (Lexeme.afterGap source) with
  | finish =>
      rw [hAfter.read_finish hRight hRead]
      exact .finish
  | lexeme kind text rest =>
      obtain ⟨more, hOther, hMore⟩ :=
        hAfter.read_lexeme hRight hRead
      rw [hOther]
      exact .lexeme hMore
  | fault cause passed rest =>
      cases hOther : read (Lexeme.afterGap other) with
      | finish =>
          rw [hAfter.symm.read_finish hLeft hOther] at hRead
          cases hRead
      | lexeme kind text more =>
          obtain ⟨_, hBack, _⟩ :=
            hAfter.symm.read_lexeme hLeft hOther
          rw [hBack] at hRead
          cases hRead
      | fault => exact .fault

end Lexeme

------------------------------------------------------------
-- Answers of Two Cursors
------------------------------------------------------------

/- Results that are the same, or errors that are related. -/
inductive SameOr
    {ε α : Type}
    (Related : ε → ε → Prop) :
    Except ε α → Except ε α → Prop
| ok
    (a : α) :
    SameOr Related (.ok a) (.ok a)
| error
    {d e : ε}
    (hRelated : Related d e) :
    SameOr Related (.error d) (.error e)

namespace SameOr

variable {ε α : Type}
variable {Related : ε → ε → Prop}
variable {r q : Except ε α}

/- The one has a value where the other has, and the same. -/
theorem eq_ok_iff
    (hSame : SameOr Related r q)
    (a : α) :
    q = .ok a ↔ r = .ok a := by
  cases hSame with
  | ok => rfl
  | error => simp

/- Where the one is an error, the other is one that is related. -/
theorem exists_error
    (hSame : SameOr Related r q)
    {d : ε}
    (hError : r = .error d) :
    ∃ e, q = .error e ∧ Related d e := by
  cases hSame with
  | ok => cases hError
  | error hRelated =>
      cases hError
      exact ⟨_, rfl, hRelated⟩

end SameOr

/- Faults on one line. -/
def LexError.Level (e f : LexError) : Prop :=
  e.line = f.line

/-
  Two answers that are alike: the same token, with cursors behind
  it that are related again, or faults on one line.
-/
inductive Item.Alike (Related : Cursor → Cursor → Prop) :
    Item × Cursor → Item × Cursor → Prop
| token
    {token : Token}
    {c d : Cursor}
    (hMore : Related c d) :
    Alike Related (.ok token, c) (.ok token, d)
| fault
    {e f : LexError}
    {c d : Cursor}
    (hLevel : e.Level f) :
    Alike Related (.error e, c) (.error f, d)

/-
  Cursors that go on answering alike give the same tokens up to
  the end of input, or faults on one line. Each token brings the
  first cursor closer to its end.
-/
theorem Item.sameOr_collect
    {Related : Cursor → Cursor → Prop}
    (hStep : ∀ c d, Related c d →
      Item.Alike Related c.nextToken d.nextToken)
    {c d : Cursor}
    (hRelated : Related c d) :
    SameOr LexError.Level
      (collect
        (Scanner.drain { cursor := c, finished := false }).1)
      (collect
        (Scanner.drain { cursor := d, finished := false }).1) := by
  induction hLeft : c.bytesAhead using Nat.strongRecOn
    generalizing c d with
  | ind left ih =>
      have hAlike := hStep c d hRelated
      rcases hNext : c.nextToken with ⟨item, next⟩
      rcases hOther : d.nextToken with ⟨other, last⟩
      rw [hNext, hOther] at hAlike
      cases hAlike with
      | fault hLevel =>
          rw [Scanner.drain_of_fault hNext,
            Scanner.drain_of_fault hOther]
          exact .error hLevel
      | @token token _ _ hMore =>
          by_cases hKind : token.kind = .eof
          · rw [Scanner.drain_of_eof hNext hKind,
              Scanner.drain_of_eof hOther hKind]
            exact .ok [token]
          · have hLess := Cursor.bytesAhead_lt_of_open hNext hKind
            have hSame := ih _ (hLeft ▸ hLess) hMore rfl
            rw [Scanner.drain_of_open hNext hKind,
              Scanner.drain_of_open hOther hKind, collect, collect]
            generalize collect _ = r at hSame ⊢
            generalize collect _ = q at hSame ⊢
            cases hSame with
            | ok tokens => exact .ok (token :: tokens)
            | error hLevel => exact .error hLevel

------------------------------------------------------------
-- Cursors on the Same Lines
------------------------------------------------------------

namespace Cursor

/- Cursors on the same line, with the same lines ahead. -/
structure SameLines (c d : Cursor) : Prop where
  left : c.entered = []
  right : d.entered = []
  line : c.line = d.line
  ahead : Lexeme.SameLines c.ahead d.ahead

variable {c d : Cursor}

/- Between characters a byte-wise move leaves the next ones ahead. -/
theorem ahead_advance (hEntered : c.entered = []) :
    c.advance.ahead = c.ahead.tail := by
  unfold advance
  rw [hEntered]
  cases c.ahead with
  | nil | cons => rfl

/- Moving past an end of input keeps the same lines ahead. -/
theorem SameLines.advance
    (hSame : c.SameLines d)
    (hLeft : Lexeme.read c.ahead = .finish)
    (hRight : Lexeme.read d.ahead = .finish) :
    c.advance.SameLines d.advance := by
  obtain ⟨hEntered, hLine⟩ := advance_of_finish hSame.left hLeft
  obtain ⟨hOther, hEqual⟩ := advance_of_finish hSame.right hRight
  refine ⟨hEntered, hOther, ?_, ?_⟩
  · rw [hLine, hEqual, hSame.line]
  · rw [ahead_advance hSame.left, ahead_advance hSame.right]
    exact hSame.ahead.tail_of_finish hLeft

/- Cursors with the same lines ahead answer alike. -/
theorem SameLines.nextToken (hSame : c.SameLines d) :
    Item.Alike SameLines c.nextToken d.nextToken := by
  have hRead := tokenRead_nextToken hSame.left
  have hOther := tokenRead_nextToken hSame.right
  have hAlike := hSame.ahead.read_afterGap
  have hGap : c.skipGap.SameLines d.skipGap :=
    { left := rfl
      right := rfl
      line := by
        rw [line_skipGap, line_skipGap, hSame.line]
      ahead := hSame.ahead.afterGap }
  rw [← ahead_skipGap, ← ahead_skipGap] at hAlike
  generalize c.nextToken = r at hRead ⊢
  generalize d.nextToken = q at hOther ⊢
  cases hRead with
  | finish hLeft =>
      rw [hLeft] at hAlike
      cases hOther with
      | finish hRight =>
          rw [hGap.line]
          exact .token (hGap.advance hLeft hRight)
      | lexeme hRight | fault hRight =>
          rw [hRight] at hAlike
          cases hAlike
  | lexeme hLeft =>
      rw [hLeft] at hAlike
      cases hOther with
      | lexeme hRight =>
          rw [hRight] at hAlike
          cases hAlike with
          | lexeme hRest =>
              rw [hGap.line]
              refine .token ⟨rfl, rfl, ?_, hRest⟩
              exact congrArg (· + _) hGap.line
      | finish hRight | fault hRight =>
          rw [hRight] at hAlike
          cases hAlike
  | fault hLeft =>
      rw [hLeft] at hAlike
      cases hOther with
      | fault hRight =>
          apply Item.Alike.fault
          unfold LexError.Level
          dsimp only
          rw [line_pass_of_fault hLeft, line_pass_of_fault hRight,
            hGap.line]
      | finish hRight | lexeme hRight =>
          rw [hRight] at hAlike
          cases hAlike

/- A text has the same lines with returns put in. -/
theorem sameLines_start (source : String) :
    (start source).SameLines (start (withReturns source)) where
  left := rfl
  right := rfl
  line := rfl
  ahead := by
    unfold start withReturns
    rw [String.toList_ofList]
    exact Lexeme.SameLines.withReturns_append source.toList ['\n']

end Cursor

/-
  Carriage returns before the line breaks change no token, and a
  fault only to one on the same line.
-/
theorem sameOr_tokenize_withReturns (source : String) :
    SameOr LexError.Level (tokenize source)
      (tokenize (withReturns source)) :=
  Item.sameOr_collect (fun _ _ hSame => hSame.nextToken)
    (Cursor.sameLines_start source)

end TeenyC
