import TeenyC.Proofs.Token.OneLine
import TeenyC.Proofs.Token.Supply

/-
  The tokens before a NUL do not depend on what stands behind it.

  No lexeme goes on over a NUL, and no comment does if every
  comment before the NUL ends before it. The token at the NUL is
  the end of input; the cursor then stands behind the NUL.

  Key definitions include:
    * `Lexeme.Closed`
    * `Cursor.extend`
    * `Cursor.behind`
    * `Cursor.Twins`

  Key theorems include:
    * `Lexeme.read_extend`
    * `Cursor.Closed.nextToken_extend`
    * `Cursor.Closed.exists_twins`
-/

namespace TeenyC

namespace Lexeme

------------------------------------------------------------
-- Readings that Stop
------------------------------------------------------------

/- A reading of a text that goes on. -/
def Reading.extend (tail : List Char) : Reading → Reading
| .finish => .finish
| .lexeme kind text rest => .lexeme kind text (rest ++ tail)
| .fault cause passed rest => .fault cause passed (rest ++ tail)

variable {member : Char → Bool}
variable {source : List Char}

/- A run that stops within a text does not go on behind it. -/
theorem takeWhile_extend
    (hStop : ∃ ch ∈ source, member ch = false)
    (tail : List Char) :
    (source ++ tail).takeWhile member =
      source.takeWhile member := by
  induction source with
  | nil => simp at hStop
  | cons first rest ih =>
      rcases hStop with ⟨ch, hCh, hNot⟩
      cases hFirst : member first with
      | false => simp [List.takeWhile, hFirst]
      | true =>
          have hRest : ch ∈ rest := by
            rcases List.mem_cons.mp hCh with hSame | hIn
            · rw [hSame, hFirst] at hNot
              cases hNot
            · exact hIn
          simp [List.takeWhile, hFirst, ih ⟨ch, hRest, hNot⟩]

/- What follows the run is followed by the rest of the text. -/
theorem dropWhile_extend
    (hStop : ∃ ch ∈ source, member ch = false)
    (tail : List Char) :
    (source ++ tail).dropWhile member =
      source.dropWhile member ++ tail := by
  have hSplit :=
    List.takeWhile_append_dropWhile
      (p := member) (l := source ++ tail)
  have hShort :=
    List.takeWhile_append_dropWhile (p := member) (l := source)
  rw [takeWhile_extend hStop tail] at hSplit
  have hSame :
      source.takeWhile member ++
          (source ++ tail).dropWhile member =
        source.takeWhile member ++
          (source.dropWhile member ++ tail) := by
    rw [hSplit, ← List.append_assoc, hShort]
  exact List.append_cancel_left hSame

/- A character that ends a run stands after the run. -/
theorem mem_dropWhile
    {ch : Char}
    (hCh : ch ∈ source)
    (hNot : member ch = false) :
    ch ∈ source.dropWhile member := by
  rw [← List.takeWhile_append_dropWhile
    (p := member) (l := source)] at hCh
  rcases List.mem_append.mp hCh with hRun | hRest
  · rw [List.mem_takeWhile_imp hRun] at hNot
    cases hNot
  · exact hRest

/- A string stops at a NUL. -/
theorem readString_extend
    (hNul : '\x00' ∈ source)
    (tail : List Char) :
    readString (source ++ tail) =
      (readString source).extend tail := by
  have hStop : ∃ ch ∈ source, isStringText ch = false :=
    ⟨'\x00', hNul, by decide⟩
  have hSome := @mem_dropWhile isStringText _ _ hNul rfl
  unfold readString
  rw [takeWhile_extend hStop, dropWhile_extend hStop]
  cases hRest : source.dropWhile isStringText with
  | nil =>
      rw [hRest] at hSome
      cases hSome
  | cons ch rest =>
      dsimp only [List.cons_append]
      split
      · rfl
      · split <;> rfl

/- A number stops at a NUL. -/
theorem readNumber_extend
    (hNul : '\x00' ∈ source)
    (tail : List Char) :
    readNumber (source ++ tail) =
      (readNumber source).extend tail := by
  have hStop : ∃ ch ∈ source, Char.isDigit ch = false :=
    ⟨'\x00', hNul, by decide⟩
  have hSome := @mem_dropWhile Char.isDigit _ _ hNul rfl
  unfold readNumber
  rw [takeWhile_extend hStop, dropWhile_extend hStop]
  cases hRest : source.dropWhile Char.isDigit with
  | nil =>
      rw [hRest] at hSome
      cases hSome
  | cons ch rest =>
      by_cases hPoint : ch = '.'
      · subst hPoint
        rw [hRest] at hSome
        have hStop : ∃ ch ∈ rest, Char.isDigit ch = false :=
          ⟨'\x00', by simpa using hSome, by decide⟩
        rw [List.cons_append]
        change
          (if List.isEmpty _ = true then _ else _) =
            Reading.extend tail
              (if List.isEmpty _ = true then _ else _)
        rw [takeWhile_extend hStop, dropWhile_extend hStop]
        split <;> rfl
      · split
        · next _ hHead =>
          cases hHead
          exact absurd rfl hPoint
        · split
          · next _ hHead =>
            cases hHead
            exact absurd rfl hPoint
          · rfl

/- A word stops at a NUL. -/
theorem readWord_extend
    (hNul : '\x00' ∈ source)
    (tail : List Char) :
    readWord (source ++ tail) =
      (readWord source).extend tail := by
  have hStop : ∃ ch ∈ source, Char.isAlphanum ch = false :=
    ⟨'\x00', hNul, by decide⟩
  unfold readWord
  rw [takeWhile_extend hStop, dropWhile_extend hStop]
  rfl

/- An operator has two characters at most. -/
theorem operatorAt?_pair
    (first second : Char)
    (more : List Char) :
    operatorAt? (first :: second :: more) =
      operatorAt? [first, second] := rfl

/- A sign stops at a NUL. -/
theorem readSign_extend
    (first : Char)
    (hNul : '\x00' ∈ source)
    (tail : List Char) :
    readSign first (source ++ tail) =
      (readSign first source).extend tail := by
  cases source with
  | nil => cases hNul
  | cons second more =>
      have hPair := operatorAt?_pair first second
      unfold readSign
      rw [List.cons_append, hPair, hPair more]
      split
      · next sign hSign =>
        rw [← hPair more] at hSign
        have hStart := List.find?_some hSign
        rw [List.isPrefixOf_iff_prefix] at hStart
        have hLength := hStart.length_le
        rw [String.length_toList] at hLength
        rw [← List.cons_append, ← List.cons_append,
          List.drop_append_of_le_length hLength]
        rfl
      · split <;> rfl

/- What is read before a NUL does not go on behind it. -/
theorem read_extend
    (hNul : '\x00' ∈ source)
    (tail : List Char) :
    read (source ++ tail) = (read source).extend tail := by
  cases source with
  | nil => cases hNul
  | cons first rest =>
      rw [List.cons_append]
      unfold read
      dsimp only
      split
      · rfl
      · next hFirst =>
        have hRest : '\x00' ∈ rest := by
          rcases List.mem_cons.mp hNul with hSame | hIn
          · exact absurd hSame.symm hFirst
          · exact hIn
        split
        · rfl
        · split
          · exact readString_extend hRest tail
          · split
            · exact readNumber_extend hNul tail
            · split
              · exact readWord_extend hNul tail
              · exact readSign_extend first hRest tail

------------------------------------------------------------
-- Gaps that Stop
------------------------------------------------------------

/- A gap ends with its comment if it has one. -/
theorem gap_of_comment
    {comment : List Char}
    (hText : source.dropWhile isBlank = '#' :: comment) :
    gap source =
        source.takeWhile isBlank ++
          '#' :: comment.takeWhile isCommentText ∧
      afterGap source = comment.dropWhile isCommentText := by
  unfold gap afterGap
  rw [hText]
  exact ⟨rfl, rfl⟩

/- A gap without a comment is a run of blanks. -/
theorem gap_of_blanks
    {ch : Char}
    {rest : List Char}
    (hText : source.dropWhile isBlank = ch :: rest)
    (hMark : ch ≠ '#') :
    gap source = source.takeWhile isBlank ∧
      afterGap source = ch :: rest := by
  unfold gap afterGap
  rw [hText]
  constructor
  · split
    · next hHead =>
      cases hHead
      exact absurd rfl hMark
    · rfl
  · split
    · next hHead =>
      cases hHead
      exact absurd rfl hMark
    · rfl

------------------------------------------------------------
-- Texts up to a NUL
------------------------------------------------------------

/-
  A text up to a NUL, before which every comment ends with its
  line.
-/
def Closed (source : List Char) : Prop :=
  ∃ body,
    source = body ++ ['\x00'] ∧
      ∀ before comment, body = before ++ '#' :: comment →
        '\n' ∈ comment

namespace Closed

/- A closed text has a NUL. -/
theorem nul
    (hClosed : Closed source) :
    '\x00' ∈ source := by
  rcases hClosed with ⟨body, hSource, _⟩
  simp [hSource]

/- What is left of a closed text is closed. -/
theorem of_append
    {before rest : List Char}
    (hClosed : Closed (before ++ rest))
    (hSome : rest ≠ []) :
    Closed rest := by
  rcases hClosed with ⟨body, hSource, hComments⟩
  rcases List.eq_nil_or_concat rest with hNil | ⟨more, last, hRest⟩
  · exact absurd hNil hSome
  · rw [hRest, List.concat_eq_append, ← List.append_assoc]
      at hSource
    obtain ⟨hBody, hLast⟩ := List.append_inj' hSource rfl
    refine ⟨more, ?_, ?_⟩
    · rw [hRest, List.concat_eq_append, hLast]
    · intro earlier comment hMore
      apply hComments (before ++ earlier) comment
      rw [← hBody, hMore, List.append_assoc]

/- A comment of a closed text has a line break. -/
theorem break_of_comment
    {comment : List Char}
    (hClosed : Closed ('#' :: comment)) :
    '\n' ∈ comment := by
  rcases hClosed with ⟨body, hSource, hComments⟩
  cases body with
  | nil => cases hSource
  | cons first rest =>
      obtain ⟨rfl, hComment⟩ := List.cons.inj hSource
      rw [hComment]
      exact List.mem_append_left _ (hComments [] rest rfl)

/- What follows the blanks of a closed text is closed. -/
theorem dropWhile_isBlank
    (hClosed : Closed source) :
    Closed (source.dropWhile isBlank) := by
  apply of_append
  · rwa [List.takeWhile_append_dropWhile]
  · exact
      List.ne_nil_of_mem
        (@mem_dropWhile isBlank _ _ hClosed.nul rfl)

/- What follows the gap of a closed text is closed. -/
theorem afterGap
    (hClosed : Closed source) :
    Closed (afterGap source) := by
  have hRest := hClosed.dropWhile_isBlank
  unfold Lexeme.afterGap
  split
  · next comment hComment =>
    rw [hComment] at hRest
    have hBreak := hRest.break_of_comment
    apply @of_append ('#' :: comment.takeWhile isCommentText)
    · rwa [List.cons_append, List.takeWhile_append_dropWhile]
    · exact
        List.ne_nil_of_mem
          (@mem_dropWhile isCommentText _ _ hBreak rfl)
  · exact hRest

/- The gap of a closed text does not go on behind it. -/
theorem gap_extend
    (hClosed : Closed source)
    (tail : List Char) :
    gap (source ++ tail) = gap source ∧
      Lexeme.afterGap (source ++ tail) =
        Lexeme.afterGap source ++ tail := by
  have hRest := hClosed.dropWhile_isBlank
  have hStop : ∃ ch ∈ source, isBlank ch = false :=
    ⟨'\x00', hClosed.nul, rfl⟩
  have hTake := takeWhile_extend hStop tail
  have hDrop := dropWhile_extend hStop tail
  cases hText : source.dropWhile isBlank with
  | nil =>
      rw [hText] at hRest
      cases hRest.nul
  | cons ch rest =>
      rw [hText] at hRest hDrop
      rw [List.cons_append] at hDrop
      by_cases hMark : ch = '#'
      · subst hMark
        have hStop : ∃ ch ∈ rest, isCommentText ch = false :=
          ⟨'\n', hRest.break_of_comment, rfl⟩
        obtain ⟨hGap, hAfter⟩ := gap_of_comment hText
        obtain ⟨hLong, hBehind⟩ := gap_of_comment hDrop
        rw [hGap, hAfter, hLong, hBehind, hTake,
          takeWhile_extend hStop, dropWhile_extend hStop]
        exact ⟨rfl, rfl⟩
      · obtain ⟨hGap, hAfter⟩ := gap_of_blanks hText hMark
        obtain ⟨hLong, hBehind⟩ := gap_of_blanks hDrop hMark
        rw [hGap, hAfter, hLong, hBehind, hTake]
        exact ⟨rfl, rfl⟩

end Closed

/- No lexeme has a NUL. -/
theorem Fits.nul_not_mem
    {kind : Kind}
    {text : List Char}
    (hFits : Fits kind text) :
    '\x00' ∉ kind.spell text := by
  have hText : '\x00' ∉ text := by
    by_cases hKind : kind = .newline
    · subst hKind
      rw [show text = ['\n'] from hFits]
      decide
    · intro hNul
      exact hFits.notMem_lineControls hKind _ hNul (by decide)
  unfold Kind.spell
  split <;> simpa using hText

end Lexeme

namespace Cursor

------------------------------------------------------------
-- Cursors before a NUL
------------------------------------------------------------

/- A cursor whose text goes on. -/
def extend
    (c : Cursor)
    (tail : List Char) : Cursor :=
  { c with ahead := c.ahead ++ tail }

/- The cursor behind the whole text. -/
def behind (c : Cursor) : Cursor :=
  c.pass c.ahead []

/- A cursor between characters, before a closed text. -/
structure Closed (c : Cursor) : Prop where
  entered : c.entered = []
  ahead : Lexeme.Closed c.ahead

variable {c next : Cursor}
variable {token : Token}

/-
  The next token of a closed text, or its fault, is that of any
  text that goes on behind it.
-/
theorem Closed.nextToken_extend
    (hClosed : c.Closed)
    (tail : List Char) :
    (c.extend tail).nextToken =
      (c.nextToken.1, c.nextToken.2.extend tail) := by
  obtain ⟨hEntered, hAhead⟩ := hClosed
  rcases c with ⟨ahead, entered, position, line⟩
  change entered = [] at hEntered
  change Lexeme.Closed ahead at hAhead
  subst hEntered
  obtain ⟨hGap, hAfter⟩ := hAhead.gap_extend tail
  have hNul := hAhead.afterGap.nul
  have hRead := Lexeme.read_extend hNul tail
  dsimp only [nextToken, extend, pass]
  rw [hGap, hAfter, hRead]
  cases Lexeme.read (Lexeme.afterGap ahead) with
  | finish =>
      cases hText : Lexeme.afterGap ahead with
      | nil =>
          rw [hText] at hNul
          cases hNul
      | cons ch rest => rfl
  | lexeme kind text rest => rfl
  | fault cause passed rest => rfl

/- One move over characters after another. -/
theorem pass_pass
    (c : Cursor)
    (first second middle rest : List Char) :
    (c.pass first middle).pass second rest =
      c.pass (first ++ second) rest := by
  simp [pass, Nat.add_assoc]

/-
  Within a closed text a move leads before a closed text again,
  or behind the whole.
-/
theorem Closed.pass
    {passed rest : List Char}
    (hClosed : c.Closed)
    (hWhole : passed ++ rest = c.ahead) :
    (c.pass passed rest).behind = c.behind ∧
      ((c.pass passed rest).Closed ∨
        c.pass passed rest = c.behind) := by
  obtain ⟨_, hAhead⟩ := hClosed
  constructor
  · change (c.pass passed rest).pass rest [] = _
    rw [pass_pass, hWhole]
    rfl
  · rw [← hWhole] at hAhead
    cases rest with
    | nil =>
        right
        rw [List.append_nil] at hWhole
        rw [hWhole]
        rfl
    | cons ch more =>
        exact .inl ⟨rfl, hAhead.of_append (by simp)⟩

/-
  Behind a token the text is closed again, or the token was the
  end of input at the last NUL.
-/
theorem Closed.nextToken
    (hClosed : c.Closed)
    (hNext : c.nextToken = (.ok token, next)) :
    next.behind = c.behind ∧
      (next.Closed ∨ token.kind = .eof ∧ next = c.behind) := by
  have hGap := Lexeme.gap_append_afterGap c.ahead
  have hAfter := hClosed.ahead.afterGap
  have hCovers := Lexeme.read_covers (Lexeme.afterGap c.ahead)
  unfold Cursor.nextToken at hNext
  rw [hClosed.entered] at hNext
  dsimp only [Cursor.pass] at hNext
  cases hRead : Lexeme.read (Lexeme.afterGap c.ahead) with
  | finish =>
      rcases Lexeme.read_eq_finish_iff.mp hRead with hNil | hHead
      · exact absurd hAfter.nul (by simp [hNil])
      · rcases List.head?_eq_some_iff.mp hHead with
          ⟨rest, hRest⟩
        rw [hRead, hRest] at hNext
        cases hNext
        rw [hRest, List.append_cons] at hGap
        have hMove := hClosed.pass hGap
        rw [← pass_pass c _ _ ('\x00' :: rest)] at hMove
        exact
          ⟨hMove.1, hMove.2.imp_right fun hEnd => ⟨rfl, hEnd⟩⟩
  | lexeme kind text rest =>
      rw [hRead] at hNext hCovers
      cases hNext
      cases hCovers with
      | lexeme _ _ hWhole =>
          rw [← hWhole, ← List.append_assoc] at hGap
          have hMove := hClosed.pass hGap
          rw [← pass_pass c _ _ (Lexeme.afterGap c.ahead)]
            at hMove
          refine ⟨hMove.1, .inl (hMove.2.resolve_right ?_)⟩
          intro hEnd
          have hRest : rest = [] := congrArg Cursor.ahead hEnd
          have hNul := (Lexeme.fits_of_read hRead).nul_not_mem
          rw [hRest, List.append_nil] at hWhole
          rw [hWhole] at hNul
          exact hNul hAfter.nul
  | fault cause passed rest =>
      rw [hRead] at hNext
      cases hNext

------------------------------------------------------------
-- Twins
------------------------------------------------------------

/- What is wrong with the token that a cursor stands before. -/
def fault? (c : Cursor) : Option LexError :=
  match c.nextToken.1 with
  | .ok _ => none
  | .error e => some e

/-
  Two cursors are twins if they supply the same tokens up to the
  end of input, or to the same fault. Behind the end of input
  they stand at two given cursors.
-/
inductive Twins (left right : Cursor) : Cursor → Cursor → Prop
| token
    {c d next other : Cursor}
    {token : Token}
    (hLeft : c.nextToken = (.ok token, next))
    (hRight : d.nextToken = (.ok token, other))
    (hMore : Twins left right next other) :
    Twins left right c d
| finish
    {c d : Cursor}
    {token : Token}
    (hLeft : c.nextToken = (.ok token, left))
    (hRight : d.nextToken = (.ok token, right))
    (hKind : token.kind = .eof) :
    Twins left right c d
| fault
    {c d next other : Cursor}
    {e : LexError}
    (hLeft : c.nextToken = (.error e, next))
    (hRight : d.nextToken = (.error e, other)) :
    Twins left right c d

/- A fault within a closed text does not depend on its tail. -/
theorem Closed.fault?_extend
    (hClosed : c.Closed)
    (tail : List Char) :
    (c.extend tail).fault? = c.fault? := by
  unfold fault?
  rw [hClosed.nextToken_extend]

/-
  Two texts that go on from one closed text have twin cursors,
  which stop behind it, or before more of it. Each token brings
  them closer to its end.
-/
theorem Closed.exists_twins
    (hClosed : c.Closed) :
    ∃ stop : Cursor,
      (stop = c.behind ∨ stop.Closed) ∧
        ∀ first second,
          Twins (stop.extend first) (stop.extend second)
            (c.extend first) (c.extend second) := by
  induction hAhead : c.bytesAhead using Nat.strongRecOn
    generalizing c with
  | ind ahead ih =>
      have hOver := hClosed.nextToken_extend
      rcases hNext : c.nextToken with ⟨item, next⟩
      simp only [hNext] at hOver
      cases item with
      | error e =>
          refine ⟨c, .inr hClosed, ?_⟩
          intro first second
          exact .fault (hOver first) (hOver second)
      | ok token =>
          obtain ⟨hBehind, hStep⟩ := hClosed.nextToken hNext
          by_cases hKind : token.kind = .eof
          · refine ⟨next, ?_, ?_⟩
            · exact hStep.symm.imp_left And.right
            · intro first second
              exact .finish (hOver first) (hOver second) hKind
          · have hLess := @bytesAhead_nextToken_lt c token
            rw [hNext, hAhead] at hLess
            have hMore :=
              hStep.resolve_right fun hEnd => hKind hEnd.1
            rcases ih _ (hLess rfl hKind) hMore rfl with
              ⟨stop, hStop, hTwins⟩
            refine ⟨stop, hBehind ▸ hStop, ?_⟩
            intro first second
            exact
              .token (hOver first) (hOver second)
                (hTwins first second)

end Cursor

end TeenyC
