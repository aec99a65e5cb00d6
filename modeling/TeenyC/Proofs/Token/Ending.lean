import TeenyC.Proofs.Token.Behind
import TeenyC.Proofs.Token.Place
import TeenyC.Proofs.Token.Steps

/-
  Where the tokens of a text end.

  The end of input stands at the first NUL that is in no comment,
  or else at the end of the text. A mark starts a comment unless
  it stands in a string, and a line break ends it. If no comment
  goes on over a NUL, the text behind the NUL makes no difference
  to the tokens, nor to a fault among them.

  Key definitions include:
    * `Lexeme.Region`
    * `Lexeme.Region.beforeNul`

  Key theorems include:
    * `Cursor.Supplies.finishes`
    * `Cursor.Twins.drain_eq`
    * `tokenize_ends_at_nul`
-/

namespace TeenyC

namespace Lexeme

------------------------------------------------------------
-- Regions of a Text
------------------------------------------------------------

/- What a character may stand in: a string, a comment, or neither. -/
inductive Region where
| code
| string
| comment
deriving DecidableEq

namespace Region

/- The region behind a character. -/
def next : Region → Char → Region
| .code, ch =>
    if ch = '"' then .string
    else if ch = '#' then .comment
    else .code
| .string, ch => if ch = '"' then .code else .string
| .comment, ch => if ch = '\n' then .code else .comment

/- The text before the first NUL that is in no comment. -/
def beforeNul : Region → List Char → List Char
| _, [] => []
| region, ch :: rest =>
    if ch = '\x00' ∧ region ≠ .comment then []
    else ch :: (region.next ch).beforeNul rest

variable {region : Region}
variable {passed rest : List Char}

/- Characters that leave the region as it is are passed. -/
theorem beforeNul_append
    (hSame : ∀ ch ∈ passed, region.next ch = region)
    (hNul : region ≠ .comment → '\x00' ∉ passed) :
    region.beforeNul (passed ++ rest) =
      passed ++ region.beforeNul rest := by
  induction passed with
  | nil => rfl
  | cons ch passed ih =>
      obtain ⟨hNext, hMore⟩ := List.forall_mem_cons.mp hSame
      have hOther : ¬ (ch = '\x00' ∧ region ≠ .comment) := by
        rintro ⟨rfl, hComment⟩
        exact hNul hComment List.mem_cons_self
      have hRest := ih hMore fun hComment hIn =>
        hNul hComment (List.mem_cons_of_mem _ hIn)
      rw [List.cons_append, beforeNul, if_neg hOther, hNext,
        hRest]
      rfl

/- A character that is no NUL leads to the region behind it. -/
theorem beforeNul_cons
    {ch : Char}
    (hCh : ch ≠ '\x00') :
    region.beforeNul (ch :: rest) =
      ch :: (region.next ch).beforeNul rest := by
  rw [beforeNul, if_neg fun hBoth => hCh hBoth.1]

/- Where a line ends a comment does. -/
theorem beforeNul_line
    (hLine : rest = [] ∨ rest.head? = some '\n') :
    comment.beforeNul rest = code.beforeNul rest := by
  rcases hLine with hNil | hBreak
  · rw [hNil]
    rfl
  · rcases List.head?_eq_some_iff.mp hBreak with ⟨more, hMore⟩
    rw [hMore, beforeNul_cons (by decide),
      beforeNul_cons (by decide)]
    rfl

/- No NUL of a gap is out of a comment. -/
theorem beforeNul_gap
    {gap : List Char}
    (hGap : Gap rest gap) :
    code.beforeNul (gap ++ rest) = gap ++ code.beforeNul rest := by
  have hBlank
      {blanks more : List Char}
      (hAll :
        ∀ ch ∈ blanks, ch = ' ' ∨ ch = '\t' ∨ ch = '\r') :
      code.beforeNul (blanks ++ more) =
        blanks ++ code.beforeNul more := by
    apply beforeNul_append
    · intro ch hCh
      rcases hAll ch hCh with rfl | rfl | rfl <;> rfl
    · intro _ hNul
      rcases hAll _ hNul with hSame | hSame | hSame <;>
        cases hSame
  cases hGap with
  | blanks hAll => exact hBlank hAll
  | @comment blanks text hAll hText hLine =>
      have hSame : ∀ ch ∈ text, comment.next ch = comment := by
        intro ch hCh
        have hBreak : ch ≠ '\n' := by
          rintro rfl
          exact hText hCh
        simp [next, hBreak]
      have hComment :
          comment.beforeNul (text ++ rest) =
            text ++ comment.beforeNul rest :=
        beforeNul_append hSame fun hNot => absurd rfl hNot
      have hMark : code.next '#' = comment := rfl
      rw [List.append_assoc, List.cons_append, hBlank hAll,
        beforeNul_cons (by decide), hMark, hComment,
        beforeNul_line hLine, List.append_assoc,
        List.cons_append]

/- No lexeme has a NUL, and behind it no string is open. -/
theorem beforeNul_stands
    {kind : Kind}
    {text lexeme : List Char}
    (hStands : Stands rest kind text lexeme) :
    code.beforeNul (lexeme ++ rest) =
      lexeme ++ code.beforeNul rest := by
  by_cases hKind : kind = .string
  · subst hKind
    cases hStands with
    | string hText =>
        have hSame : ∀ ch ∈ text, string.next ch = string := by
          intro ch hCh
          have hQuote : ch ≠ '"' := by
            rintro rfl
            exact hText _ hCh (by simp)
          simp [next, hQuote]
        have hContents :
            string.beforeNul (text ++ '"' :: rest) =
              text ++ string.beforeNul ('"' :: rest) := by
          apply beforeNul_append hSame
          intro _ hNul
          exact hText _ hNul (by simp)
        have hOpen : code.next '"' = string := rfl
        have hClose : string.next '"' = code := rfl
        rw [List.append_assoc, List.singleton_append,
          List.cons_append, beforeNul_cons (by decide), hOpen,
          hContents, beforeNul_cons (by decide), hClose]
        simp
  · have hPlain (ch : Char) (hCh : ch ∈ lexeme) :
        ch ≠ '"' ∧ ch ≠ '#' ∧ ch ≠ '\x00' := by
      rcases hStands.mem_cases hCh with
        ⟨_, hBreak⟩ | hString | hLetter | hSign
      · simp [hBreak]
      · exact absurd hString hKind
      · refine ⟨?_, ?_, ?_⟩ <;>
          · rintro rfl
            cases hLetter
      · refine ⟨?_, ?_, ?_⟩ <;>
          · rintro rfl
            exact absurd hSign (by decide)
    apply beforeNul_append
    · intro ch hCh
      obtain ⟨hQuote, hMark, _⟩ := hPlain ch hCh
      simp [next, hQuote, hMark]
    · intro _ hNul
      exact (hPlain _ hNul).2.2 rfl

/-
  A NUL that no comment goes on over ends the text before it, if
  an earlier one does not. What stands behind it does not matter.
  The induction is on the text before the NUL.
-/
theorem exists_beforeNul
    {before : List Char}
    (hRegion : region = .comment → '\n' ∈ before)
    (hComments : ∀ text comment,
      before = text ++ '#' :: comment → '\n' ∈ comment) :
    ∃ cut rest,
      before ++ ['\x00'] = cut ++ '\x00' :: rest ∧
        ∀ tail,
          region.beforeNul (before ++ '\x00' :: tail) = cut := by
  induction before generalizing region with
  | nil =>
      have hOpen : region ≠ .comment := fun hSame => by
        cases hRegion hSame
      refine ⟨[], [], rfl, ?_⟩
      intro tail
      rw [List.nil_append, beforeNul, if_pos ⟨rfl, hOpen⟩]
  | cons ch before ih =>
      by_cases hEnd : ch = '\x00' ∧ region ≠ .comment
      · refine ⟨[], before ++ ['\x00'], ?_, ?_⟩
        · rw [hEnd.1]
          rfl
        · intro tail
          rw [List.cons_append, beforeNul, if_pos hEnd]
      · have hNext :
            region.next ch = .comment → '\n' ∈ before := by
          intro hComment
          cases region with
          | code =>
              have hMark : ch = '#' := by
                by_contra hOther
                simp [next, hOther] at hComment
                split at hComment <;> cases hComment
              rw [hMark] at hComments
              exact hComments [] before rfl
          | string =>
              rw [next] at hComment
              split at hComment <;> cases hComment
          | comment =>
              have hBreak : ch ≠ '\n' := by
                rintro rfl
                cases hComment
              rcases List.mem_cons.mp (hRegion rfl) with
                hSame | hIn
              · exact absurd hSame.symm hBreak
              · exact hIn
        rcases ih hNext
            fun text comment hText =>
              hComments (ch :: text) comment (by rw [hText]; rfl)
          with ⟨cut, rest, hCut, hTail⟩
        refine ⟨ch :: cut, rest, ?_, ?_⟩
        · rw [List.cons_append, hCut]
          rfl
        · intro tail
          rw [List.cons_append, beforeNul, if_neg hEnd,
            hTail tail]

end Region

end Lexeme

------------------------------------------------------------
-- The Last Token
------------------------------------------------------------

namespace Cursor

open Lexeme

/-
  The end of input, and where it leaves the cursor: right behind
  the first NUL in no comment, if there is one.
-/
def Finishes
    (c : Cursor)
    (token : Token)
    (last : Cursor) : Prop :=
  let cut := Region.code.beforeNul c.ahead
  token =
      { kind := .eof
        text := ""
        line := c.line + cut.count '\n' } ∧
    (c.ahead = cut ∨
      ∃ rest,
        c.ahead = cut ++ '\x00' :: rest ∧
          last = c.pass (cut ++ ['\x00']) rest)

variable {c next last : Cursor}
variable {token : Token}
variable {tokens : List Token}
variable {passed rest : List Char}

/- What is passed before the end does not change where it is. -/
theorem Finishes.of_pass
    (hFinishes : (c.pass passed rest).Finishes token last)
    (hWhole : c.ahead = passed ++ rest)
    (hPassed :
      Region.code.beforeNul c.ahead =
        passed ++ Region.code.beforeNul rest) :
    c.Finishes token last := by
  obtain ⟨hToken, hPlace⟩ := hFinishes
  dsimp only [Cursor.pass] at hToken hPlace
  unfold Finishes
  rw [hPassed, hWhole]
  constructor
  · rw [hToken, List.count_append, Nat.add_assoc]
  · rcases hPlace with hNone | ⟨later, hRest, hLast⟩
    · left
      rw [← hNone]
    · right
      refine ⟨later, by rw [List.append_assoc, ← hRest], ?_⟩
      rw [hLast, List.append_assoc]
      exact pass_pass c passed _ rest later

/- A NUL is passed as any character is. -/
theorem advance_of_nul
    (hEntered : c.entered = [])
    (hAhead : c.ahead = '\x00' :: rest) :
    c.advance = c.pass ['\x00'] rest := by
  rcases c with ⟨ahead, entered, position, line⟩
  cases hEntered
  cases hAhead
  rfl

/- Where an end of input is read, the text ahead is at its end. -/
theorem finishes_of_read
    (hEntered : c.entered = [])
    (hRead : read c.ahead = .finish) :
    c.Finishes { kind := .eof, text := "", line := c.line }
      c.advance := by
  unfold Finishes
  rcases read_eq_finish_iff.mp hRead with hNil | hNul
  · rw [hNil]
    exact ⟨rfl, .inl rfl⟩
  · rcases List.head?_eq_some_iff.mp hNul with ⟨rest, hAhead⟩
    have hMove := advance_of_nul hEntered hAhead
    rw [hAhead]
    exact ⟨rfl, .inr ⟨rest, rfl, hMove⟩⟩

/-
  The next token is the end of input, or what is passed with it
  is a gap and a lexeme.
-/
theorem finishes_or_passes
    (hEntered : c.entered = [])
    (hNext : c.nextToken = (.ok token, next)) :
    c.Finishes token next ∨
      token.kind ≠ .eof ∧
        ∃ passed rest,
          next = c.pass passed rest ∧
            c.ahead = passed ++ rest ∧
              Region.code.beforeNul c.ahead =
                passed ++ Region.code.beforeNul rest := by
  have hGap := gap_gap c.ahead
  have hWhole := gap_append_afterGap c.ahead
  have hPassed := Region.beforeNul_gap hGap
  rw [hWhole] at hPassed
  have hRead := tokenRead_nextToken hEntered
  rw [hNext] at hRead
  cases hRead with
  | finish hRead =>
      left
      have hFinishes := finishes_of_read (entered_skipGap c) hRead
      exact hFinishes.of_pass hWhole.symm hPassed
  | @lexeme kind text rest hRead hKind hSplit =>
      rcases read_eq_lexeme_iff.mp hRead with ⟨hStands, hAfter⟩
      rw [ahead_skipGap] at hSplit
      refine
        .inr
          ⟨hKind, gap c.ahead ++ kind.spell text, rest, ?_, ?_, ?_⟩
      · rw [← pass_pass c _ _ (afterGap c.ahead)]
        rfl
      · rw [List.append_assoc, hSplit, hWhole]
      · rw [hPassed, ← hSplit, Region.beforeNul_stands hStands,
          List.append_assoc]

/-
  The last token of a text is the end of input where the text is
  at its end. The induction is on the tokens before it.
-/
theorem Supplies.finishes
    (hEntered : c.entered = [])
    (hSupply : c.Supplies (tokens ++ [token]) last)
    (hKind : token.kind = .eof)
    (hBefore : ∀ other ∈ tokens, other.kind ≠ .eof) :
    c.Finishes token last := by
  induction tokens generalizing c with
  | nil =>
      cases hSupply with
      | cons hToken hMore =>
          cases hMore with
          | nil =>
              rcases finishes_or_passes hEntered hToken with
                hFinishes | ⟨hOpen, _⟩
              · exact hFinishes
              · exact absurd hKind hOpen
  | cons first tokens ih =>
      obtain ⟨hFirst, hOthers⟩ := List.forall_mem_cons.mp hBefore
      cases hSupply with
      | cons hToken hMore =>
          rcases finishes_or_passes hEntered hToken with
            hFinishes | ⟨_, passed, rest, hNext, hWhole, hPassed⟩
          · exact absurd (by rw [hFinishes.1]) hFirst
          · subst hNext
            have hLater := ih rfl hMore hOthers
            exact hLater.of_pass hWhole hPassed

------------------------------------------------------------
-- Twins
------------------------------------------------------------

/- Twin cursors give the same tokens, or the same fault. -/
theorem Twins.drain_eq
    {left right other : Cursor}
    (hTwins : Twins left right c other) :
    (Scanner.drain { cursor := c, finished := false }).1 =
      (Scanner.drain { cursor := other, finished := false }).1 := by
  induction hTwins with
  | @token _ _ _ _ token hLeft hRight _ ih =>
      by_cases hKind : token.kind = .eof
      · rw [Scanner.drain_of_eof hLeft hKind,
          Scanner.drain_of_eof hRight hKind]
      · rw [Scanner.drain_of_open hLeft hKind,
          Scanner.drain_of_open hRight hKind, ih]
  | finish hLeft hRight hKind =>
      rw [Scanner.drain_of_eof hLeft hKind,
        Scanner.drain_of_eof hRight hKind]
  | fault hLeft hRight =>
      rw [Scanner.drain_of_fault hLeft,
        Scanner.drain_of_fault hRight]

/- The cursor before a text that a NUL closes. -/
def upToNul (before : String) : Cursor where
  ahead := before.toList ++ ['\x00']
  entered := []
  position := 0
  line := 1

/- A text with a NUL in it goes on behind the NUL. -/
theorem start_nul (before text : String) :
    start (before ++ "\x00" ++ text) =
      (upToNul before).extend (text.toList ++ ['\n']) := by
  simp [start, extend, upToNul]

/-
  The tokens end with the end of input behind a part of the text
  that a NUL follows, and leave the cursor right behind the NUL.
-/
def EndsBehind
    (c : Cursor)
    (cut rest : List Char)
    (tokens : List Token) : Prop :=
  ∃ earlier,
    tokens =
        earlier ++
          [{ kind := .eof
             text := ""
             line := c.line + cut.count '\n' }] ∧
      (∀ token ∈ earlier, token.kind ≠ .eof) ∧
        c.Supplies tokens (c.pass (cut ++ ['\x00']) rest)

/- All tokens of a text with a NUL in no comment end at the NUL. -/
theorem Lists.endsBehind
    {cut : List Char}
    (hLists : c.Lists tokens)
    (hEntered : c.entered = [])
    (hCut : Region.code.beforeNul c.ahead = cut)
    (hWhole : c.ahead = cut ++ '\x00' :: rest) :
    c.EndsBehind cut rest tokens := by
  rcases hLists with
    ⟨⟨earlier, token, rfl, hKind, hEarlier⟩, last, hSupply⟩
  have hFinishes := hSupply.finishes hEntered hKind hEarlier
  unfold Finishes at hFinishes
  rw [hCut] at hFinishes
  obtain ⟨hToken, hPlace⟩ := hFinishes
  refine ⟨earlier, by rw [hToken], hEarlier, ?_⟩
  rcases hPlace with hNone | ⟨later, hLater, hLast⟩
  · rw [hNone] at hWhole
    simp at hWhole
  · rw [hWhole] at hLater
    have hRest := List.append_cancel_left hLater
    cases hRest
    rwa [← hLast]

end Cursor

/-
  Where no comment goes on over a NUL, what stands behind the NUL
  makes no difference to the tokens, nor to a fault. If there is
  no fault, the tokens end at the first NUL that is in no comment.
-/
theorem tokenize_ends_at_nul
    {before : String}
    (hComments : ∀ text comment,
      before.toList = text ++ '#' :: comment → '\n' ∈ comment)
    (first second : String) :
    tokenize (before ++ "\x00" ++ first) =
        tokenize (before ++ "\x00" ++ second) ∧
      ∃ cut rest,
        before.toList ++ ['\x00'] = cut ++ '\x00' :: rest ∧
          Lexeme.Region.code.beforeNul
              (before ++ "\x00" ++ first).toList = cut ∧
            ∀ tokens,
              tokenize (before ++ "\x00" ++ first) = .ok tokens →
                (Cursor.start
                  (before ++ "\x00" ++ first)).EndsBehind
                    cut (rest ++ (first.toList ++ ['\n']))
                    tokens := by
  constructor
  · have hClosed : (Cursor.upToNul before).Closed :=
      ⟨rfl, before.toList, rfl, hComments⟩
    rcases hClosed.exists_twins with ⟨stop, _, hTwins⟩
    have hSame :=
      (hTwins (first.toList ++ ['\n'])
        (second.toList ++ ['\n'])).drain_eq
    rw [← Cursor.start_nul, ← Cursor.start_nul] at hSame
    exact congrArg Item.collect hSame
  · rcases
        @Lexeme.Region.exists_beforeNul .code before.toList
          (fun hSame => by cases hSame) hComments with
      ⟨cut, rest, hCut, hTail⟩
    have hAhead :
        (Cursor.start (before ++ "\x00" ++ first)).ahead =
          before.toList ++
            '\x00' :: (first.toList ++ ['\n']) := by
      simp [Cursor.start]
    refine ⟨cut, rest, hCut, ?_, ?_⟩
    · rw [← hTail first.toList]
      simp
    · intro tokens hTokens
      have hLists := (tokenize_eq_ok_iff _ tokens).mp hTokens
      apply hLists.endsBehind rfl
      · rw [hAhead]
        exact hTail _
      · rw [hAhead, List.append_cons, hCut, List.append_assoc]
        rfl

/- A comment ends if no mark stands behind the last line break. -/
theorem break_of_last_line
    {lines last : List Char}
    (hLast : '#' ∉ last)
    (text comment : List Char)
    (hText : lines ++ '\n' :: last = text ++ '#' :: comment) :
    '\n' ∈ comment := by
  rcases List.append_eq_append_iff.mp hText with
    ⟨more, _, hMore⟩ | ⟨more, _, hMore⟩
  · cases more with
    | nil => cases hMore
    | cons ch more =>
        obtain ⟨_, hIn⟩ := List.cons.inj hMore
        exact absurd (by simp [hIn]) hLast
  · cases more with
    | nil => cases hMore
    | cons ch more =>
        obtain ⟨_, hComment⟩ := List.cons.inj hMore
        simp [hComment]

/-
  A mark in a string starts no comment, and a NUL in a comment
  ends nothing.
-/
theorem tokenize_ends_at_nul_comment :
    let before := "PRINT \"#\" # \x00\n1 "
    (∀ text comment,
        before.toList = text ++ '#' :: comment →
          '\n' ∈ comment) ∧
      tokenize (before ++ "\x00" ++ "@") =
          .ok
            [{ kind := .keyword .print, text := "PRINT", line := 1 },
              { kind := .string, text := "#", line := 1 },
              { kind := .newline, text := "\n", line := 1 },
              { kind := .number, text := "1", line := 2 },
              { kind := .eof, text := "", line := 2 }] ∧
        tokenize (before ++ "\x00" ++ "@") =
            tokenize (before ++ "\x00" ++ "2") ∧
          ∃ cut rest,
            before.toList ++ ['\x00'] = cut ++ '\x00' :: rest ∧
              Lexeme.Region.code.beforeNul
                  (before ++ "\x00" ++ "@").toList = cut ∧
                ∀ tokens,
                  tokenize (before ++ "\x00" ++ "@") = .ok tokens →
                    (Cursor.start
                      (before ++ "\x00" ++ "@")).EndsBehind
                        cut (rest ++ ("@".toList ++ ['\n']))
                        tokens := by
  intro before
  have hComments :
      ∀ text comment,
        before.toList = text ++ '#' :: comment →
          '\n' ∈ comment := by
    have hLines :
        before.toList =
          "PRINT \"#\" # \x00".toList ++ '\n' :: ['1', ' '] := by
      decide +kernel
    rw [hLines]
    exact break_of_last_line (by decide)
  exact
    ⟨hComments, by decide +kernel,
      tokenize_ends_at_nul hComments "@" "2"⟩

end TeenyC
