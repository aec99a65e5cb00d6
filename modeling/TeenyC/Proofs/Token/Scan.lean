import TeenyC.Proofs.Token.Supply

/-
  How a program text splits into gaps and lexemes.

  A gap is a run of blanks, and a comment up to the end of its
  line. A lexeme stands before a rest of the text that does not
  go on with it. The scanner yields a list of tokens if and only
  if the text splits into gaps and the lexemes of the tokens, up
  to the end of the text or a NUL.

  Key definitions include:
    * `Lexeme.Gap`
    * `Lexeme.Stands`
    * `Lexeme.Scans`

  Key theorems include:
    * `Lexeme.afterGap_eq`
    * `Lexeme.read_eq_lexeme_iff`
    * `Lexeme.read_eq_finish_iff`
    * `tokenize_eq_ok_iff_scans`
-/

namespace TeenyC

namespace Lexeme

------------------------------------------------------------
-- Gaps, Lexemes and Splits
------------------------------------------------------------

/- What follows does not start with a character of a class. -/
def Ends (member : Char → Bool) (rest : List Char) : Prop :=
  ∀ ch ∈ rest.head?, member ch = false

/- The gaps that may stand before a rest. -/
inductive Gap (rest : List Char) : List Char → Prop
| blanks
    {blanks : List Char}
    (hBlanks : ∀ ch ∈ blanks, ch = ' ' ∨ ch = '\t' ∨ ch = '\r') :
    Gap rest blanks
| comment
    {blanks comment : List Char}
    (hBlanks : ∀ ch ∈ blanks, ch = ' ' ∨ ch = '\t' ∨ ch = '\r')
    (hComment : '\n' ∉ comment)
    (hLine : rest = [] ∨ rest.head? = some '\n') :
    Gap rest (blanks ++ '#' :: comment)

/-
  The lexemes that may stand before a rest, with their kinds and
  texts. A number, a word or an operator does not go on in the
  rest.
-/
inductive Stands (rest : List Char) :
    Kind → List Char → List Char → Prop
| newline : Stands rest .newline ['\n'] ['\n']
| string
    {text : List Char}
    (hText :
      ∀ ch ∈ text,
        ch ∉ ['\r', '\n', '\t', '\\', '%', '\x00', '"']) :
    Stands rest .string text ('"' :: text ++ ['"'])
| whole
    {digits : List Char}
    (hSome : digits ≠ [])
    (hDigits : ∀ ch ∈ digits, ch.isDigit = true)
    (hEnds : Ends Char.isDigit rest)
    (hPoint : rest.head? ≠ some '.') :
    Stands rest .number digits digits
| decimal
    {whole fraction : List Char}
    (hWhole : whole ≠ [])
    (hLeft : ∀ ch ∈ whole, ch.isDigit = true)
    (hFraction : fraction ≠ [])
    (hRight : ∀ ch ∈ fraction, ch.isDigit = true)
    (hEnds : Ends Char.isDigit rest) :
    Stands rest .number (whole ++ '.' :: fraction)
      (whole ++ '.' :: fraction)
| keyword
    {word : Keyword}
    (hEnds : Ends Char.isAlphanum rest) :
    Stands rest (.keyword word) word.spelling.toList
      word.spelling.toList
| ident
    {first : Char}
    {more : List Char}
    (hFirst : first.isAlpha = true)
    (hMore : ∀ ch ∈ more, ch.isAlphanum = true)
    (hFree :
      ∀ word : Keyword, word.spelling.toList ≠ first :: more)
    (hEnds : Ends Char.isAlphanum rest) :
    Stands rest .ident (first :: more) (first :: more)
| operator
    {sign : Operator}
    (hLongest :
      ∀ longer : Operator, ∀ ch ∈ rest.head?,
        longer.spelling.toList ≠ sign.spelling.toList ++ [ch]) :
    Stands rest (.operator sign) sign.spelling.toList
      sign.spelling.toList

/-
  The text splits into gaps and the lexemes of the tokens, from
  a line on. The end of input stands at the end of the text or
  at a NUL; what follows a NUL is not split.
-/
inductive Scans : Nat → List Char → List Token → Prop
| finish
    {line : Nat}
    {gap rest : List Char}
    (hGap : Gap rest gap)
    (hEnd : rest = [] ∨ rest.head? = some '\x00') :
    Scans line (gap ++ rest)
      [{ kind := .eof, text := "", line := line }]
| lexeme
    {line : Nat}
    {gap lexeme rest text : List Char}
    {kind : Kind}
    {tokens : List Token}
    (hGap : Gap (lexeme ++ rest) gap)
    (hLexeme : Stands rest kind text lexeme)
    (hMore : Scans (line + lexeme.count '\n') rest tokens) :
    Scans line (gap ++ (lexeme ++ rest))
      ({ kind := kind, text := String.ofList text, line := line } ::
        tokens)

------------------------------------------------------------
-- Runs of Characters
------------------------------------------------------------

variable {member : Char → Bool}
variable {body rest : List Char}

/- A run of a class is taken up to a rest that does not go on. -/
theorem takeWhile_ends
    (hBody : ∀ ch ∈ body, member ch = true)
    (hEnds : Ends member rest) :
    (body ++ rest).takeWhile member = body := by
  rw [List.takeWhile_append_of_pos hBody]
  cases rest with
  | nil => simp
  | cons ch more => simp [hEnds ch rfl]

/- What is left after the run is the rest. -/
theorem dropWhile_ends
    (hBody : ∀ ch ∈ body, member ch = true)
    (hEnds : Ends member rest) :
    (body ++ rest).dropWhile member = rest := by
  rw [List.dropWhile_append_of_pos hBody]
  cases rest with
  | nil => rfl
  | cons ch more => simp [hEnds ch rfl]

/- What is left after a run does not go on with it. -/
theorem ends_dropWhile
    (member : Char → Bool)
    (source : List Char) :
    Ends member (source.dropWhile member) := by
  intro ch hHead
  have hNot := List.head?_dropWhile_not member source
  rwa [hHead] at hNot

------------------------------------------------------------
-- Reading Gaps
------------------------------------------------------------

/- The blanks are spaces, tabs and carriage returns. -/
theorem isBlank_iff (ch : Char) :
    isBlank ch = true ↔ ch = ' ' ∨ ch = '\t' ∨ ch = '\r' := by
  simp [isBlank, or_assoc]

/- The text of a comment is all but line breaks. -/
theorem isCommentText_iff (ch : Char) :
    isCommentText ch = true ↔ ch ≠ '\n' := by
  simp [isCommentText]

/- What is read as a gap is one. -/
theorem gap_gap (source : List Char) :
    Gap (afterGap source) (gap source) := by
  have hBlanks :
      ∀ ch ∈ source.takeWhile isBlank,
        ch = ' ' ∨ ch = '\t' ∨ ch = '\r' := by
    intro ch hMember
    exact (isBlank_iff ch).mp (List.mem_takeWhile_imp hMember)
  unfold gap afterGap
  split
  · next comment _ =>
    refine .comment hBlanks ?_ ?_
    · intro hMember
      have hText := List.mem_takeWhile_imp hMember
      exact (isCommentText_iff '\n').mp hText rfl
    · have hEnds := ends_dropWhile isCommentText comment
      cases hRest : comment.dropWhile isCommentText with
      | nil => exact .inl rfl
      | cons ch more =>
          rw [hRest] at hEnds
          have hLine := hEnds ch rfl
          simp only [isCommentText, bne_eq_false_iff_eq] at hLine
          exact .inr (congrArg some hLine)
  · exact .blanks hBlanks

/- A gap has no line breaks. -/
theorem Gap.count_newline
    {gap : List Char}
    (hGap : Gap rest gap) :
    gap.count '\n' = 0 := by
  have hBlanks
      {blanks : List Char}
      (hAll : ∀ ch ∈ blanks, ch = ' ' ∨ ch = '\t' ∨ ch = '\r') :
      '\n' ∉ blanks := by
    intro hMember
    rcases hAll '\n' hMember with hBlank | hBlank | hBlank <;>
      cases hBlank
  rw [List.count_eq_zero]
  cases hGap with
  | blanks hAll => exact hBlanks hAll
  | comment hAll hComment _ =>
      intro hMember
      rcases List.mem_append.mp hMember with hIn | hIn
      · exact hBlanks hAll hIn
      · rcases List.mem_cons.mp hIn with hMark | hIn
        · cases hMark
        · exact hComment hIn

/- A gap is read up to a rest that goes on with no gap. -/
theorem afterGap_eq
    {gap : List Char}
    (hGap : Gap rest gap)
    (hBlank : Ends isBlank rest)
    (hMark : rest.head? ≠ some '#') :
    afterGap (gap ++ rest) = rest := by
  cases hGap with
  | blanks hAll =>
      have hRest :
          (gap ++ rest).dropWhile isBlank = rest :=
        dropWhile_ends
          (fun ch hCh => (isBlank_iff ch).mpr (hAll ch hCh))
          hBlank
      unfold afterGap
      rw [hRest]
      split
      · simp at hMark
      · rfl
  | @comment blanks comment hAll hComment hLine =>
      have hRest :
          (blanks ++ '#' :: (comment ++ rest)).dropWhile isBlank =
            '#' :: (comment ++ rest) :=
        dropWhile_ends
          (fun ch hCh => (isBlank_iff ch).mpr (hAll ch hCh))
          (fun ch hHead => by cases hHead; rfl)
      have hText :
          ∀ ch ∈ comment, isCommentText ch = true := by
        intro ch hCh
        rw [isCommentText_iff]
        intro hSame
        exact hComment (hSame ▸ hCh)
      have hEnds : Ends isCommentText rest := by
        intro ch hHead
        rcases hLine with hNil | hLine
        · subst hNil
          cases hHead
        · rw [hLine] at hHead
          cases hHead
          rfl
      rw [List.append_assoc, List.cons_append, afterGap, hRest]
      exact dropWhile_ends hText hEnds

------------------------------------------------------------
-- Reading Lexemes that Stand
------------------------------------------------------------

variable {kind : Kind}
variable {text lexeme : List Char}

/- From a digit on a number is read. -/
theorem read_of_isDigit
    {first : Char}
    (hDigit : first.isDigit = true)
    (more : List Char) :
    read (first :: more) = readNumber (first :: more) := by
  rw [read, if_neg, if_neg, if_neg, if_pos hDigit]
  all_goals
    rintro rfl
    cases hDigit

/- From a letter on a word is read. -/
theorem read_of_isAlpha
    {first : Char}
    (hAlpha : first.isAlpha = true)
    (more : List Char) :
    read (first :: more) = readWord (first :: more) := by
  rw [read, if_neg, if_neg, if_neg,
    if_neg (not_isDigit_of_isAlpha hAlpha), if_pos hAlpha]
  all_goals
    rintro rfl
    cases hAlpha

/- A string may hold what does not close it or is illegal. -/
theorem isStringText_iff (ch : Char) :
    isStringText ch = true ↔
      ch ∉ ['\r', '\n', '\t', '\\', '%', '\x00', '"'] := by
  have hPerm :
      stringStops.Perm
        ['\r', '\n', '\t', '\\', '%', '\x00', '"'] := by
    decide
  rw [← hPerm.mem_iff, isStringText]
  simp

/- A string is read up to its closing quote. -/
theorem read_string
    (hText : ∀ ch ∈ text, isStringText ch = true)
    (rest : List Char) :
    read ('"' :: text ++ ['"'] ++ rest) =
      .lexeme .string text rest := by
  have hEnds : Ends isStringText ('"' :: rest) := by
    intro ch hHead
    cases hHead
    rfl
  have hTake := takeWhile_ends hText hEnds
  have hDrop := dropWhile_ends hText hEnds
  rw [List.append_assoc, List.singleton_append, List.cons_append]
  change readString (text ++ '"' :: rest) = _
  rw [readString, hTake, hDrop]
  rfl

/- A number without a point is read to its last digit. -/
theorem readNumber_whole
    {digits : List Char}
    (hDigits : ∀ ch ∈ digits, ch.isDigit = true)
    (hEnds : Ends Char.isDigit rest)
    (hPoint : rest.head? ≠ some '.') :
    readNumber (digits ++ rest) =
      .lexeme .number digits rest := by
  rw [readNumber, takeWhile_ends hDigits hEnds,
    dropWhile_ends hDigits hEnds]
  split
  · simp at hPoint
  · rfl

/- A number with a point is read to its last digit. -/
theorem readNumber_decimal
    {whole fraction : List Char}
    (hLeft : ∀ ch ∈ whole, ch.isDigit = true)
    (hFraction : fraction ≠ [])
    (hRight : ∀ ch ∈ fraction, ch.isDigit = true)
    (hEnds : Ends Char.isDigit rest) :
    readNumber (whole ++ '.' :: fraction ++ rest) =
      .lexeme .number (whole ++ '.' :: fraction) rest := by
  have hPoint : Ends Char.isDigit ('.' :: (fraction ++ rest)) := by
    intro ch hHead
    cases hHead
    rfl
  have hSome : fraction.isEmpty = false := by
    simpa using hFraction
  rw [List.append_assoc, List.cons_append, readNumber,
    takeWhile_ends hLeft hPoint, dropWhile_ends hLeft hPoint]
  change (if List.isEmpty _ = true then _ else _) = _
  rw [takeWhile_ends hRight hEnds, dropWhile_ends hRight hEnds,
    hSome]
  rfl

/- A word is read to its last letter or digit. -/
theorem readWord_word
    {word : List Char}
    (hWord : ∀ ch ∈ word, ch.isAlphanum = true)
    (hEnds : Ends Char.isAlphanum rest) :
    readWord (word ++ rest) =
      .lexeme (Kind.ofWord (String.ofList word)) word rest := by
  rw [readWord, takeWhile_ends hWord hEnds,
    dropWhile_ends hWord hEnds]

end Lexeme

/- The spelling of a reserved word is that of no other. -/
theorem Keyword.ofSpelling?_spelling (word : Keyword) :
    ofSpelling? word.spelling = some word := by
  cases word <;> decide

/- A text is reserved if it is the spelling of a reserved word. -/
theorem Keyword.ofSpelling?_eq_none_iff (text : String) :
    ofSpelling? text = none ↔
      ∀ word : Keyword, word.spelling ≠ text := by
  rw [ofSpelling?, List.find?_eq_none]
  constructor
  · intro hNone word
    have hMember : word ∈ all := by
      cases word <;> decide
    simpa using hNone word hMember
  · intro hNone word _
    simpa using hNone word

namespace Lexeme

variable {rest : List Char}
variable {kind : Kind}
variable {text lexeme : List Char}

/- The characters of a reserved word are letters. -/
theorem exists_keyword_letters (word : Keyword) :
    ∃ first more,
      word.spelling.toList = first :: more ∧
        first.isAlpha = true ∧
          ∀ ch ∈ first :: more, ch.isAlphanum = true := by
  cases word <;>
    exact ⟨_, _, rfl, rfl, List.all_eq_true.mp rfl⟩

/-
  A sign that another may follow is alone unless `=` does follow
  it.
-/
theorem operatorAt?_single
    (ch : Char)
    (more : List Char) :
    operatorAt? ('=' :: ch :: more) =
        (bif '=' == ch && true then some .equal
          else some .assign) ∧
      operatorAt? ('<' :: ch :: more) =
        (bif '=' == ch && true then some .lessEqual
          else some .less) ∧
      operatorAt? ('>' :: ch :: more) =
        (bif '=' == ch && true then some .greaterEqual
          else some .greater) :=
  ⟨rfl, rfl, rfl⟩

/- An operator is read where no longer one stands. -/
theorem read_operator
    {sign : Operator}
    (hLongest :
      ∀ longer : Operator, ∀ ch ∈ rest.head?,
        longer.spelling.toList ≠ sign.spelling.toList ++ [ch]) :
    read (sign.spelling.toList ++ rest) =
      .lexeme (.operator sign) sign.spelling.toList rest := by
  have hSingle
      {longer : Operator}
      (hSpelling :
        longer.spelling.toList = sign.spelling.toList ++ ['='])
      {ch : Char}
      (hHead : rest.head? = some ch) :
      ('=' == ch && true) = false := by
    simp only [Bool.and_true, beq_eq_false_iff_ne, ne_eq]
    rintro rfl
    exact hLongest longer '=' hHead hSpelling
  cases sign with
  | assign =>
      cases rest with
      | nil => rfl
      | cons ch more =>
          change readSign '=' (ch :: more) = _
          rw [readSign, (operatorAt?_single ch more).1,
            @hSingle .equal rfl ch rfl]
          rfl
  | less =>
      cases rest with
      | nil => rfl
      | cons ch more =>
          change readSign '<' (ch :: more) = _
          rw [readSign, (operatorAt?_single ch more).2.1,
            @hSingle .lessEqual rfl ch rfl]
          rfl
  | greater =>
      cases rest with
      | nil => rfl
      | cons ch more =>
          change readSign '>' (ch :: more) = _
          rw [readSign, (operatorAt?_single ch more).2.2,
            @hSingle .greaterEqual rfl ch rfl]
          rfl
  | plus | minus | times | divide => rfl
  | equal | notEqual | lessEqual | greaterEqual => rfl

/- What stands before a rest is read as it stands. -/
theorem Stands.read_eq
    (hStands : Stands rest kind text lexeme) :
    read (lexeme ++ rest) = .lexeme kind text rest := by
  cases hStands with
  | newline => rfl
  | string hText =>
      exact
        read_string
          (fun ch hCh => (isStringText_iff ch).mpr (hText ch hCh))
          rest
  | whole hSome hDigits hEnds hPoint =>
      rcases List.exists_cons_of_ne_nil hSome with
        ⟨first, more, hText⟩
      have hFirst := hDigits first (by simp [hText])
      have hRead := readNumber_whole hDigits hEnds hPoint
      rw [hText] at hRead ⊢
      rw [← hRead]
      exact read_of_isDigit hFirst _
  | @decimal whole fraction hWhole hLeft hFraction hRight hEnds =>
      rcases List.exists_cons_of_ne_nil hWhole with
        ⟨first, more, hText⟩
      have hFirst := hLeft first (by simp [hText])
      have hRead :=
        readNumber_decimal hLeft hFraction hRight hEnds
      rw [hText] at hRead ⊢
      rw [← hRead]
      exact read_of_isDigit hFirst _
  | @keyword word hEnds =>
      rcases exists_keyword_letters word with
        ⟨first, more, hText, hFirst, hWord⟩
      have hRead := readWord_word hWord hEnds
      rw [← hText, String.ofList_toList, Kind.ofWord,
        Keyword.ofSpelling?_spelling] at hRead
      rw [← hRead, hText]
      exact read_of_isAlpha hFirst _
  | @ident first more hFirst hMore hFree hEnds =>
      have hWord :
          ∀ ch ∈ first :: more, ch.isAlphanum = true := by
        intro ch hCh
        rcases List.mem_cons.mp hCh with hSame | hIn
        · simp [hSame, Char.isAlphanum, hFirst]
        · exact hMore ch hIn
      have hNone :
          Keyword.ofSpelling? (String.ofList (first :: more)) =
            none := by
        rw [Keyword.ofSpelling?_eq_none_iff]
        intro word hSame
        apply hFree word
        rw [hSame, String.toList_ofList]
      have hRead := readWord_word hWord hEnds
      rw [Kind.ofWord, hNone] at hRead
      rw [← hRead]
      exact read_of_isAlpha hFirst _
  | operator hLongest => exact read_operator hLongest

------------------------------------------------------------
-- Lexemes that are Read
------------------------------------------------------------

variable {source : List Char}

/- A string that is read stands before what follows it. -/
theorem stands_of_readString
    (hRead : readString source = .lexeme kind text rest) :
    Stands rest kind text (kind.spell text) := by
  unfold readString at hRead
  split at hRead
  · cases hRead
  · split at hRead
    · cases hRead
      refine .string fun ch hCh => ?_
      exact (isStringText_iff ch).mp (List.mem_takeWhile_imp hCh)
    · split at hRead <;> cases hRead

/- A number that is read stands before what follows it. -/
theorem stands_of_readNumber
    {first : Char}
    {more : List Char}
    (hFirst : first.isDigit = true)
    (hRead :
      readNumber (first :: more) = .lexeme kind text rest) :
    Stands rest kind text (kind.spell text) := by
  have hSome : (first :: more).takeWhile Char.isDigit ≠ [] := by
    simp [List.takeWhile, hFirst]
  unfold readNumber at hRead
  split at hRead
  · dsimp only at hRead
    split at hRead
    · cases hRead
    · next hFraction =>
      cases hRead
      exact
        .decimal hSome (fun _ => List.mem_takeWhile_imp)
          (by simpa using hFraction)
          (fun _ => List.mem_takeWhile_imp)
          (ends_dropWhile _ _)
  · next hPoint =>
    cases hRead
    refine
      .whole hSome (fun _ => List.mem_takeWhile_imp)
        (ends_dropWhile _ _) ?_
    intro hHead
    rcases List.head?_eq_some_iff.mp hHead with ⟨after, hAfter⟩
    exact hPoint after hAfter

/- A word that is read stands before what follows it. -/
theorem stands_of_readWord
    {first : Char}
    {more : List Char}
    (hFirst : first.isAlpha = true)
    (hRead :
      readWord (first :: more) = .lexeme kind text rest) :
    Stands rest kind text (kind.spell text) := by
  have hWord :
      (first :: more).takeWhile Char.isAlphanum =
        first :: more.takeWhile Char.isAlphanum := by
    simp [List.takeWhile, Char.isAlphanum, hFirst]
  have hEnds := ends_dropWhile Char.isAlphanum (first :: more)
  unfold readWord at hRead
  rw [hWord] at hRead
  cases hRead
  unfold Kind.ofWord
  split
  · next word hReserved =>
    have hSpelling := List.find?_some hReserved
    rw [beq_iff_eq, ← String.toList_inj, String.toList_ofList]
      at hSpelling
    rw [← hSpelling]
    exact .keyword hEnds
  · next hNone =>
    refine .ident hFirst (fun _ => List.mem_takeWhile_imp) ?_ hEnds
    intro word hSame
    rw [Keyword.ofSpelling?_eq_none_iff] at hNone
    apply hNone word
    rw [← String.toList_inj, hSame, String.toList_ofList]

/- No operator that a text starts with is longer than the one read. -/
theorem length_le_of_operatorAt?
    {sign other : Operator}
    (hSign : operatorAt? source = some sign)
    (hOther : other.spelling.toList <+: source) :
    other.spelling.toList.length ≤
      sign.spelling.toList.length := by
  have hOrder :
      operatorsLongestFirst.Pairwise fun first second =>
        second.spelling.toList.length ≤
          first.spelling.toList.length := by
    decide
  have hMember : other ∈ operatorsLongestFirst := by
    cases other <;> decide
  rcases List.find?_eq_some_iff_append.mp hSign with
    ⟨_, before, after, hList, hBefore⟩
  rw [hList] at hOrder hMember
  rcases List.mem_append.mp hMember with hEarlier | hLater
  · have hNot := hBefore other hEarlier
    rw [List.isPrefixOf_iff_prefix.mpr hOther] at hNot
    cases hNot
  · rcases List.mem_cons.mp hLater with hSame | hIn
    · rw [hSame]
    · exact
        List.rel_of_pairwise_cons
          (List.pairwise_append.mp hOrder).2.1 hIn

/- An operator that is read stands before what follows it. -/
theorem stands_of_readSign
    {first : Char}
    {more : List Char}
    (hRead :
      readSign first more = .lexeme kind text rest) :
    Stands rest kind text (kind.spell text) := by
  unfold readSign at hRead
  split at hRead
  · next sign hSign =>
    cases hRead
    refine .operator ?_
    intro longer ch hHead hSpelling
    have hStart := List.find?_some hSign
    rw [List.isPrefixOf_iff_prefix] at hStart
    rcases hStart with ⟨after, hAfter⟩
    rw [← hAfter, List.drop_left' String.length_toList] at hHead
    have hLonger : longer.spelling.toList <+: first :: more := by
      rcases List.head?_eq_some_iff.mp hHead with ⟨tail, hTail⟩
      rw [hSpelling, ← hAfter, hTail]
      exact ⟨tail, by simp⟩
    have hLength := length_le_of_operatorAt? hSign hLonger
    rw [hSpelling, List.length_append, List.length_singleton]
      at hLength
    omega
  · split at hRead <;> cases hRead

/- What is read stands before what follows it. -/
theorem stands_of_read
    (hRead : read source = .lexeme kind text rest) :
    Stands rest kind text (kind.spell text) := by
  unfold read at hRead
  split at hRead
  · cases hRead
  · split at hRead
    · cases hRead
    · split at hRead
      · cases hRead
        exact .newline
      · split at hRead
        · exact stands_of_readString hRead
        · split at hRead
          · next hDigit => exact stands_of_readNumber hDigit hRead
          · split at hRead
            · next hAlpha => exact stands_of_readWord hAlpha hRead
            · exact stands_of_readSign hRead

/- A lexeme is written as its kind says. -/
theorem Stands.spell_eq
    (hStands : Stands rest kind text lexeme) :
    kind.spell text = lexeme := by
  cases hStands <;> rfl

/- A lexeme is read if and only if it stands before the rest. -/
theorem read_eq_lexeme_iff :
    read source = .lexeme kind text rest ↔
      Stands rest kind text (kind.spell text) ∧
        source = kind.spell text ++ rest := by
  constructor
  · intro hRead
    refine ⟨stands_of_read hRead, ?_⟩
    have hCovers := read_covers source
    rw [hRead] at hCovers
    cases hCovers with
    | lexeme _ _ hWhole => exact hWhole.symm
  · intro hSplit
    rw [hSplit.2]
    exact hSplit.1.read_eq

/- A lexeme starts with no character of a gap. -/
theorem Stands.exists_first
    (hStands : Stands rest kind text lexeme) :
    ∃ first more,
      lexeme = first :: more ∧ isBlank first = false ∧
        first ≠ '#' := by
  have hDigit {ch : Char} (hCh : ch.isDigit = true) :
      isBlank ch = false ∧ ch ≠ '#' := by
    constructor
    · rw [← Bool.not_eq_true, isBlank_iff]
      rintro (rfl | rfl | rfl) <;> cases hCh
    · rintro rfl
      cases hCh
  have hAlpha {ch : Char} (hCh : ch.isAlpha = true) :
      isBlank ch = false ∧ ch ≠ '#' := by
    constructor
    · rw [← Bool.not_eq_true, isBlank_iff]
      rintro (rfl | rfl | rfl) <;> cases hCh
    · rintro rfl
      cases hCh
  cases hStands with
  | newline => exact ⟨_, _, rfl, by decide, by decide⟩
  | string _ => exact ⟨_, _, rfl, by decide, by decide⟩
  | whole hSome hDigits _ _ =>
      rcases List.exists_cons_of_ne_nil hSome with
        ⟨first, more, rfl⟩
      exact ⟨_, _, rfl, hDigit (hDigits first List.mem_cons_self)⟩
  | decimal hSome hDigits _ _ _ =>
      rcases List.exists_cons_of_ne_nil hSome with
        ⟨first, more, rfl⟩
      exact ⟨_, _, rfl, hDigit (hDigits first List.mem_cons_self)⟩
  | @keyword word _ =>
      rcases exists_keyword_letters word with
        ⟨first, more, hText, hFirst, _⟩
      exact ⟨first, more, hText, hAlpha hFirst⟩
  | ident hFirst _ _ _ => exact ⟨_, _, rfl, hAlpha hFirst⟩
  | @operator sign _ =>
      cases sign <;> exact ⟨_, _, rfl, by decide, by decide⟩

/- A gap ends where the text does. -/
theorem afterGap_of_finish
    {gap : List Char}
    (hGap : Gap rest gap)
    (hEnd : rest = [] ∨ rest.head? = some '\x00') :
    afterGap (gap ++ rest) = rest := by
  apply afterGap_eq hGap
  · intro ch hHead
    rcases hEnd with hNil | hNul
    · simp [hNil] at hHead
    · rw [hNul] at hHead
      cases hHead
      rfl
  · rcases hEnd with hNil | hNul
    · simp [hNil]
    · simp [hNul]

/- A gap ends where a lexeme stands. -/
theorem Stands.afterGap_eq
    {gap : List Char}
    (hStands : Stands rest kind text lexeme)
    (hGap : Gap (lexeme ++ rest) gap) :
    afterGap (gap ++ (lexeme ++ rest)) = lexeme ++ rest := by
  rcases hStands.exists_first with
    ⟨first, more, hFirst, hBlank, hMark⟩
  apply Lexeme.afterGap_eq hGap
  · intro ch hHead
    rw [hFirst] at hHead
    cases hHead
    exact hBlank
  · rw [hFirst]
    simpa using hMark

/- A lexeme is no end of input. -/
theorem Stands.kind_ne_eof
    (hStands : Stands rest kind text lexeme) :
    kind ≠ .eof := by
  cases hStands <;> simp

end Lexeme

------------------------------------------------------------
-- Tokens and Splits
------------------------------------------------------------

namespace Cursor

open Lexeme

variable {c next : Cursor}
variable {token : Token}
variable {gap lexeme rest text : List Char}
variable {kind : Kind}

/- Before an end the end of input is supplied. -/
theorem nextToken_of_finish
    (hEntered : c.entered = [])
    (hAhead : c.ahead = gap ++ rest)
    (hGap : Gap rest gap)
    (hEnd : rest = [] ∨ rest.head? = some '\x00') :
    ∃ next,
      c.nextToken =
        (.ok { kind := .eof, text := "", line := c.line },
          next) := by
  have hAfter : afterGap c.ahead = rest := by
    rw [hAhead]
    exact afterGap_of_finish hGap hEnd
  have hRead : read rest = .finish :=
    read_eq_finish_iff.mpr hEnd
  have hLine : (Lexeme.gap c.ahead).count '\n' = 0 :=
    (gap_gap c.ahead).count_newline
  unfold nextToken
  rw [hEntered]
  dsimp only [pass]
  rw [hAfter, hRead, hLine]
  exact ⟨_, rfl⟩

/- Before a lexeme its token is supplied, and the rest is ahead. -/
theorem nextToken_of_stands
    (hEntered : c.entered = [])
    (hAhead : c.ahead = gap ++ (lexeme ++ rest))
    (hGap : Gap (lexeme ++ rest) gap)
    (hLexeme : Stands rest kind text lexeme) :
    ∃ position,
      c.nextToken =
        (.ok
            { kind := kind
              text := String.ofList text
              line := c.line },
          { ahead := rest
            entered := []
            position := position
            line := c.line + lexeme.count '\n' }) := by
  have hAfter : afterGap c.ahead = lexeme ++ rest := by
    rw [hAhead]
    exact hLexeme.afterGap_eq hGap
  have hLine : (Lexeme.gap c.ahead).count '\n' = 0 :=
    (gap_gap c.ahead).count_newline
  unfold nextToken
  rw [hEntered]
  dsimp only [pass]
  rw [hAfter, hLexeme.read_eq, hLine]
  dsimp only
  rw [hLexeme.spell_eq]
  exact ⟨_, rfl⟩

/- A token that is supplied is an end, or stands before the rest. -/
theorem split_of_nextToken
    (hEntered : c.entered = [])
    (hNext : c.nextToken = (.ok token, next)) :
    (token = { kind := .eof, text := "", line := c.line } ∧
        ∃ gap rest,
          c.ahead = gap ++ rest ∧ Gap rest gap ∧
            (rest = [] ∨ rest.head? = some '\x00')) ∨
      ∃ gap lexeme text,
        c.ahead = gap ++ (lexeme ++ next.ahead) ∧
          Gap (lexeme ++ next.ahead) gap ∧
            Stands next.ahead token.kind text lexeme ∧
              token.text = String.ofList text ∧
                token.line = c.line ∧
                  next.entered = [] ∧
                    next.line = c.line + lexeme.count '\n' := by
  have hWhole := gap_append_afterGap c.ahead
  have hGap := gap_gap c.ahead
  have hLine := hGap.count_newline
  unfold nextToken at hNext
  rw [hEntered] at hNext
  dsimp only [pass] at hNext
  cases hRead : read (afterGap c.ahead) with
  | finish =>
      rw [hRead, hLine] at hNext
      cases hNext
      exact
        .inl
          ⟨rfl, _, _, hWhole.symm, hGap,
            read_eq_finish_iff.mp hRead⟩
  | lexeme kind text rest =>
      rw [hRead, hLine] at hNext
      cases hNext
      rcases read_eq_lexeme_iff.mp hRead with ⟨hStands, hSplit⟩
      rw [hSplit] at hWhole hGap
      exact
        .inr
          ⟨_, _, _, hWhole.symm, hGap, hStands, rfl, rfl, rfl,
            rfl⟩
  | fault cause passed rest =>
      rw [hRead] at hNext
      cases hNext

/-
  A cursor between characters lists the tokens that the text
  ahead splits into. Each token is one step of the split.
-/
theorem lists_iff_scans
    {tokens : List Token}
    (hEntered : c.entered = []) :
    c.Lists tokens ↔ Scans c.line c.ahead tokens := by
  induction tokens generalizing c with
  | nil =>
      constructor
      · intro hLists
        rcases hLists.exists_cons with ⟨_, _, _, hNil, _⟩
        cases hNil
      · intro hScans
        generalize c.ahead = source at hScans
        cases hScans
  | cons token tokens ih =>
      constructor
      · intro hLists
        rcases hLists.exists_cons with
          ⟨first, next, more, hTokens, hNext, _⟩
        obtain ⟨rfl, rfl⟩ := List.cons.inj hTokens
        rcases split_of_nextToken hEntered hNext with
          ⟨hToken, gap, rest, hAhead, hGap, hEnd⟩ |
          ⟨gap, lexeme, text, hAhead, hGap, hStands, hText,
            hLine, hOpen, hNextLine⟩
        · have hEof : token.kind = .eof := by rw [hToken]
          have hAll := (lists_of_eof_iff hNext hEof).mp hLists
          rw [hAll, hToken, hAhead]
          exact .finish hGap hEnd
        · rcases
              (lists_of_open_iff hNext hStands.kind_ne_eof).mp
                hLists with
            ⟨later, hLater, hSame⟩
          obtain ⟨-, rfl⟩ := List.cons.inj hSame
          have hMore := (ih hOpen).mp hLater
          rw [hNextLine] at hMore
          rcases token with ⟨kind, tokenText, line⟩
          dsimp only at hStands hText hLine
          subst hText hLine
          rw [hAhead]
          exact .lexeme hGap hStands hMore
      · intro hScans
        generalize hAhead : c.ahead = source at hScans
        cases hScans with
        | finish hGap hEnd =>
            rcases
                nextToken_of_finish hEntered hAhead hGap hEnd
              with ⟨next, hNext⟩
            exact (lists_of_eof_iff hNext rfl).mpr rfl
        | lexeme hGap hLexeme hMore =>
            rcases
                nextToken_of_stands hEntered hAhead hGap hLexeme
              with ⟨position, hNext⟩
            exact
              (lists_of_open_iff hNext hLexeme.kind_ne_eof).mpr
                ⟨tokens, (ih rfl).mpr hMore, rfl⟩

/- The tokens of a program are those its closed text splits into. -/
theorem lists_start_iff
    (source : String)
    (tokens : List Token) :
    (start source).Lists tokens ↔
      Scans 1 (source.toList ++ ['\n']) tokens :=
  lists_iff_scans rfl

end Cursor

/-
  The scanner yields a list of tokens if and only if the text,
  closed by a line break, splits into gaps and their lexemes up
  to its end or a NUL.
-/
theorem tokenize_eq_ok_iff_scans
    (source : String)
    (tokens : List Token) :
    tokenize source = .ok tokens ↔
      Lexeme.Scans 1 (source.toList ++ ['\n']) tokens := by
  rw [tokenize_eq_ok_iff]
  exact Cursor.lists_iff_scans rfl

end TeenyC
