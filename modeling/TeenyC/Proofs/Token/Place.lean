import TeenyC.Proofs.Token.Scan
import TeenyC.Proofs.Tree.Leaf

/-
  Places between the lexemes of a text.

  The words of a text are read one by one, each behind a gap. At
  a place between two lexemes the words before it and those after
  it are apart: what may follow is what the last lexeme may stand
  before. Every line break up to the end is a lexeme.

  Key definitions include:
    * `Lexeme.Yields`
    * `Lexeme.Begins`

  Key theorems include:
    * `Lexeme.yields_gap_iff`
    * `Lexeme.Begins.yields_iff`
    * `Lexeme.Yields.begins_line`
    * `exists_tokenize_iff`
-/

namespace TeenyC

/- A word that breaks a line. -/
def Word.isBreak (word : Word) : Bool :=
  word.1 == .newline

namespace Lexeme

------------------------------------------------------------
-- Words of a Text
------------------------------------------------------------

/- The words that are read from a text, up to its end. -/
inductive Yields : List Char → List Word → Prop
| finish
    {source : List Char}
    (hRead : read (afterGap source) = .finish) :
    Yields source [Leaf.finish.word]
| lexeme
    {source text rest : List Char}
    {kind : Kind}
    {words : List Word}
    (hRead : read (afterGap source) = .lexeme kind text rest)
    (hMore : Yields rest words) :
    Yields source ((kind, String.ofList text) :: words)

/-
  A text with a rest behind it splits into gaps and the lexemes
  of the words, and ends with a lexeme.
-/
inductive Begins (rest : List Char) :
    List Char → List Word → Prop
| nil : Begins rest [] []
| lexeme
    {gap lexeme text before : List Char}
    {kind : Kind}
    {words : List Word}
    (hGap : Gap (lexeme ++ (before ++ rest)) gap)
    (hLexeme : Stands (before ++ rest) kind text lexeme)
    (hMore : Begins rest before words) :
    Begins rest (gap ++ (lexeme ++ before))
      ((kind, String.ofList text) :: words)

variable {source rest other gap : List Char}
variable {text lexeme before : List Char}
variable {kind : Kind}
variable {words all : List Word}

------------------------------------------------------------
-- Gaps before Words
------------------------------------------------------------

/- No gap goes on where a gap has ended. -/
theorem afterGap_head (source : List Char) :
    Ends isBlank (afterGap source) ∧
      (afterGap source).head? ≠ some '#' := by
  unfold afterGap
  split
  · next comment _ =>
    have hEnds := ends_dropWhile isCommentText comment
    constructor
    · intro ch hHead
      have hLine := hEnds ch hHead
      simp only [isCommentText, bne_eq_false_iff_eq] at hLine
      rw [hLine]
      rfl
    · intro hMark
      cases hEnds '#' hMark
  · next hMark =>
    refine ⟨ends_dropWhile isBlank source, ?_⟩
    intro hHead
    rcases List.head?_eq_some_iff.mp hHead with ⟨more, hMore⟩
    exact hMark more hMore

/- A gap before a gap is one with it. -/
theorem Gap.append
    {more : List Char}
    (hGap : Gap (more ++ rest) gap)
    (hMore : Gap rest more) :
    Gap rest (gap ++ more) := by
  cases hGap with
  | blanks hBlanks =>
      cases hMore with
      | blanks hOthers =>
          exact
            .blanks (List.forall_mem_append.mpr ⟨hBlanks, hOthers⟩)
      | comment hOthers hComment hLine =>
          rw [← List.append_assoc]
          exact
            .comment
              (List.forall_mem_append.mpr ⟨hBlanks, hOthers⟩)
              hComment hLine
  | comment hBlanks hComment hLine =>
      -- A comment leaves no room for a gap behind it.
      have hNil : more = [] := by
        cases more with
        | nil => rfl
        | cons ch later =>
            have hBreak : ch = '\n' := by
              simpa using hLine
            have hNone := List.count_eq_zero.mp hMore.count_newline
            exact absurd (by simp [hBreak]) hNone
      subst hNil
      rw [List.append_nil]
      exact .comment hBlanks hComment hLine

/- What follows a gap before a text is what follows its own gap. -/
theorem afterGap_of_gap
    (hGap : Gap rest gap) :
    afterGap (gap ++ rest) = afterGap rest := by
  have hHead := afterGap_head rest
  have hWhole := gap_append_afterGap rest
  have hBoth :
      Gap (afterGap rest) (gap ++ Lexeme.gap rest) := by
    apply Gap.append _ (gap_gap rest)
    rwa [hWhole]
  calc
    afterGap (gap ++ rest) =
        afterGap (gap ++ Lexeme.gap rest ++ afterGap rest) := by
      rw [List.append_assoc, hWhole]
    _ = afterGap rest := afterGap_eq hBoth hHead.1 hHead.2

/- What follows the gap of a text settles its words. -/
theorem Yields.of_afterGap
    (hYields : Yields source words)
    (hSame : afterGap other = afterGap source) :
    Yields other words := by
  cases hYields with
  | finish hRead => exact .finish (by rwa [hSame])
  | lexeme hRead hMore => exact .lexeme (by rwa [hSame]) hMore

/- A gap holds no words. -/
theorem yields_gap_iff
    (hGap : Gap rest gap) :
    Yields (gap ++ rest) words ↔ Yields rest words := by
  have hSame := afterGap_of_gap hGap
  constructor
  · intro hYields
    exact hYields.of_afterGap hSame.symm
  · intro hYields
    exact hYields.of_afterGap hSame

/- A lexeme is the first word of the text it starts. -/
theorem yields_lexeme_iff
    (hLexeme : Stands rest kind text lexeme) :
    Yields (lexeme ++ rest) words ↔
      ∃ later,
        Yields rest later ∧
          words = (kind, String.ofList text) :: later := by
  have hRead :
      read (afterGap (lexeme ++ rest)) =
        .lexeme kind text rest := by
    have hNone : Gap (lexeme ++ rest) [] := .blanks (by simp)
    have hAfter := hLexeme.afterGap_eq hNone
    rw [List.nil_append] at hAfter
    rw [hAfter, hLexeme.read_eq]
  constructor
  · intro hYields
    generalize lexeme ++ rest = source at hYields hRead
    cases hYields with
    | finish hOther =>
        rw [hRead] at hOther
        cases hOther
    | lexeme hOther hMore =>
        rw [hRead] at hOther
        cases hOther
        exact ⟨_, hMore, rfl⟩
  · intro hExists
    rcases hExists with ⟨later, hMore, hWords⟩
    rw [hWords]
    exact .lexeme hRead hMore

------------------------------------------------------------
-- Places between Lexemes
------------------------------------------------------------

/- A gap may stand before any rest that starts alike. -/
theorem Gap.of_head
    (hGap : Gap rest gap)
    (hHead : other.head? = rest.head?) :
    Gap other gap := by
  cases hGap with
  | blanks hBlanks => exact .blanks hBlanks
  | comment hBlanks hComment hLine =>
      rw [← List.head?_eq_none_iff, ← hHead,
        List.head?_eq_none_iff] at hLine
      exact .comment hBlanks hComment hLine

/- A lexeme may stand before any rest that starts alike. -/
theorem Stands.of_head
    (hStands : Stands rest kind text lexeme)
    (hHead : other.head? = rest.head?) :
    Stands other kind text lexeme := by
  have hEnds
      {member : Char → Bool}
      (hRest : Ends member rest) :
      Ends member other := by
    rwa [Ends, hHead]
  cases hStands with
  | newline => exact .newline
  | string hText => exact .string hText
  | whole hSome hDigits hRest hPoint =>
      exact .whole hSome hDigits (hEnds hRest) (hHead ▸ hPoint)
  | decimal hWhole hLeft hFraction hRight hRest =>
      exact .decimal hWhole hLeft hFraction hRight (hEnds hRest)
  | keyword hRest => exact .keyword (hEnds hRest)
  | ident hFirst hMore hFree hRest =>
      exact .ident hFirst hMore hFree (hEnds hRest)
  | operator hLongest => exact .operator (hHead ▸ hLongest)

/- The signs of operators, and the point of a number. -/
def lexemeSigns : List Char :=
  ['.', '=', '+', '-', '*', '/', '!', '<', '>']

/- An operator is written with these signs. -/
theorem mem_lexemeSigns (sign : Operator) :
    ∀ ch ∈ sign.spelling.toList, ch ∈ lexemeSigns := by
  cases sign <;> simp [Operator.spelling, lexemeSigns]

/- The characters that no lexeme goes on with. -/
def isParting (ch : Char) : Bool :=
  isBlank ch || ch == '#' || ch == '\n'

/- Lexemes are parted by blanks, comments and line breaks. -/
theorem isParting_iff (ch : Char) :
    isParting ch = true ↔
      ch = ' ' ∨ ch = '\t' ∨ ch = '\r' ∨ ch = '#' ∨ ch = '\n' := by
  simp [isParting, isBlank, or_assoc]

/- A lexeme may stand before what parts it from the next. -/
theorem Stands.of_parting
    {ch : Char}
    (hStands : Stands rest kind text lexeme)
    (hCh : isParting ch = true) :
    Stands (ch :: other) kind text lexeme := by
  rw [isParting_iff] at hCh
  have hEnds
      {member : Char → Bool}
      (hSpace : member ' ' = false)
      (hTab : member '\t' = false)
      (hReturn : member '\r' = false)
      (hMark : member '#' = false)
      (hBreak : member '\n' = false) :
      Ends member (ch :: other) := by
    intro first hHead
    cases hHead
    rcases hCh with hCh | hCh | hCh | hCh | hCh <;>
      · rw [hCh]
        assumption
  cases hStands with
  | newline => exact .newline
  | string hText => exact .string hText
  | whole hSome hDigits _ _ =>
      refine .whole hSome hDigits (hEnds rfl rfl rfl rfl rfl) ?_
      intro hPoint
      cases hPoint
      simp at hCh
  | decimal hWhole hLeft hFraction hRight _ =>
      exact
        .decimal hWhole hLeft hFraction hRight
          (hEnds rfl rfl rfl rfl rfl)
  | keyword _ => exact .keyword (hEnds rfl rfl rfl rfl rfl)
  | ident hFirst hMore hFree _ =>
      exact .ident hFirst hMore hFree (hEnds rfl rfl rfl rfl rfl)
  | @operator sign _ =>
      apply Stands.operator
      intro longer first hHead hLonger
      cases hHead
      have hSign : ch ∈ lexemeSigns :=
        mem_lexemeSigns longer ch (by simp [hLonger])
      rcases hCh with hCh | hCh | hCh | hCh | hCh <;>
        · rw [hCh] at hSign
          exact absurd hSign (by decide)

/-
  A lexeme is a line break or a string, or is written with
  letters, digits and signs.
-/
theorem Stands.mem_cases
    {ch : Char}
    (hStands : Stands rest kind text lexeme)
    (hCh : ch ∈ lexeme) :
    kind = .newline ∧ ch = '\n' ∨ kind = .string ∨
      ch.isAlphanum = true ∨ ch ∈ lexemeSigns := by
  have hDigit
      {digits : List Char}
      (hDigits : ∀ ch ∈ digits, ch.isDigit = true)
      (hIn : ch ∈ digits) :
      ch.isAlphanum = true := by
    simp [Char.isAlphanum, hDigits ch hIn]
  cases hStands with
  | newline => exact .inl ⟨rfl, List.mem_singleton.mp hCh⟩
  | string _ => exact .inr (.inl rfl)
  | whole _ hDigits _ _ =>
      exact .inr (.inr (.inl (hDigit hDigits hCh)))
  | decimal _ hLeft _ hRight _ =>
      rcases List.mem_append.mp hCh with hIn | hIn
      · exact .inr (.inr (.inl (hDigit hLeft hIn)))
      · rcases List.mem_cons.mp hIn with hPoint | hIn
        · exact .inr (.inr (.inr (by simp [hPoint, lexemeSigns])))
        · exact .inr (.inr (.inl (hDigit hRight hIn)))
  | @keyword word _ =>
      rcases exists_keyword_letters word with
        ⟨first, more, hText, _, hLetters⟩
      rw [hText] at hCh
      exact .inr (.inr (.inl (hLetters ch hCh)))
  | ident hFirst hMore _ _ =>
      rcases List.mem_cons.mp hCh with hSame | hIn
      · rw [hSame]
        exact
          .inr (.inr (.inl (by simp [Char.isAlphanum, hFirst])))
      · exact .inr (.inr (.inl (hMore ch hIn)))
  | @operator sign _ =>
      exact .inr (.inr (.inr (mem_lexemeSigns sign ch hCh)))

/- A lexeme with a line break is one. -/
theorem Stands.eq_newline
    (hStands : Stands rest kind text lexeme)
    (hBreak : '\n' ∈ lexeme) :
    kind = .newline ∧ text = ['\n'] ∧ lexeme = ['\n'] := by
  rcases hStands.mem_cases hBreak with
    ⟨hKind, _⟩ | hString | hLetter | hSign
  · subst hKind
    cases hStands with
    | newline => exact ⟨rfl, rfl, rfl⟩
  · subst hString
    cases hStands with
    | @string text hText =>
        have hMember : '\n' ∈ text := by simpa using hBreak
        exact absurd (by simp) (hText '\n' hMember)
  · cases hLetter
  · exact absurd hSign (by decide)

namespace Begins

/- The words of the text stand before those of the rest. -/
theorem yields_iff
    (hBegins : Begins rest before words) :
    Yields (before ++ rest) all ↔
      ∃ later, Yields rest later ∧ all = words ++ later := by
  induction hBegins generalizing all with
  | nil => simp
  | @lexeme gap lexeme text before kind words hGap hLexeme _ ih =>
      rw [List.append_assoc, List.append_assoc,
        yields_gap_iff hGap, yields_lexeme_iff hLexeme]
      constructor
      · intro hExists
        rcases hExists with ⟨more, hMore, hAll⟩
        rcases ih.mp hMore with ⟨later, hLater, hWords⟩
        exact ⟨later, hLater, by rw [hAll, hWords]; rfl⟩
      · intro hExists
        rcases hExists with ⟨later, hLater, hAll⟩
        have hMore := ih.mpr ⟨later, hLater, rfl⟩
        exact ⟨words ++ later, hMore, hAll⟩

/- The rest may be another that the last lexeme stands before. -/
theorem of_stands
    (hBegins : Begins rest before words)
    (hLast :
      ∀ kind text lexeme,
        (kind, String.ofList text) ∈ words.getLast? →
          Stands rest kind text lexeme →
            Stands other kind text lexeme) :
    Begins other before words := by
  induction hBegins with
  | nil => exact .nil
  | @lexeme gap lexeme text before kind words hGap hLexeme hMore
      ih =>
      -- Only the last lexeme stands right before the rest.
      have hStands : Stands (before ++ other) kind text lexeme := by
        cases hMore with
        | nil => exact hLast kind text lexeme rfl hLexeme
        | lexeme _ hNext _ =>
            rcases hNext.exists_first with
              ⟨first, more, hFirst, _⟩
            apply hLexeme.of_head
            rw [hFirst]
            cases gap <;> simp
      refine .lexeme ?_ hStands (ih ?_)
      · rcases hLexeme.exists_first with ⟨first, more, hFirst, _⟩
        apply hGap.of_head
        rw [hFirst]
        rfl
      · intro kind' text' lexeme' hWord
        apply hLast
        cases words with
        | nil => cases hWord
        | cons word words => exact hWord

/- A gap may be put in behind a lexeme. -/
theorem of_gap
    (hBegins : Begins rest before words)
    (hGap : Gap rest gap) :
    Begins (gap ++ rest) before words := by
  cases gap with
  | nil => exact hBegins
  | cons ch more =>
      apply hBegins.of_stands
      intro kind text lexeme _ hStands
      apply hStands.of_parting
      rw [isParting, Bool.or_assoc, Bool.or_eq_true_iff]
      generalize hWhole : ch :: more = whole at hGap
      cases hGap with
      | blanks hBlanks =>
          rw [← hWhole] at hBlanks
          exact .inl ((isBlank_iff ch).mpr (hBlanks ch (by simp)))
      | @comment blanks comment hBlanks _ _ =>
          cases blanks with
          | nil =>
              cases hWhole
              exact .inr rfl
          | cons first blanks =>
              cases hWhole
              exact
                .inl ((isBlank_iff ch).mpr (hBlanks ch (by simp)))

/- Anything may follow where a line starts. -/
theorem of_start
    (hBegins : Begins rest before words)
    (hStart : ∀ word ∈ words.getLast?, word.isBreak = true)
    (other : List Char) :
    Begins other before words := by
  apply hBegins.of_stands
  intro kind text lexeme hWord hStands
  have hKind : kind = .newline := by
    simpa [Word.isBreak] using hStart _ hWord
  subst hKind
  cases hStands with
  | newline => exact .newline

/- A line without lexemes holds a line break. -/
theorem yields_line_iff
    (hBegins : Begins rest before words)
    (hStart : ∀ word ∈ words.getLast?, word.isBreak = true)
    (hGap : Gap ('\n' :: rest) gap) :
    Yields (before ++ (gap ++ '\n' :: rest)) all ↔
      ∃ later,
        Yields rest later ∧
          all = words ++ Leaf.newline.word :: later := by
  have hPlace := hBegins.of_start hStart (gap ++ '\n' :: rest)
  have hBreak : Stands rest .newline ['\n'] ['\n'] := .newline
  rw [hPlace.yields_iff]
  constructor
  · intro hExists
    rcases hExists with ⟨more, hMore, hAll⟩
    rw [yields_gap_iff hGap, ← List.singleton_append,
      yields_lexeme_iff hBreak] at hMore
    rcases hMore with ⟨later, hLater, hWords⟩
    exact ⟨later, hLater, by rw [hAll, hWords]; rfl⟩
  · intro hExists
    rcases hExists with ⟨later, hLater, hAll⟩
    refine ⟨Leaf.newline.word :: later, ?_, hAll⟩
    rw [yields_gap_iff hGap, ← List.singleton_append,
      yields_lexeme_iff hBreak]
    exact ⟨later, hLater, rfl⟩

end Begins

/- The gap before a text with a line break ends before the break. -/
theorem exists_afterGap
    {body tail : List Char}
    (hSource : body ++ '\n' :: tail = source) :
    ∃ more,
      body = Lexeme.gap source ++ more ∧
        afterGap source = more ++ '\n' :: tail := by
  have hNone :=
    List.count_eq_zero.mp (gap_gap source).count_newline
  have hWhole := gap_append_afterGap source
  rw [← hSource] at hWhole
  rcases List.append_eq_append_iff.mp hWhole with
    ⟨more, hBody, hAfter⟩ | ⟨excess, hGap, hExcess⟩
  · rw [hSource] at hBody hAfter
    exact ⟨more, hBody, hAfter⟩
  · rw [hSource] at hGap hExcess
    cases excess with
    | nil => exact ⟨[], by simp [hGap], hExcess.symm⟩
    | cons ch excess =>
        cases hExcess
        exact absurd (by simp [hGap]) hNone

/- A line break stands behind a lexeme, or is one. -/
theorem Stands.split_line
    {more tail : List Char}
    (hStands : Stands rest kind text lexeme)
    (hWhole : more ++ '\n' :: tail = lexeme ++ rest) :
    (∃ later,
        more = lexeme ++ later ∧ rest = later ++ '\n' :: tail) ∨
      more = [] ∧ kind = .newline ∧ text = ['\n'] ∧
        rest = tail := by
  rcases List.append_eq_append_iff.mp hWhole with
    ⟨excess, hLexeme, hExcess⟩ | ⟨later, hMore, hRest⟩
  · cases excess with
    | nil => exact .inl ⟨[], by simp [hLexeme], hExcess.symm⟩
    | cons ch excess =>
        cases hExcess
        rcases hStands.eq_newline (by simp [hLexeme]) with
          ⟨hKind, hText, hBreak⟩
        rw [hBreak] at hLexeme
        cases more with
        | nil =>
            cases hLexeme
            exact .inr ⟨rfl, hKind, hText, rfl⟩
        | cons first more => simp at hLexeme
  · exact .inl ⟨later, hMore, hRest⟩

/-
  A line break that is reached ends a line. Up to it the words
  are read one by one, and none holds it but the last.
-/
theorem Yields.begins_line
    {body tail : List Char}
    (hYields : Yields (body ++ '\n' :: tail) all)
    (hNul : '\x00' ∉ body) :
    ∃ words,
      Begins tail (body ++ ['\n'])
        (words ++ [Leaf.newline.word]) := by
  generalize hSource : body ++ '\n' :: tail = source at hYields
  induction hYields generalizing body with
  | @finish source hRead =>
      rcases exists_afterGap hSource with ⟨more, hBody, hMore⟩
      rcases read_eq_finish_iff.mp hRead with hNil | hEnd
      · simp [hNil] at hMore
      · rw [hMore] at hEnd
        cases more with
        | nil => simp at hEnd
        | cons ch later =>
            cases hEnd
            exact absurd (by simp [hBody]) hNul
  | @lexeme source text rest kind words hRead _ ih =>
      rcases exists_afterGap hSource with ⟨more, hBody, hMore⟩
      rcases read_eq_lexeme_iff.mp hRead with ⟨hStands, hWhole⟩
      have hGap := gap_gap source
      rw [hWhole] at hGap
      rw [hMore] at hWhole
      rcases hStands.split_line hWhole with
        ⟨later, hLater, hRest⟩ | ⟨hNil, hKind, hText, hRest⟩
      · have hFree : '\x00' ∉ later := by
          intro hMember
          exact hNul (by simp [hBody, hLater, hMember])
        rcases ih hFree hRest.symm with ⟨earlier, hBegins⟩
        refine ⟨(kind, String.ofList text) :: earlier, ?_⟩
        have hSame : rest = later ++ ['\n'] ++ tail := by
          simp [hRest]
        rw [hSame] at hGap hStands
        rw [hBody, hLater, List.append_assoc, List.append_assoc]
        exact .lexeme hGap hStands hBegins
      · subst hKind hText hRest
        refine ⟨[], ?_⟩
        rw [hBody, hNil, List.append_nil]
        exact .lexeme hGap .newline .nil

------------------------------------------------------------
-- Tokens of a Text
------------------------------------------------------------

/- The tokens that a text splits into are read from it. -/
theorem Scans.yields
    {line : Nat}
    {tokens : List Token}
    (hScans : Scans line source tokens) :
    Yields source (tokens.map Token.word) := by
  induction hScans with
  | @finish line gap rest hGap hEnd =>
      apply Yields.finish
      rw [afterGap_of_finish hGap hEnd]
      exact read_eq_finish_iff.mpr hEnd
  | @lexeme line gap lexeme rest text kind tokens hGap hLexeme _
      ih =>
      apply Yields.lexeme _ ih
      rw [hLexeme.afterGap_eq hGap, hLexeme.read_eq]

/- The text splits into the words that are read, from any line. -/
theorem Yields.exists_scans
    {words : List Word}
    (hYields : Yields source words)
    (line : Nat) :
    ∃ tokens,
      Scans line source tokens ∧
        tokens.map Token.word = words := by
  induction hYields generalizing line with
  | @finish source hRead =>
      have hScans :=
        @Scans.finish line _ _ (gap_gap source)
          (read_eq_finish_iff.mp hRead)
      rw [gap_append_afterGap] at hScans
      exact ⟨_, hScans, rfl⟩
  | @lexeme source text rest kind words hRead _ ih =>
      rcases read_eq_lexeme_iff.mp hRead with ⟨hStands, hWhole⟩
      have hGap := gap_gap source
      rw [hWhole] at hGap
      rcases ih (line + (kind.spell text).count '\n') with
        ⟨tokens, hMore, hWords⟩
      have hScans := Scans.lexeme hGap hStands hMore
      rw [← hWhole, gap_append_afterGap] at hScans
      exact ⟨_, hScans, by simp [hWords, Token.word]⟩

end Lexeme

/- The words of a text are those that its tokens are. -/
theorem exists_tokenize_iff
    (source : String)
    (words : List Word) :
    (∃ tokens,
        tokenize source = .ok tokens ∧
          tokens.map Token.word = words) ↔
      Lexeme.Yields (source.toList ++ ['\n']) words := by
  constructor
  · intro hExists
    rcases hExists with ⟨tokens, hTokens, hWords⟩
    rw [tokenize_eq_ok_iff, Cursor.lists_start_iff] at hTokens
    rw [← hWords]
    exact hTokens.yields
  · intro hYields
    rcases hYields.exists_scans 1 with ⟨tokens, hScans, hWords⟩
    rw [← Cursor.lists_start_iff, ← tokenize_eq_ok_iff] at hScans
    exact ⟨tokens, hScans, hWords⟩

end TeenyC
