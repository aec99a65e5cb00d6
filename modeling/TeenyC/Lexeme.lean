import TeenyC.Diagnostic

/-
  The reading of one lexeme from the characters that follow.

  A gap of blanks and at most one comment stands before a
  lexeme. The lexeme itself is the longest that the characters
  allow: a sign of two characters before a sign of one, a word
  or a number to its last character.

  Key definitions include:
    * `Lexeme.gap`
    * `Lexeme.afterGap`
    * `Lexeme.Reading`
    * `Lexeme.read`

  That no character is lost is stated by:
    * `Lexeme.gap_append_afterGap`
    * `Lexeme.read_covers`
-/

namespace TeenyC

namespace Lexeme

------------------------------------------------------------
-- Gaps
------------------------------------------------------------

/- The characters that only separate lexemes of one line. -/
def isBlank (ch : Char) : Bool :=
  ch == ' ' || ch == '\t' || ch == '\r'

/- A comment lasts until the end of its line. -/
def isCommentText (ch : Char) : Bool :=
  ch != '\n'

/- The blanks, and the comment after them, before a lexeme. -/
def gap (source : List Char) : List Char :=
  let blanks := source.takeWhile isBlank
  match source.dropWhile isBlank with
  | '#' :: comment =>
      blanks ++ '#' :: comment.takeWhile isCommentText
  | _ => blanks

/- What follows the gap. -/
def afterGap (source : List Char) : List Char :=
  match source.dropWhile isBlank with
  | '#' :: comment => comment.dropWhile isCommentText
  | rest => rest

/- The gap and what follows it are the whole. -/
theorem gap_append_afterGap
    (source : List Char) :
    gap source ++ afterGap source = source := by
  unfold gap afterGap
  have hBlanks :=
    List.takeWhile_append_dropWhile
      (p := isBlank) (l := source)
  split
  · next comment hRest =>
    rw [hRest] at hBlanks
    simpa [List.append_assoc,
      List.takeWhile_append_dropWhile] using hBlanks
  · exact hBlanks

------------------------------------------------------------
-- Readings
------------------------------------------------------------

/-
  What stands after a gap: the end of the input, which a NUL
  also marks; a lexeme and what follows it; or a fault, with
  the characters passed before it was noticed.
-/
inductive Reading where
| finish
| lexeme (kind : Kind) (text rest : List Char)
| fault (cause : LexCause) (passed rest : List Char)

/- The characters that close a string, or that no string may hold. -/
def stringStops : List Char :=
  ['"', '\x00', '\r', '\n', '\t', '\\', '%']

/- The characters that a string may hold. -/
def isStringText (ch : Char) : Bool :=
  !stringStops.contains ch

/- Read a string whose opening quote has been passed. -/
def readString (source : List Char) : Reading :=
  let text := source.takeWhile isStringText
  match source.dropWhile isStringText with
  | [] => .fault .unterminatedString ('"' :: text) []
  | ch :: rest =>
      if ch = '"' then .lexeme .string text rest
      else if ch = '\x00' then
        .fault .unterminatedString ('"' :: text) (ch :: rest)
      else
        .fault (.illegalInString ch) ('"' :: text) (ch :: rest)

/- Read a number, whose point must have digits on both sides. -/
def readNumber (source : List Char) : Reading :=
  let whole := source.takeWhile Char.isDigit
  match source.dropWhile Char.isDigit with
  | '.' :: rest =>
      let fraction := rest.takeWhile Char.isDigit
      if fraction.isEmpty then
        .fault
          (.bareFraction (String.ofList (whole ++ ['.'])))
          whole ('.' :: rest)
      else
        .lexeme .number (whole ++ '.' :: fraction)
          (rest.dropWhile Char.isDigit)
  | rest => .lexeme .number whole rest

/- Read a word, reserved or not. -/
def readWord (source : List Char) : Reading :=
  let word := source.takeWhile Char.isAlphanum
  .lexeme (Kind.ofWord (String.ofList word)) word
    (source.dropWhile Char.isAlphanum)

/- The operators with those of two signs first. -/
def operatorsLongestFirst : List Operator :=
  [.equal, .notEqual, .lessEqual, .greaterEqual,
    .assign, .less, .greater, .plus, .minus, .times, .divide]

/- The longest operator at the start of a text. -/
def operatorAt? (source : List Char) : Option Operator :=
  operatorsLongestFirst.find? fun sign =>
    sign.spelling.toList.isPrefixOf source

/- Read a sign, or find that nothing can be read. -/
def readSign
    (first : Char)
    (rest : List Char) : Reading :=
  match operatorAt? (first :: rest) with
  | some sign =>
      .lexeme (.operator sign) sign.spelling.toList
        ((first :: rest).drop sign.spelling.length)
  | none =>
      if first = '!' then
        .fault (.loneBang (rest.headD '\x00')) [] (first :: rest)
      else
        .fault (.unknown first) [] (first :: rest)

/- Read what stands after a gap. -/
def read (source : List Char) : Reading :=
  match source with
  | [] => .finish
  | first :: rest =>
      if first = '\x00' then .finish
      else if first = '\n' then .lexeme .newline ['\n'] rest
      else if first = '"' then readString rest
      else if first.isDigit then readNumber (first :: rest)
      else if first.isAlpha then readWord (first :: rest)
      else readSign first rest

------------------------------------------------------------
-- Readings Cover Their Source
------------------------------------------------------------

/-
  A reading covers its source when what was read and what
  follows it are the whole, and a lexeme has some character.
-/
inductive Reading.Covers (source : List Char) : Reading → Prop
| finish : Covers source .finish
| lexeme
    {kind : Kind}
    {text rest : List Char}
    (hKind : kind ≠ .eof)
    (hSome : kind.spell text ≠ [])
    (hWhole : kind.spell text ++ rest = source) :
    Covers source (.lexeme kind text rest)
| fault
    {cause : LexCause}
    {passed rest : List Char}
    (hWhole : passed ++ rest = source) :
    Covers source (.fault cause passed rest)

/- A string read after its quote covers the quote too. -/
theorem readString_covers
    (source : List Char) :
    (readString source).Covers ('"' :: source) := by
  have hWhole :=
    List.takeWhile_append_dropWhile
      (p := isStringText) (l := source)
  unfold readString
  split
  · next hRest =>
    rw [hRest] at hWhole
    exact .fault (by simpa using hWhole)
  · next ch rest hRest =>
    rw [hRest] at hWhole
    split
    · next hQuote =>
      subst hQuote
      exact .lexeme (by simp) (by simp [Kind.spell])
        (by simpa [Kind.spell] using hWhole)
    · split <;> exact .fault (by simpa using hWhole)

/- A number read from a digit on covers its source. -/
theorem readNumber_covers
    {first : Char}
    (hFirst : first.isDigit = true)
    (rest : List Char) :
    (readNumber (first :: rest)).Covers (first :: rest) := by
  have hWhole :=
    List.takeWhile_append_dropWhile
      (p := Char.isDigit) (l := first :: rest)
  have hSome :
      (first :: rest).takeWhile Char.isDigit ≠ [] := by
    simp [List.takeWhile, hFirst]
  unfold readNumber
  split
  · next after hAfter =>
    rw [hAfter] at hWhole
    dsimp only
    split
    · exact .fault hWhole
    · refine .lexeme (by simp) (by simp [Kind.spell]) ?_
      rw [Kind.spell_of_ne_string (by simp),
        List.append_assoc, List.cons_append,
        List.takeWhile_append_dropWhile]
      exact hWhole
  · exact .lexeme (by simp) hSome hWhole

/- A word read from a letter on covers its source. -/
theorem readWord_covers
    {first : Char}
    (hFirst : first.isAlphanum = true)
    (rest : List Char) :
    (readWord (first :: rest)).Covers (first :: rest) := by
  have hWord :
      (first :: rest).takeWhile Char.isAlphanum ≠ [] := by
    simp [List.takeWhile, hFirst]
  unfold readWord
  refine .lexeme (Kind.ofWord_ne_eof _) ?_ ?_
  · rwa [Kind.spell_of_ne_string (Kind.ofWord_ne_string _)]
  · rw [Kind.spell_of_ne_string (Kind.ofWord_ne_string _)]
    exact List.takeWhile_append_dropWhile

/- A sign covers its source. -/
theorem readSign_covers
    (first : Char)
    (rest : List Char) :
    (readSign first rest).Covers (first :: rest) := by
  unfold readSign
  split
  · next sign hSign =>
    have hStart := List.find?_some hSign
    rw [List.isPrefixOf_iff_prefix] at hStart
    obtain ⟨after, hAfter⟩ := hStart
    refine .lexeme (by simp) ?_ ?_
    · cases sign <;> simp [Kind.spell, Operator.spelling]
    · rw [Kind.spell_of_ne_string (by simp), ← hAfter,
        List.drop_left' String.length_toList]
  · split <;> exact .fault rfl

/- Reading loses no character. -/
theorem read_covers
    (source : List Char) :
    (read source).Covers source := by
  unfold read
  split
  · exact .finish
  · next first rest =>
    split
    · exact .finish
    · split
      · next hLine =>
        subst hLine
        exact .lexeme (by simp) (by simp [Kind.spell])
          (by simp [Kind.spell])
      · split
        · next hQuote =>
          subst hQuote
          exact readString_covers rest
        · split
          · next hDigit => exact readNumber_covers hDigit rest
          · split
            · next hAlpha =>
              exact readWord_covers
                (by simp [Char.isAlphanum, hAlpha]) rest
            · exact readSign_covers first rest

end Lexeme

end TeenyC
