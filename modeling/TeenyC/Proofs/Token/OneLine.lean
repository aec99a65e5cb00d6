import TeenyC.Proofs.Token.Spelled

/-
  Texts that stay on one line.

  A text stays on one line if it holds no line break, carriage
  return, tab or NUL. Escaped characters do, since each of these
  four has an escape of its own. So does the text of every token
  but a line break: names, numbers and operators are made of other
  characters, and strings may hold none of the four.

  Key definitions include:
    * `Text.lineControls`
    * `Text.OnOneLine`

  Key theorems include:
    * `Text.onOneLine_quotedChar`
    * `Lexeme.Fits.notMem_lineControls`
    * `Token.Spelled.onOneLine`
    * `Token.Spelled.onOneLine_describe`
    * `Cursor.onOneLine_of_fault`
-/

namespace TeenyC

------------------------------------------------------------
-- Texts
------------------------------------------------------------

namespace Text

/- The characters that a text on one line does not hold. -/
def lineControls : List Char :=
  ['\n', '\r', '\t', '\x00']

/- A text that stays on one line. -/
def OnOneLine (text : String) : Prop :=
  ∀ ch ∈ text.toList, ch ∉ lineControls

/- Whether a text stays on one line can be checked. -/
instance decidableOnOneLine (text : String) :
    Decidable (OnOneLine text) :=
  List.decidableBAll (· ∉ lineControls) text.toList

/- Texts that are joined stay on one line if each does. -/
@[simp]
theorem onOneLine_append_iff
    (first more : String) :
    OnOneLine (first ++ more) ↔
      OnOneLine first ∧ OnOneLine more := by
  simp only [OnOneLine, String.toList_append,
    List.forall_mem_append]

/- The text of a list of characters, by the characters. -/
theorem onOneLine_ofList_iff
    (text : List Char) :
    OnOneLine (String.ofList text) ↔
      ∀ ch ∈ text, ch ∉ lineControls := by
  rw [OnOneLine, String.toList_ofList]

/- The text has no line break. -/
theorem OnOneLine.break_notMem
    {text : String}
    (hText : OnOneLine text) :
    '\n' ∉ text.toList :=
  fun hBreak => hText '\n' hBreak (by decide)

/- Letters and digits stay on one line. -/
theorem notMem_lineControls_of_isAlphanum
    {ch : Char}
    (hAlphanum : ch.isAlphanum = true) :
    ch ∉ lineControls := by
  intro hControl
  simp only [lineControls, List.mem_cons, List.not_mem_nil,
    or_false] at hControl
  rcases hControl with rfl | rfl | rfl | rfl <;> cases hAlphanum

/- Digits stay on one line. -/
theorem notMem_lineControls_of_isDigit
    {ch : Char}
    (hDigit : ch.isDigit = true) :
    ch ∉ lineControls :=
  notMem_lineControls_of_isAlphanum (by simp [Char.isAlphanum, hDigit])

/- A number is written on one line. -/
theorem onOneLine_toString (number : Nat) :
    OnOneLine (toString number) := by
  intro ch hCh
  rw [Nat.toString_eq_repr, Nat.toList_repr] at hCh
  exact
    notMem_lineControls_of_isDigit
      (Nat.isDigit_of_mem_toDigits (by decide) (by decide) hCh)

------------------------------------------------------------
-- Escapes
------------------------------------------------------------

/- The digits of a number below sixteen are letters and digits. -/
theorem notMem_lineControls_digitChar
    {digit : Nat}
    (hDigit : digit < 16) :
    digit.digitChar ∉ lineControls := by
  revert digit
  decide

/- A number in hexadecimal stays on one line. -/
theorem notMem_lineControls_of_mem_hexadecimal
    (number : Nat) :
    ∀ ch ∈ Nat.toDigits 16 number, ch ∉ lineControls := by
  induction number using Nat.strongRecOn with
  | ind number ih =>
      by_cases hSmall : number < 16
      · rw [Nat.toDigits_of_lt_base hSmall]
        simpa using notMem_lineControls_digitChar hSmall
      · rw [Nat.toDigits_of_base_le (by decide) (by omega),
          List.forall_mem_append]
        refine ⟨ih (number / 16) (by omega), ?_⟩
        simpa using
          notMem_lineControls_digitChar
            (Nat.mod_lt number (by decide))

/- A code point stays on one line. -/
theorem notMem_lineControls_of_mem_codePoint
    (ch : Char) :
    ∀ part ∈ codePointEscape ch, part ∉ lineControls := by
  rw [codePointEscape, List.forall_mem_append,
    List.forall_mem_append]
  exact
    ⟨⟨by simp [lineControls],
        notMem_lineControls_of_mem_hexadecimal _⟩,
      by simp [lineControls]⟩

/-
  An escaped character stays on one line, whatever marks have a
  backslash: the four that do not are escaped before.
-/
theorem notMem_lineControls_of_mem_escapeChar
    (marks : List Char)
    (ch : Char) :
    ∀ part ∈ escapeChar marks ch, part ∉ lineControls := by
  unfold escapeChar
  split
  case h_6 hNul hTab hReturn hBreak _ =>
    have hPlain : ch ∉ lineControls := by
      intro hControl
      simp only [lineControls, List.mem_cons, List.not_mem_nil,
        or_false] at hControl
      rcases hControl with hSame | hSame | hSame | hSame
      · exact hBreak hSame
      · exact hReturn hSame
      · exact hTab hSame
      · exact hNul hSame
    split
    · simpa using And.intro (by decide) hPlain
    · split
      · simpa using hPlain
      · exact notMem_lineControls_of_mem_codePoint ch
  all_goals simp [lineControls]

/- An escaped character stays on one line. -/
theorem onOneLine_escapedChar (ch : Char) :
    OnOneLine (escapedChar ch) :=
  (onOneLine_ofList_iff _).mpr
    (notMem_lineControls_of_mem_escapeChar _ ch)

/- A character in single quotes stays on one line. -/
theorem onOneLine_quotedChar (ch : Char) :
    OnOneLine (quotedChar ch) := by
  rw [quotedChar, onOneLine_ofList_iff, List.forall_mem_append,
    List.forall_mem_append]
  exact
    ⟨⟨by simp [lineControls],
        notMem_lineControls_of_mem_escapeChar _ ch⟩,
      by simp [lineControls]⟩

end Text

------------------------------------------------------------
-- Tokens
------------------------------------------------------------

open Text

/- An operator stays on one line. -/
theorem Operator.onOneLine_spelling (sign : Operator) :
    OnOneLine sign.spelling := by
  cases sign <;> decide

/- Every kind is listed. -/
theorem Kind.mem_all (kind : Kind) : kind ∈ all := by
  cases kind with
  | keyword word => cases word <;> decide
  | operator sign => cases sign <;> decide
  | _ => decide

/- The name of a kind stays on one line. -/
theorem Kind.onOneLine_name (kind : Kind) :
    OnOneLine kind.name := by
  have hAll : ∀ kind ∈ all, OnOneLine kind.name := by
    decide +kernel
  exact hAll kind kind.mem_all

namespace Lexeme

/- A numeral stays on one line. -/
theorem IsNumeral.notMem_lineControls
    {text : List Char}
    (hNumeral : IsNumeral text) :
    ∀ ch ∈ text, ch ∉ lineControls := by
  have hDigits
      {digits : List Char}
      (hAll : ∀ ch ∈ digits, ch.isDigit = true) :
      ∀ ch ∈ digits, ch ∉ lineControls := fun ch hCh =>
    notMem_lineControls_of_isDigit (hAll ch hCh)
  rcases hNumeral with
    ⟨whole, _, hWhole, rfl | ⟨fraction, _, hFraction, rfl⟩⟩
  · exact hDigits hWhole
  · rw [List.forall_mem_append, List.forall_mem_cons]
    exact ⟨hDigits hWhole, by decide, hDigits hFraction⟩

/- A name stays on one line. -/
theorem IsName.notMem_lineControls
    {text : List Char}
    (hName : IsName text) :
    ∀ ch ∈ text, ch ∉ lineControls := by
  rcases hName with ⟨first, rest, rfl, hFirst, hRest⟩
  rw [List.forall_mem_cons]
  exact
    ⟨notMem_lineControls_of_isAlphanum
        (by simp [Char.isAlphanum, hFirst]),
      fun ch hCh => notMem_lineControls_of_isAlphanum (hRest ch hCh)⟩

/- What a string may hold stays on one line. -/
theorem notMem_lineControls_of_isStringText
    {ch : Char}
    (hText : isStringText ch = true) :
    ch ∉ lineControls := by
  intro hControl
  simp only [lineControls, List.mem_cons, List.not_mem_nil,
    or_false] at hControl
  rcases hControl with rfl | rfl | rfl | rfl <;> cases hText

/- The text of a lexeme stays on one line unless it ends one. -/
theorem Fits.notMem_lineControls
    {kind : Kind}
    {text : List Char}
    (hFits : Fits kind text)
    (hKind : kind ≠ .newline) :
    ∀ ch ∈ text, ch ∉ lineControls := by
  cases kind with
  | eof => simp [show text = [] from hFits]
  | newline => exact absurd rfl hKind
  | number => exact IsNumeral.notMem_lineControls hFits
  | ident => exact hFits.1.notMem_lineControls
  | string =>
      exact fun ch hCh =>
        notMem_lineControls_of_isStringText (hFits ch hCh)
  | keyword word =>
      rw [show text = word.spelling.toList from hFits]
      exact Kind.onOneLine_name (.keyword word)
  | operator sign =>
      rw [show text = sign.spelling.toList from hFits]
      exact sign.onOneLine_spelling

end Lexeme

namespace Token

variable {token : Token}

/- The text of a token stays on one line unless it ends one. -/
theorem Spelled.onOneLine
    (hSpelled : token.Spelled)
    (hKind : token.kind ≠ .newline) :
    OnOneLine token.text :=
  Lexeme.Fits.notMem_lineControls hSpelled hKind

/- A token is described on one line. -/
theorem Spelled.onOneLine_describe
    (hSpelled : token.Spelled) :
    OnOneLine token.describe := by
  unfold describe
  split
  · exact Kind.onOneLine_name _
  · exact Kind.onOneLine_name _
  · next hNewline _ =>
    have hText := hSpelled.onOneLine hNewline
    have hName := token.kind.onOneLine_name
    simp only [onOneLine_append_iff, hText, hName, and_true]
    decide

end Token

------------------------------------------------------------
-- Faults
------------------------------------------------------------

namespace Lexeme

variable {text source passed rest : List Char}
variable {numeral : String}

/- A number that is told to go wrong is told on one line. -/
theorem onOneLine_of_readNumber
    (hRead :
      readNumber source =
        .fault (.bareFraction numeral) passed rest) :
    OnOneLine numeral := by
  unfold readNumber at hRead
  split at hRead
  · dsimp only at hRead
    split at hRead
    · cases hRead
      rw [onOneLine_ofList_iff, List.forall_mem_append]
      exact
        ⟨fun ch hCh =>
            notMem_lineControls_of_isDigit
              (List.mem_takeWhile_imp hCh),
          by simp [Text.lineControls]⟩
    · cases hRead
  · cases hRead

/- Only in a number a point stands without digits behind it. -/
theorem onOneLine_of_read
    (hRead :
      read source = .fault (.bareFraction numeral) passed rest) :
    OnOneLine numeral := by
  unfold read at hRead
  split at hRead
  · cases hRead
  · split at hRead
    · cases hRead
    · split at hRead
      · cases hRead
      · split at hRead
        · unfold readString at hRead
          split at hRead
          · cases hRead
          · split at hRead
            · cases hRead
            · split at hRead <;> cases hRead
        · split at hRead
          · exact onOneLine_of_readNumber hRead
          · split at hRead
            · cases hRead
            · unfold readSign at hRead
              split at hRead
              · cases hRead
              · split at hRead <;> cases hRead

end Lexeme

/- A cause is told on one line if the number that it shows is. -/
theorem LexCause.onOneLine_message
    {cause : LexCause}
    (hNumeral :
      ∀ numeral,
        cause = .bareFraction numeral → OnOneLine numeral) :
    OnOneLine cause.message := by
  cases cause with
  | unknown ch =>
      exact
        (onOneLine_append_iff "unknown token: " _).mpr
          ⟨by decide, onOneLine_quotedChar ch⟩
  | loneBang next =>
      exact
        (onOneLine_append_iff "expected !=, got !" _).mpr
          ⟨by decide, onOneLine_escapedChar next⟩
  | unterminatedString => decide
  | illegalInString ch =>
      exact
        (onOneLine_append_iff "illegal character in string: " _).mpr
          ⟨by decide, onOneLine_quotedChar ch⟩
  | bareFraction numeral =>
      have hStart :=
        (onOneLine_append_iff "illegal character in number: " _).mpr
          ⟨by decide, hNumeral numeral rfl⟩
      exact
        (onOneLine_append_iff _ " must be followed by a digit").mpr
          ⟨hStart, by decide⟩

/- A cursor tells on one line why it yields no token. -/
theorem Cursor.onOneLine_of_fault
    {c next : Cursor}
    {e : LexError}
    (hFault : c.nextToken = (.error e, next)) :
    OnOneLine e.cause.message := by
  apply LexCause.onOneLine_message
  intro numeral hCause
  unfold Cursor.nextToken at hFault
  split at hFault
  · cases hFault
    cases hCause
  · dsimp only at hFault
    split at hFault
    · cases hFault
    · cases hFault
    · next cause passed rest hRead =>
      cases hFault
      change cause = _ at hCause
      rw [hCause] at hRead
      exact Lexeme.onOneLine_of_read hRead

end TeenyC
