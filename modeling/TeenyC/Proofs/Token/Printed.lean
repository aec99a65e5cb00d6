import TeenyC.Proofs.Token.Place

/-
  Tokens that are printed and scanned again.

  The tokens are written as they stand in a text, a string in its
  quotes, with one space between each two. No lexeme goes on with
  a space or a line break, so the printed text splits into the
  lexemes it is made of. The line breaks among them are all that
  tells the lines, so these are the same again.

  Key definitions include:
    * `Token.print`

  Key theorems include:
    * `Lexeme.Scans.print`
    * `tokenize_print`
-/

namespace TeenyC

------------------------------------------------------------
-- Printing
------------------------------------------------------------

namespace Token

/- A token as it is written, a string in its quotes. -/
def written (token : Token) : String :=
  String.ofList (token.kind.spell token.text.toList)

/- The tokens as they are written, joined by single spaces. -/
def print (tokens : List Token) : String :=
  String.intercalate " " (tokens.map written)

variable {kind : Kind}
variable {text lexeme : List Char}
variable {line : Nat}

/- A lexeme is written as it stands. -/
theorem toList_written
    (hSpell : kind.spell text = lexeme) :
    (written
        { kind := kind
          text := String.ofList text
          line := line }).toList = lexeme := by
  rw [written, String.toList_ofList, String.toList_ofList, hSpell]

/- One token is printed without a space. -/
theorem toList_print_singleton (token : Token) :
    (print [token]).toList = token.written.toList := by
  simp [print]

/- A space stands between a token and those after it. -/
theorem toList_print_cons
    {tokens : List Token}
    (token : Token)
    (hSome : tokens ≠ []) :
    (print (token :: tokens)).toList =
      token.written.toList ++ ' ' :: (print tokens).toList := by
  have hOthers :
      (tokens.map written).map String.toList ≠ [] := by
    simpa using hSome
  rw [print, print, String.toList_intercalate,
    String.toList_intercalate, List.map_cons, List.map_cons,
    List.intercalate_cons_of_ne_nil hOthers, List.append_assoc]
  rfl

end Token

------------------------------------------------------------
-- Scanning What Was Printed
------------------------------------------------------------

namespace Lexeme

variable {line : Nat}
variable {source : List Char}
variable {tokens : List Token}
variable {newline finish : Token}

/- A space before a text changes nothing. -/
theorem Scans.space
    (hScans : Scans line source tokens) :
    Scans line (' ' :: source) tokens := by
  have hSpace (rest : List Char) : Gap rest [' '] :=
    .blanks (by simp)
  cases hScans with
  | finish hGap hEnd =>
      exact .finish ((hSpace _).append hGap) hEnd
  | lexeme hGap hLexeme hMore =>
      exact .lexeme ((hSpace _).append hGap) hLexeme hMore

/- The end of input behind a line break is one line further on. -/
theorem Scans.last_line
    (hScans : Scans line source [newline, finish])
    (hNewline : newline.kind = .newline)
    (hFinish : finish.kind = .eof) :
    Scans line ['\n'] [newline, finish] := by
  have hNone (rest : List Char) : Gap rest [] :=
    .blanks (by simp)
  cases hScans with
  | lexeme _ hLexeme hMore =>
      dsimp only at hNewline
      subst hNewline
      cases hLexeme with
      | newline =>
          cases hMore with
          | finish _ _ =>
              exact
                .lexeme (hNone _) .newline
                  (.finish (hNone []) (.inl rfl))
          | lexeme _ hLexeme _ =>
              exact absurd hFinish hLexeme.kind_ne_eof

/-
  The tokens of a text are those of their print. The induction is
  on the tokens; what is printed before the others is a lexeme,
  and what parts it from them is a space or the last line break.
-/
theorem Scans.print
    (hScans : Scans line source (tokens ++ [newline, finish]))
    (hNewline : newline.kind = .newline)
    (hFinish : finish.kind = .eof) :
    Scans line ((Token.print tokens).toList ++ ['\n'])
      (tokens ++ [newline, finish]) := by
  induction tokens generalizing line source with
  | nil => exact hScans.last_line hNewline hFinish
  | cons token tokens ih =>
      rw [List.cons_append] at hScans ⊢
      generalize hAll : tokens ++ [newline, finish] = all
        at hScans ih ⊢
      cases hScans with
      | finish => simp at hAll
      | @lexeme _ gap lexeme rest text kind _ _ hLexeme hMore =>
          have hLater := ih hMore
          have hNone (rest : List Char) : Gap rest [] :=
            .blanks (by simp)
          have hWritten :=
            @Token.toList_written kind text lexeme line
              hLexeme.spell_eq
          cases tokens with
          | nil =>
              rw [Token.toList_print_singleton, hWritten]
              exact
                .lexeme (hNone _) (hLexeme.of_parting rfl) hLater
          | cons next tokens =>
              rw [Token.toList_print_cons _ (by simp), hWritten,
                List.append_assoc, List.cons_append]
              exact
                .lexeme (hNone _) (hLexeme.of_parting rfl)
                  hLater.space

end Lexeme

/-
  A text whose last token before the end of input is a line break
  has the tokens that its other tokens have when they are printed,
  on the same lines.
-/
theorem tokenize_print
    {source : String}
    {tokens : List Token}
    {newline finish : Token}
    (hTokens :
      tokenize source = .ok (tokens ++ [newline, finish]))
    (hNewline : newline.kind = .newline)
    (hFinish : finish.kind = .eof) :
    tokenize (Token.print tokens) = tokenize source := by
  have hLists := (tokenize_eq_ok_iff source _).mp hTokens
  have hScans := (Cursor.lists_start_iff source _).mp hLists
  have hPrinted := hScans.print hNewline hFinish
  rw [hTokens, tokenize_eq_ok_iff, Cursor.lists_start_iff]
  exact hPrinted

/- Blanks and a comment go; a string and the blank line stay. -/
theorem tokenize_print_line :
    ∃ tokens newline finish,
      tokenize "LET a1=1.5<=2#c\n\n\tPRINT \"é # \" " =
          .ok (tokens ++ [newline, finish]) ∧
        newline.kind = .newline ∧ finish.kind = .eof ∧
          Token.print tokens =
              "LET a1 = 1.5 <= 2 \n \n PRINT \"é # \"" ∧
            tokenize
                "LET a1 = 1.5 <= 2 \n \n PRINT \"é # \"" =
              tokenize
                "LET a1=1.5<=2#c\n\n\tPRINT \"é # \" " := by
  let tokens : List Token :=
    [{ kind := .keyword .letKw, text := "LET", line := 1 },
      { kind := .ident, text := "a1", line := 1 },
      { kind := .operator .assign, text := "=", line := 1 },
      { kind := .number, text := "1.5", line := 1 },
      { kind := .operator .lessEqual, text := "<=", line := 1 },
      { kind := .number, text := "2", line := 1 },
      { kind := .newline, text := "\n", line := 1 },
      { kind := .newline, text := "\n", line := 2 },
      { kind := .keyword .print, text := "PRINT", line := 3 },
      { kind := .string, text := "é # ", line := 3 }]
  let newline : Token :=
    { kind := .newline, text := "\n", line := 3 }
  let finish : Token := { kind := .eof, text := "", line := 4 }
  have hTokens :
      tokenize "LET a1=1.5<=2#c\n\n\tPRINT \"é # \" " =
        .ok (tokens ++ [newline, finish]) := by
    decide +kernel
  have hPrint :
      Token.print tokens =
        "LET a1 = 1.5 <= 2 \n \n PRINT \"é # \"" := by
    decide +kernel
  refine
    ⟨tokens, newline, finish, hTokens, rfl, rfl, hPrint, ?_⟩
  rw [← hPrint]
  exact tokenize_print hTokens rfl rfl

end TeenyC
