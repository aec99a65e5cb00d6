import TeenyC.Proofs.CText.Literal
import TeenyC.Proofs.CText.Names
import TeenyC.Proofs.CText.Shape

/-
  What the strings of a compiled program print.

  A statement that prints a string becomes a line that calls
  printf with a literal and nothing else, and no other line does.
  The literal is the string and the escape of a line break. C
  prints the string and a line break for it, and finds no
  conversion.

  Key definitions include:
    * `CText.calledFormat?`
    * `CText.Prints`
    * `CText.PrintsStrings`

  Key theorems include:
    * `CText.Line.calledFormat?_text`
    * `CText.prints_lineFormat`
    * `compile_prints_strings`
-/

namespace TeenyC

open TeenyC.Tree

/- The strings among tokens, in their order. -/
def Token.strings (tokens : List Token) : List String :=
  tokens.filterMap fun token =>
    if token.kind = .string then some token.text else none

/- The string that a leaf is. -/
def Leaf.literal? : Leaf → Option String
| .literal contents => some contents
| _ => none

namespace CText

------------------------------------------------------------
-- Calls of printf
------------------------------------------------------------

/-
  The inside of the literal in a line that calls printf with the
  literal and nothing else.
-/
def calledFormat? (line : String) : Option (List UInt8) :=
  ("printf(\"".toList.isPrefixOf? line.toList).bind fun rest =>
    (literal? (Text.encode rest)).bind fun (body, after) =>
      if after = Text.encode [')', ';'] then some body else none

/-
  The format prints the text, given no arguments, and has no
  conversion.
-/
def Prints
    (format : List UInt8)
    (text : String) : Prop :=
  ∃ bytes,
    decode? format = some bytes ∧
      '%'.toUInt8 ∉ bytes ∧
        printed? bytes = some (Text.encode text.toList)

/- A string and the escape of a line break. -/
def lineFormat (contents : String) : List UInt8 :=
  Text.encode (contents.toList ++ ['\\', 'n'])

/- The string of a line that prints one. -/
def Line.contents? : Line → Option String
| .printText contents => some contents
| _ => none

/- A string prints itself, and a line break after it. -/
theorem prints_lineFormat
    {contents : String}
    (hContents :
      ∀ ch ∈ contents.toList,
        Lexeme.isStringText ch = true) :
    Prints (lineFormat contents) (contents ++ "\n") := by
  have hVerbatim := verbatim_encode hContents
  have hEscape :
      decode? (Text.encode ['\\', 'n']) = some [10] := by
    have hLetter : escape? 'n'.toUInt8 [] = some ([10], 0) := by
      decide
    have hBytes :
        Text.encode ['\\', 'n'] =
          ['\\'.toUInt8, 'n'.toUInt8] := by
      decide
    rw [hBytes, decode?_escape hLetter, List.drop_nil, decode?]
    rfl
  have hBreak : printed? [10] = some [10] := rfl
  refine ⟨Text.encode contents.toList ++ [10], ?_, ?_, ?_⟩
  · rw [lineFormat, Text.encode_append, decode?_verbatim hVerbatim,
      hEscape]
    rfl
  · rw [List.mem_append]
    rintro (hPercent | hPercent)
    · exact hVerbatim '%' (by decide) hPercent
    · exact absurd hPercent (by decide)
  · rw [printed?_verbatim hVerbatim, hBreak,
      String.toList_append, Text.encode_append]
    rfl

namespace Line

variable {line : Line}

/- A line that prints a string calls printf with its format. -/
theorem calledFormat?_printText
    {contents : String}
    (hContents :
      ∀ ch ∈ contents.toList,
        Lexeme.isStringText ch = true) :
    calledFormat? (printText contents).text =
      some (lineFormat contents) := by
  have hText :
      (printText contents).text.toList =
        "printf(\"".toList ++
          (contents.toList ++ "\\n\");".toList) := by
    unfold text
    rw [String.toList_append, String.toList_append,
      List.append_assoc]
  have hSplit :
      "printf(\"".toList.isPrefixOf?
          (printText contents).text.toList =
        some (contents.toList ++ "\\n\");".toList) :=
    List.isPrefixOf?_eq_some_iff_append_eq.mpr hText.symm
  have hLiteral :
      literal? (Text.encode "\\n\");".toList) =
        some
          (Text.encode ['\\', 'n'], Text.encode [')', ';']) := by
    decide
  rw [calledFormat?, hSplit, Option.bind_some, Text.encode_append,
    literal?_verbatim (verbatim_encode hContents), hLiteral]
  simp [lineFormat, Text.encode_append]

/- A line that calls printf with a literal starts with the call. -/
theorem parts_of_calledFormat?
    {format : List UInt8}
    (hSound : line.Sound)
    (hFormat : calledFormat? line.text = some format) :
    line.word = "printf" ∧ line.mark = '(' := by
  rcases Option.bind_eq_some_iff.mp hFormat with
    ⟨rest, hSplit, _⟩
  have hText :
      line.text.toList =
        "printf".toList ++ '(' :: '"' :: rest := by
    rw [← List.isPrefixOf?_eq_some_iff_append_eq.mp hSplit]
    simp only [String.reduceToList, List.cons_append,
      List.nil_append]
  have hLetters :
      ∀ ch ∈ "printf".toList, ch.isAlphanum = true := by
    simp
  rcases hSound.parts_eq hLetters rfl hText with
    ⟨hWord, hMark, _⟩
  exact ⟨String.toList_inj.mp hWord, hMark⟩

/- A line that prints a value gives printf another argument. -/
theorem calledFormat?_printValue (value : String) :
    calledFormat? (printValue value).text = none := by
  let rest : List Char :=
    "%.2f\\n\", (float)(".toList ++
      (value.toList ++ "));".toList)
  have hText :
      (printValue value).text.toList =
        "printf(\"".toList ++ rest := by
    unfold text
    simp only [rest, String.toList_append, String.reduceToList,
      List.cons_append, List.nil_append]
  have hSplit :
      "printf(\"".toList.isPrefixOf?
          (printValue value).text.toList =
        some rest :=
    List.isPrefixOf?_eq_some_iff_append_eq.mpr hText.symm
  have hLiteral :
      literal? (Text.encode "%.2f\\n\", (float)(".toList) =
        some
          (Text.encode "%.2f\\n".toList,
            Text.encode ", (float)(".toList) := by
    decide +kernel
  have hComma :
      Text.encode ", (float)(".toList =
        ','.toUInt8 :: Text.encode " (float)(".toList := by
    decide +kernel
  have hEnd :
      Text.encode [')', ';'] = [')'.toUInt8, ';'.toUInt8] := by
    decide
  rw [calledFormat?, hSplit, Option.bind_some, Text.encode_append,
    literal?_append hLiteral, Option.bind_some, hComma, hEnd]
  apply if_neg
  intro hSame
  exact absurd (List.cons.inj hSame).1 (by decide)

/- A line calls printf with its string, if it prints one. -/
theorem calledFormat?_text
    (hSound : line.Sound) :
    calledFormat? line.text = line.contents?.map lineFormat := by
  -- Any other line has another word or another mark at its start.
  have hOther (hWord : line.word ≠ "printf" ∨ line.mark ≠ '(') :
      calledFormat? line.text = none := by
    rw [Option.eq_none_iff_forall_ne_some]
    intro format hFormat
    rcases parts_of_calledFormat? hSound hFormat with
      ⟨hPrintf, hMark⟩
    rcases hWord with hWord | hWord
    · exact hWord hPrintf
    · exact hWord hMark
  cases line with
  | printText contents => exact calledFormat?_printText hSound
  | printValue value => exact calledFormat?_printValue value
  | opening kind value =>
      apply hOther
      cases kind <;> simp [word]
  | scan | skip => exact hOther (.inl (by simp [word]))
  | _ => exact hOther (.inr (by simp [mark]))

end Line

/-
  The strings among the tokens are printed, each by a line of its
  own, in their order. The other lines call printf with a value
  or not at all.
-/
structure PrintsStrings
    (tokens : List Token)
    (program : Statements)
    (text : String) : Prop where
  lines :
    CText.lines text = program.allLines.map Line.text ++ [""]
  strings :
    program.allLines.filterMap Line.contents? =
      Token.strings tokens
  calls :
    ∀ line ∈ program.allLines,
      calledFormat? line.text = line.contents?.map lineFormat
  formats :
    (CText.lines text).filterMap calledFormat? =
      (Token.strings tokens).map lineFormat
  printed :
    ∀ contents ∈ Token.strings tokens,
      Prints (lineFormat contents) (contents ++ "\n")

end CText

open CText

------------------------------------------------------------
-- Strings among Leaves
------------------------------------------------------------

/- Leaves that are pieces of C hold no strings. -/
theorem Leaf.literals_of_pieces
    {leaves : List Leaf}
    {pieces : List Piece}
    (hPieces : pieces.map some = leaves.map Leaf.piece?) :
    leaves.filterMap Leaf.literal? = [] := by
  rw [List.filterMap_eq_nil_iff]
  intro leaf hLeaf
  rcases exists_piece hPieces hLeaf with ⟨piece, hPiece⟩
  cases leaf with
  | literal contents => cases hPiece
  | _ => rfl

/- The strings of words are those of the leaves they are. -/
theorem Leaf.literals_eq_strings
    {leaves : List Leaf}
    {tokens : List Token}
    (hWords : leaves.map Leaf.word = tokens.map Token.word) :
    leaves.filterMap Leaf.literal? = Token.strings tokens := by
  let string? (word : Word) : Option String :=
    if word.1 = .string then some word.2 else none
  have hTold (leaf : Leaf) :
      leaf.literal? = string? leaf.word := by
    cases leaf <;> rfl
  exact Leaf.filterMap_of_words hTold hWords

namespace Tree

/- An expression holds no strings. -/
theorem Expression.literals_eq_nil (expression : Expression) :
    (Expression.leaves expression).filterMap Leaf.literal? =
      [] :=
  Leaf.literals_of_pieces (Expression.map_pieces expression)

/- A comparison holds no strings. -/
theorem Comparison.literals_eq_nil (comparison : Comparison) :
    comparison.leaves.filterMap Leaf.literal? = [] :=
  Leaf.literals_of_pieces
    (Chain.map_pieces Expression.map_pieces comparison.chain)

/- The lines of a simple statement hold its strings. -/
theorem Simple.contents_eq (simple : Simple) :
    simple.lines.filterMap Line.contents? =
      simple.leaves.filterMap Leaf.literal? := by
  cases simple with
  | printValue value | assign name value =>
      simp [lines, leaves, List.filterMap_cons, Line.contents?,
        Leaf.literal?, Expression.literals_eq_nil]
  | printText | label | jump | input => rfl

/- Line breaks hold no strings. -/
theorem literals_newlines (count : Nat) :
    (newlines count).filterMap Leaf.literal? = [] := by
  simp [newlines, Leaf.literal?]

/- The lines of statements hold their strings, in their order. -/
theorem Statements.Spells.contents_eq
    {statements : Statements}
    {leaves : List Leaf}
    (hSpells : statements.Spells leaves) :
    statements.lines.filterMap Line.contents? =
      leaves.filterMap Leaf.literal? := by
  induction hSpells with
  | done => rfl
  | simple blanks _ ih =>
      simp [Statements.lines, Simple.contents_eq, ih,
        literals_newlines]
  | block blanks later _ _ ihInner ihRest =>
      simp [Statements.lines, openingLeaves,
        List.filterMap_cons, Line.contents?, Leaf.literal?,
        Comparison.literals_eq_nil, ihInner, ihRest,
        literals_newlines]

/- The lines of a program hold its strings, in their order. -/
theorem Statements.SpellsProgram.contents_eq
    {program : Statements}
    {leaves : List Leaf}
    (hSpells : program.SpellsProgram leaves) :
    program.allLines.filterMap Line.contents? =
      leaves.filterMap Leaf.literal? := by
  rcases hSpells with ⟨blanks, body, hLeaves, hBody⟩
  have hDeclared (names : List String) :
      (names.map Line.declare).filterMap Line.contents? = [] := by
    simp [List.filterMap_map, Function.comp_def, Line.contents?]
  rw [hLeaves]
  simp [allLines, bodyLines, List.filterMap_cons, hDeclared,
    hBody.contents_eq, literals_newlines, Line.contents?,
    Leaf.literal?]

end Tree

------------------------------------------------------------
-- Compiled Strings
------------------------------------------------------------

/- The strings of a program that is read are printed. -/
theorem Cursor.Reads.printsStrings
    {start : Cursor}
    {history : History}
    {program : Statements}
    (hReads : start.Reads history program) :
    PrintsStrings history.tokens program program.generate := by
  have hSpells := hReads.spells
  have hSpelled := hReads.leaf_spelled
  have hLines := hSpells.lines_generate hSpelled
  have hStrings :
      program.allLines.filterMap Line.contents? =
        Token.strings history.tokens :=
    hSpells.contents_eq.trans
      (Leaf.literals_eq_strings history.words_eq)
  have hCalls :
      ∀ line ∈ program.allLines,
        calledFormat? line.text =
          line.contents?.map lineFormat := by
    intro line hLine
    exact Line.calledFormat?_text (hSpells.sound hSpelled hLine)
  constructor
  · exact hLines
  · exact hStrings
  · exact hCalls
  · have hLast : [""].filterMap calledFormat? = [] := by
      decide
    rw [hLines, List.filterMap_append, hLast, List.append_nil,
      List.filterMap_map, ← hStrings, List.map_filterMap]
    exact List.filterMap_congr hCalls
  · intro contents hContents
    rw [← hStrings, List.mem_filterMap] at hContents
    rcases hContents with ⟨line, hLine, hSome⟩
    have hSound := hSpells.sound hSpelled hLine
    cases line with
    | printText other =>
        cases hSome
        exact prints_lineFormat hSound
    | _ => cases hSome

/-
  In a program that compiles every string is printed by a line of
  its own, just as it is and with a line break after it.
-/
theorem compile_prints_strings
    {source text : String}
    (hCompile : compile source = .ok text) :
    ∃ tokens program,
      tokenize source = .ok tokens ∧
        (∀ other : Statements,
          other.IsTreeOf tokens ↔ other = program) ∧
          text = program.generate ∧
            PrintsStrings tokens program text := by
  rcases reads_of_compile hCompile with
    ⟨history, program, hReads, _, hText⟩
  subst hText
  exact
    ⟨history.tokens, program, hReads.tokenize_eq,
      hReads.isTreeOf.iff_eq, rfl, hReads.printsStrings⟩

/- Strings with marks of C and with letters of several bytes. -/
theorem compile_prints_strings_marks :
    ∃ text,
      compile "PRINT \"); ??/ //\"\nPRINT 1\nPRINT \"ä\"" =
          .ok text ∧
        ∃ tokens program,
          tokenize "PRINT \"); ??/ //\"\nPRINT 1\nPRINT \"ä\"" =
              .ok tokens ∧
            (∀ other : Statements,
              other.IsTreeOf tokens ↔ other = program) ∧
              text = program.generate ∧
                PrintsStrings tokens program text := by
  have hCompile :
      compile "PRINT \"); ??/ //\"\nPRINT 1\nPRINT \"ä\"" =
        .ok
          ("#include <stdio.h>\nint main(void)\x7b\n" ++
            "printf(\"); ??/ //\\n\");\n" ++
            "printf(\"%.2f\\n\", (float)(1));\n" ++
            "printf(\"ä\\n\");\nreturn 0;\n\x7d\n") := by
    decide +kernel
  exact ⟨_, hCompile, compile_prints_strings hCompile⟩

end TeenyC
