import TeenyC.Proofs.CText.Names
import TeenyC.Proofs.CText.Reading
import TeenyC.Proofs.CText.Shape
import TeenyC.Proofs.Token.Relaid

/-
  Programs read back from their C texts.

  Each line of a body tells the words of its statement. A brace
  that closes a block tells the word that closes it in Teeny, if
  the blocks are known that are open; the brace that closes the
  reading of a number belongs to the line that opens it. So the C
  text of a program tells its words, but for the line breaks that
  stand first or follow another.

  Key definitions include:
    * `CText.valueWords?`
    * `CText.Line.words?`
    * `CText.decode`
    * `CText.decompile?`

  Key theorems include:
    * `Tree.Statements.Spells.settle_words`
    * `Tree.Statements.Spells.decode_lines`
    * `Cursor.Reads.decompile?_generate`
    * `compile_loses_nothing`
-/

namespace TeenyC

open TeenyC.Tree

namespace CText

------------------------------------------------------------
-- Words Read Back
------------------------------------------------------------

/- The word of Teeny that a piece of C is. -/
def Piece.word? : Piece → Option Word
| .number text => some (.number, String.ofList text)
| .name text => some (.ident, String.ofList text)
| .mark text =>
    (Operator.all.find? (·.spelling.toList = text)).map
      fun sign => (Leaf.sign sign).word

/- The words that a value is written with. -/
def valueWords? (value : String) : Option (List Word) :=
  (split none value.toList).bind (List.mapM Piece.word?)

/- The words that a line is written for, without a line break. -/
def Line.words? : Line → Option (List Word)
| .printText contents =>
    some ((Simple.printText contents).leaves.map Leaf.word)
| .label name => some ((Simple.label name).leaves.map Leaf.word)
| .jump name => some ((Simple.jump name).leaves.map Leaf.word)
| .scan name => some ((Simple.input name).leaves.map Leaf.word)
| .printValue value =>
    (valueWords? value).map fun words =>
      (Leaf.keyword .print).word :: words
| .assign name value =>
    (valueWords? value).map fun words =>
      [.keyword .letKw, .target name, .sign .assign].map
        Leaf.word ++ words
| .opening kind value =>
    (valueWords? value).map fun words =>
      (Leaf.keyword kind.opener).word ::
        (words ++ [(Leaf.keyword kind.divider).word])
| .library | .main | .declare _ | .skip | .close | .finish => none

/- The blocks that are open after a line that closes none. -/
def Line.openAfter (blocks : List Block) : Line → List Block
| .opening kind _ => kind :: blocks
| _ => blocks

/-
  The words that the lines of a body are written for, up to the
  end of input, after lines that leave some blocks open.
-/
def decode : List Block → List Line → Option (List Word)
| [], [.finish, .close] => some [Leaf.finish.word]
| kind :: blocks, .close :: rest =>
    (decode blocks rest).map fun words =>
      (Leaf.keyword kind.ending).word ::
        Leaf.newline.word :: words
| blocks, .scan name :: .assign _ _ :: .skip :: .close :: rest =>
    (Line.scan name).words?.bind fun words =>
      (decode blocks rest).map fun more =>
        words ++ Leaf.newline.word :: more
| blocks, line :: rest =>
    line.words?.bind fun words =>
      (decode (line.openAfter blocks) rest).map fun more =>
        words ++ Leaf.newline.word :: more
| _, [] => none

/- A line that declares a variable. -/
def Line.isDeclaration : Line → Bool
| .declare _ => true
| _ => false

/-
  The words of the program that a C text is compiled from. The
  declarations say nothing that the body does not say.
-/
def decompile? (text : String) : Option (List Word) :=
  ((lines text).dropLast.mapM Line.ofText?).bind fun forms =>
    match forms with
    | .library :: .main :: rest =>
        decode [] (rest.filter (!·.isDeclaration))
    | _ => none

/- The piece of a leaf tells its word. -/
theorem word?_of_piece?
    {leaf : Leaf}
    {piece : Piece}
    (hPiece : leaf.piece? = some piece) :
    piece.word? = some leaf.word := by
  cases leaf with
  | number text | operand text =>
      cases hPiece
      simp [Piece.word?, Leaf.word, Leaf.kind, Leaf.text]
  | sign operator =>
      cases hPiece
      cases operator <;> rfl
  | _ => cases hPiece

/- Pieces tell the words of the leaves they are. -/
theorem mapM_word?
    {leaves : List Leaf}
    {pieces : List Piece}
    (hPieces : pieces.map some = leaves.map Leaf.piece?) :
    pieces.mapM Piece.word? = some (leaves.map Leaf.word) := by
  induction pieces generalizing leaves with
  | nil =>
      rw [List.map_eq_nil_iff.mp hPieces.symm]
      rfl
  | cons piece pieces ih =>
      cases leaves with
      | nil => cases hPieces
      | cons leaf leaves =>
          obtain ⟨hPiece, hRest⟩ := List.cons.inj hPieces
          simp [word?_of_piece? hPiece.symm, ih hRest]

/- A value that is split tells the words of its pieces. -/
theorem valueWords?_of_splits
    {value : String}
    {leaves : List Leaf}
    {pieces : List Piece}
    (hSplits : Splits value.toList pieces)
    (hPieces : pieces.map some = leaves.map Leaf.piece?) :
    valueWords? value = some (leaves.map Leaf.word) := by
  rw [valueWords?, hSplits.split_eq, Option.bind_some,
    mapM_word? hPieces]

end CText

open CText

------------------------------------------------------------
-- Words of Trees
------------------------------------------------------------

namespace Tree

/- The text of an expression tells its words. -/
theorem Expression.valueWords?_text
    {expression : Expression}
    (hSpelled :
      ∀ leaf ∈ Expression.leaves expression, leaf.Spelled) :
    valueWords? (Expression.text expression) =
      some ((Expression.leaves expression).map Leaf.word) :=
  valueWords?_of_splits (Expression.splits hSpelled)
    (Expression.map_pieces expression)

/- The text of a comparison tells its words. -/
theorem Comparison.valueWords?_text
    {comparison : Comparison}
    (hSpelled : ∀ leaf ∈ comparison.leaves, leaf.Spelled) :
    valueWords? comparison.text =
      some (comparison.leaves.map Leaf.word) :=
  valueWords?_of_splits (Comparison.splits hSpelled)
    (Chain.map_pieces Expression.map_pieces comparison.chain)

/- The words of statements, with a line break after each line. -/
def Statements.words : Statements → List Word
| .done => []
| .simple first rest =>
    first.leaves.map Leaf.word ++ Leaf.newline.word :: rest.words
| .block kind condition inner rest =>
    (openingLeaves kind condition).map Leaf.word ++
      Leaf.newline.word ::
        (inner.words ++
          (Leaf.keyword kind.ending).word ::
            Leaf.newline.word :: rest.words)

/- A leaf that is a piece breaks no line. -/
theorem isBreak_of_pieces
    {leaves : List Leaf}
    {pieces : List Piece}
    (hPieces : pieces.map some = leaves.map Leaf.piece?) :
    ∀ leaf ∈ leaves, leaf.word.isBreak = false := by
  intro leaf hLeaf
  rcases Leaf.exists_piece hPieces hLeaf with ⟨piece, hPiece⟩
  cases leaf with
  | newline => cases hPiece
  | _ => rfl

/- No leaf of a simple statement breaks a line. -/
theorem Simple.isBreak_leaf (simple : Simple) :
    ∀ leaf ∈ simple.leaves, leaf.word.isBreak = false := by
  cases simple with
  | printValue value | assign name value =>
      have hValue :=
        isBreak_of_pieces (Expression.map_pieces value)
      simpa [leaves, Leaf.word, Word.isBreak, Leaf.kind]
        using hValue
  | printText | label | jump | input =>
      simp [leaves, Leaf.word, Word.isBreak, Leaf.kind]

/- No leaf of a line that opens a block breaks the line. -/
theorem isBreak_openingLeaves
    (kind : Block)
    (condition : Comparison) :
    ∀ leaf ∈ openingLeaves kind condition,
      leaf.word.isBreak = false := by
  have hCondition :=
    isBreak_of_pieces
      (Chain.map_pieces Expression.map_pieces condition.chain)
  intro leaf hLeaf
  simp only [openingLeaves, List.cons_append, List.mem_cons,
    List.mem_append, List.not_mem_nil, or_false] at hLeaf
  rcases hLeaf with rfl | hLeaf | rfl
  · rfl
  · exact hCondition leaf hLeaf
  · rfl

/- Line breaks that stand first are left out. -/
theorem settle_blanks
    (blanks : Nat)
    (later : List Word) :
    Word.settle ((newlines blanks).map Leaf.word ++ later) =
      Word.settle later := by
  induction blanks with
  | zero => rfl
  | succ blanks ih => exact ih

/- Of the line breaks after a line one is left. -/
theorem settle_newlines
    {line : List Leaf}
    (hSome : line ≠ [])
    (hLine : ∀ leaf ∈ line, leaf.word.isBreak = false)
    (blanks : Nat)
    (later : List Word) :
    Word.settle
        (line.map Leaf.word ++
          ((newlines (blanks + 1)).map Leaf.word ++ later)) =
      line.map Leaf.word ++
        Leaf.newline.word :: Word.settle later := by
  cases line with
  | nil => exact absurd rfl hSome
  | cons first line =>
      obtain ⟨hFirst, hMore⟩ := List.forall_mem_cons.mp hLine
      have hSettle :=
        @Word.settle_cons_line first.word Leaf.newline.word
          (line.map Leaf.word) hFirst (by simpa using hMore) rfl
          ((newlines blanks).map Leaf.word ++ later)
      rw [settle_blanks] at hSettle
      exact hSettle

/- The words of statements are those that spell them, settled. -/
theorem Statements.Spells.settle_words
    {statements : Statements}
    {leaves : List Leaf}
    (hSpells : statements.Spells leaves)
    (later : List Word) :
    Word.settle (leaves.map Leaf.word ++ later) =
      statements.words ++ Word.settle later := by
  induction hSpells generalizing later with
  | done => rfl
  | @simple first rest more blanks _ ih =>
      have hSome : first.leaves ≠ [] := by
        cases first <;> simp [Simple.leaves]
      simp only [List.map_append, List.append_assoc]
      rw [settle_newlines hSome first.isBreak_leaf, ih,
        Statements.words]
      simp
  | @block kind condition inner rest held more blanks after _ _
      ihInner ihRest =>
      have hSome : openingLeaves kind condition ≠ [] := by
        simp [openingLeaves]
      have hCloser :
          ∀ leaf ∈ [Leaf.keyword kind.ending],
            leaf.word.isBreak = false := by
        intro leaf hLeaf
        rw [List.mem_singleton.mp hLeaf]
        rfl
      have hClosed :=
        settle_newlines (List.cons_ne_nil _ _) hCloser after
          (more.map Leaf.word ++ later)
      simp only [List.map_cons, List.map_nil, List.cons_append,
        List.nil_append] at hClosed
      simp only [List.map_append, List.map_cons,
        List.append_assoc, List.cons_append]
      rw [settle_newlines hSome (isBreak_openingLeaves _ _),
        ihInner, hClosed, ihRest, Statements.words]
      simp

/- A program's words are those that spell it, settled. -/
theorem Statements.SpellsProgram.settle_words
    {program : Statements}
    {leaves : List Leaf}
    (hSpells : program.SpellsProgram leaves) :
    Word.settle (leaves.map Leaf.word) =
      program.words ++ [Leaf.finish.word] := by
  rcases hSpells with ⟨blanks, body, hLeaves, hBody⟩
  rw [hLeaves, List.map_append, List.map_append,
    List.append_assoc, settle_blanks, hBody.settle_words]
  rfl

end Tree

------------------------------------------------------------
-- Words of Lines
------------------------------------------------------------

namespace CText

variable {line : Line}
variable {words : List Word}

/- A line that tells its words is read before those after it. -/
theorem decode_line
    (hWords : line.words? = some words)
    (hScan : ∀ name, line ≠ .scan name)
    (blocks : List Block)
    (rest : List Line) :
    decode blocks (line :: rest) =
      (decode (line.openAfter blocks) rest).map fun more =>
        words ++ Leaf.newline.word :: more := by
  cases line with
  | scan name => exact absurd rfl (hScan name)
  | library | main | declare | skip | close | finish =>
      cases hWords
  | _ => simp [decode, hWords]

/- The four lines that read a number tell the words of one. -/
theorem decode_scan
    (name value : String)
    (blocks : List Block)
    (rest : List Line) :
    decode blocks
        (.scan name :: .assign name value :: .skip ::
          .close :: rest) =
      (decode blocks rest).map fun more =>
        (Simple.input name).leaves.map Leaf.word ++
          Leaf.newline.word :: more := by
  simp [decode, Line.words?]

end CText

namespace Tree

/- The lines of a simple statement tell its words. -/
theorem Simple.decode_lines
    {simple : Simple}
    (hSpelled : ∀ leaf ∈ simple.leaves, leaf.Spelled)
    (blocks : List Block)
    (rest : List Line) :
    decode blocks (simple.lines ++ rest) =
      (decode blocks rest).map fun more =>
        simple.leaves.map Leaf.word ++
          Leaf.newline.word :: more := by
  cases simple with
  | printValue value =>
      have hValue :=
        Expression.valueWords?_text fun leaf hLeaf =>
          hSpelled leaf (List.mem_cons_of_mem _ hLeaf)
      apply decode_line _ (by simp)
      rw [Line.words?, hValue]
      rfl
  | assign target value =>
      have hValue :=
        @Expression.valueWords?_text value fun leaf hLeaf =>
          hSpelled leaf (by simp [leaves, hLeaf])
      apply decode_line _ (by simp)
      rw [Line.words?, hValue]
      rfl
  | input target => exact decode_scan target "0" blocks rest
  | printText | label | jump => exact decode_line rfl (by simp) _ _

/- The lines of statements tell their words. -/
theorem Statements.Spells.decode_lines
    {statements : Statements}
    {leaves : List Leaf}
    (hSpells : statements.Spells leaves)
    (hSpelled : ∀ leaf ∈ leaves, leaf.Spelled)
    (blocks : List Block)
    (rest : List Line) :
    decode blocks (statements.lines ++ rest) =
      (decode blocks rest).map fun more =>
        statements.words ++ more := by
  -- The lines of a block are read while one more block is open.
  induction hSpells generalizing blocks rest with
  | done => simp [Statements.lines, Statements.words]
  | simple blanks _ ih =>
      simp only [List.forall_mem_append] at hSpelled
      obtain ⟨⟨hFirst, _⟩, hRest⟩ := hSpelled
      rw [Statements.lines, List.append_assoc,
        Simple.decode_lines hFirst, ih hRest, Option.map_map]
      simp [Statements.words, Function.comp_def]
  | @block kind condition inner others _ _ _ _ _ _ ihInner
      ihRest =>
      simp only [openingLeaves, List.forall_mem_append,
        List.forall_mem_cons] at hSpelled
      obtain
        ⟨⟨⟨⟨⟨⟨_, hCondition⟩, _⟩, _⟩, hInner⟩, _⟩, hRest⟩ :=
        hSpelled
      have hOpening :
          (Line.opening kind condition.text).words? =
            some
              ((openingLeaves kind condition).map Leaf.word) := by
        rw [Line.words?,
          Comparison.valueWords?_text hCondition]
        simp [openingLeaves]
      have hClose (more : List Line) :
          decode (kind :: blocks) (.close :: more) =
            (decode blocks more).map fun words =>
              (Leaf.keyword kind.ending).word ::
                Leaf.newline.word :: words := by
        simp [decode]
      rw [Statements.lines, List.cons_append,
        List.append_assoc, List.cons_append,
        decode_line hOpening (by simp), Line.openAfter,
        ihInner hInner, hClose, ihRest hRest, Option.map_map,
        Option.map_map, Option.map_map]
      simp [Statements.words, Function.comp_def]

end Tree

------------------------------------------------------------
-- Compiled Programs
------------------------------------------------------------

/- A program that is read is told by its C text. -/
theorem Cursor.Reads.decompile?_generate
    {start : Cursor}
    {history : History}
    {program : Statements}
    (hReads : start.Reads history program) :
    decompile? program.generate =
      some (Word.settle (history.tokens.map Token.word)) := by
  have hSpells := hReads.spells
  have hSpelled := hReads.leaf_spelled
  have hForms :
      (CText.lines program.generate).dropLast.mapM Line.ofText? =
        some program.allLines := by
    rw [hSpells.lines_generate hSpelled, List.dropLast_concat]
    apply Line.mapM_ofText?
    intro line
    exact hSpells.sound hSpelled
  have hDeclared (names : List String) :
      (names.map Line.declare).filter (!·.isDeclaration) =
        [] := by
    simp [Line.isDeclaration]
  have hBody :
      program.bodyLines.filter (!·.isDeclaration) =
        program.bodyLines := by
    rw [List.filter_eq_self]
    intro line hLine
    cases hSpells.writtenFrom line hLine <;> rfl
  have hWords := hSpells.settle_words
  rw [history.words_eq] at hWords
  rw [hWords, decompile?, hForms, Option.bind_some]
  rcases hSpells with ⟨blanks, body, hLeaves, hBodySpells⟩
  have hBodySpelled : ∀ leaf ∈ body, leaf.Spelled := by
    intro leaf hLeaf
    exact hSpelled leaf (by simp [hLeaves, hLeaf])
  simp only [Statements.allLines, List.filter_append, hDeclared,
    hBody, List.nil_append]
  rw [Statements.bodyLines, hBodySpells.decode_lines hBodySpelled]
  rfl

/-
  A C text tells the words of the program that it is compiled
  from, but for the line breaks that stand first or follow
  another. Programs with one C text have the same words.
-/
theorem compile_loses_nothing
    {first second text : String}
    (hFirst : compile first = .ok text)
    (hSecond : compile second = .ok text) :
    ∃ tokens others,
      tokenize first = .ok tokens ∧
        tokenize second = .ok others ∧
          decompile? text =
              some (Word.settle (tokens.map Token.word)) ∧
            Word.settle (tokens.map Token.word) =
              Word.settle (others.map Token.word) := by
  rcases reads_of_compile hFirst with
    ⟨history, program, hReads, _, hText⟩
  rcases reads_of_compile hSecond with
    ⟨other, otherProgram, hOther, _, hOtherText⟩
  have hTold := hReads.decompile?_generate
  have hOtherTold := hOther.decompile?_generate
  rw [← hText] at hTold
  rw [← hOtherText, hTold] at hOtherTold
  exact
    ⟨history.tokens, other.tokens, hReads.tokenize_eq,
      hOther.tokenize_eq, hTold, Option.some.inj hOtherTold⟩

/- Two texts of one program, one with blanks and comments. -/
theorem compile_loses_nothing_layout :
    ∃ text,
      compile "INPUT n\nWHILE n > -1 REPEAT\nENDWHILE" =
          .ok text ∧
        compile
              "\n INPUT n # c\n\nWHILE n>-1 REPEAT\n\nENDWHILE\n" =
            .ok text ∧
          ∃ tokens others,
            tokenize "INPUT n\nWHILE n > -1 REPEAT\nENDWHILE" =
                .ok tokens ∧
              tokenize
                    "\n INPUT n # c\n\nWHILE n>-1 REPEAT\n\nENDWHILE\n" =
                  .ok others ∧
                decompile? text =
                    some
                      (Word.settle (tokens.map Token.word)) ∧
                  Word.settle (tokens.map Token.word) =
                    Word.settle (others.map Token.word) := by
  have hFirst :
      compile "INPUT n\nWHILE n > -1 REPEAT\nENDWHILE" =
        .ok
          ("#include <stdio.h>\nint main(void)\x7b\nfloat n;\n" ++
            "if(0 == scanf(\"%f\", &n)) \x7b\nn = 0;\n" ++
            "scanf(\"%*s\");\n\x7d\nwhile(n > -1)\x7b\n\x7d\n" ++
            "return 0;\n\x7d\n") := by
    decide +kernel
  have hSecond :
      compile
          "\n INPUT n # c\n\nWHILE n>-1 REPEAT\n\nENDWHILE\n" =
        .ok
          ("#include <stdio.h>\nint main(void)\x7b\nfloat n;\n" ++
            "if(0 == scanf(\"%f\", &n)) \x7b\nn = 0;\n" ++
            "scanf(\"%*s\");\n\x7d\nwhile(n > -1)\x7b\n\x7d\n" ++
            "return 0;\n\x7d\n") := by
    decide +kernel
  exact
    ⟨_, hFirst, hSecond, compile_loses_nothing hFirst hSecond⟩

end TeenyC
