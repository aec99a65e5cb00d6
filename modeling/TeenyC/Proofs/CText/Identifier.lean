import TeenyC.Proofs.CText.Printing

/-
  Which names of a C text are identifiers of C.

  The lines of a C text declare and use the identifiers of the
  source, and no other names. Each is a letter followed by
  letters and digits. C takes it for a name unless it is one of
  C's own keywords, which Teeny does not reserve.

  Key definitions include:
    * `CText.keywords`
    * `CText.IsIdentifier`
    * `CText.Line.names`
    * `CText.TakesNames`

  Key theorems include:
    * `Tree.Statements.Spells.mem_names_iff`
    * `Tree.Statements.SpellsProgram.mem_names_iff`
    * `compile_names_valid_iff`
-/

namespace TeenyC

open TeenyC.Tree

/- The identifiers among tokens, in their order. -/
def Token.identifiers (tokens : List Token) : List String :=
  tokens.filterMap fun token =>
    if token.kind = .ident then some token.text else none

namespace Leaf

/- The name that a leaf is, whatever its part. -/
def name? : Leaf → Option String
| .operand name | .target name | .label name | .jump name =>
    some name
| .finish | .newline | .number _ | .literal _ | .keyword _
| .sign _ => none

/- The names among leaves, in their order. -/
def names (leaves : List Leaf) : List String :=
  leaves.filterMap name?

/- The names of a longer list of leaves. -/
@[simp]
theorem names_append (leaves more : List Leaf) :
    names (leaves ++ more) = names leaves ++ names more :=
  List.filterMap_append

/- The names of leaves from the first on. -/
@[simp]
theorem names_cons
    (leaf : Leaf)
    (leaves : List Leaf) :
    names (leaf :: leaves) = leaf.name?.toList ++ names leaves := by
  cases leaf <;> rfl

/- No leaves have no names. -/
@[simp]
theorem names_nil : names [] = [] := rfl

/- Line breaks have no names. -/
@[simp]
theorem names_newlines (count : Nat) :
    names (newlines count) = [] := by
  simp [names, newlines, name?]

/- The names of leaves are the identifiers of their tokens. -/
theorem names_eq_identifiers
    {leaves : List Leaf}
    {tokens : List Token}
    (hWords : leaves.map Leaf.word = tokens.map Token.word) :
    names leaves = Token.identifiers tokens := by
  let name? (word : Word) : Option String :=
    if word.1 = .ident then some word.2 else none
  have hTold (leaf : Leaf) : leaf.name? = name? leaf.word := by
    cases leaf <;> rfl
  exact filterMap_of_words hTold hWords

end Leaf

namespace CText

------------------------------------------------------------
-- Identifiers of C
------------------------------------------------------------

/- The keywords of C11. -/
def keywords : List String :=
  ["auto", "break", "case", "char", "const", "continue",
    "default", "do", "double", "else", "enum", "extern",
    "float", "for", "goto", "if", "inline", "int", "long",
    "register", "restrict", "return", "short", "signed",
    "sizeof", "static", "struct", "switch", "typedef", "union",
    "unsigned", "void", "volatile", "while", "_Alignas",
    "_Alignof", "_Atomic", "_Bool", "_Complex", "_Generic",
    "_Imaginary", "_Noreturn", "_Static_assert",
    "_Thread_local"]

/- A letter followed by letters and digits that is no keyword. -/
structure IsIdentifier (name : String) : Prop where
  spelled : Lexeme.IsName name.toList
  free : name ∉ keywords

/- The name that a piece is. -/
def Piece.name? : Piece → Option String
| .name text => some (String.ofList text)
| .number _ | .mark _ => none

/- The names among the pieces of a value. -/
def valueNames (value : String) : List String :=
  ((split none value.toList).getD []).filterMap Piece.name?

/- The variables and labels that a line declares or uses. -/
def Line.names : Line → List String
| .declare name | .label name | .jump name | .scan name => [name]
| .assign name value => name :: valueNames value
| .printValue value | .opening _ value => valueNames value
| .library | .main | .printText _ | .skip | .close | .finish => []

/-
  The C text of a program declares and uses the given names and
  no others. They are identifiers of C if none is a keyword.
-/
structure TakesNames
    (names : List String)
    (program : Statements)
    (text : String) : Prop where
  lines :
    CText.lines text = program.allLines.map Line.text ++ [""]
  names_iff :
    ∀ name,
      name ∈ program.allLines.flatMap Line.names ↔ name ∈ names
  spelled :
    ∀ name ∈ program.allLines.flatMap Line.names,
      Lexeme.IsName name.toList
  valid_iff :
    (∀ name ∈ program.allLines.flatMap Line.names,
        IsIdentifier name) ↔
      ∀ name ∈ names, name ∉ keywords

end CText

open CText

------------------------------------------------------------
-- Names of Values
------------------------------------------------------------

/- The names among leaves that are pieces are those of the pieces. -/
theorem Leaf.names_of_pieces
    {leaves : List Leaf}
    {pieces : List Piece}
    (hPieces : pieces.map some = leaves.map Leaf.piece?) :
    pieces.filterMap Piece.name? = Leaf.names leaves := by
  let name? (piece : Option Piece) : Option String :=
    piece.bind Piece.name?
  calc
    pieces.filterMap Piece.name? =
        (pieces.map some).filterMap name? := by
      rw [List.filterMap_map]
      rfl
    _ = leaves.filterMap (name? ∘ Leaf.piece?) := by
      rw [hPieces, List.filterMap_map]
    _ = Leaf.names leaves := by
      apply List.filterMap_congr
      intro leaf hLeaf
      rcases exists_piece hPieces hLeaf with ⟨piece, hPiece⟩
      cases leaf with
      | operand name =>
          exact congrArg some String.ofList_toList
      | target | label | jump => cases hPiece
      | _ => rfl

/- A value that is split has the names of its pieces. -/
theorem valueNames_of_splits
    {value : String}
    {leaves : List Leaf}
    {pieces : List Piece}
    (hSplits : Splits value.toList pieces)
    (hPieces : pieces.map some = leaves.map Leaf.piece?) :
    valueNames value = Leaf.names leaves := by
  rw [valueNames, hSplits.split_eq, Option.getD_some,
    Leaf.names_of_pieces hPieces]

namespace Tree

/- The text of an expression has the names of its leaves. -/
theorem Expression.valueNames_text
    {expression : Expression}
    (hSpelled :
      ∀ leaf ∈ Expression.leaves expression, leaf.Spelled) :
    valueNames (Expression.text expression) =
      Leaf.names (Expression.leaves expression) :=
  valueNames_of_splits (Expression.splits hSpelled)
    (Expression.map_pieces expression)

/- The text of a comparison has the names of its leaves. -/
theorem Comparison.valueNames_text
    {comparison : Comparison}
    (hSpelled : ∀ leaf ∈ comparison.leaves, leaf.Spelled) :
    valueNames comparison.text = Leaf.names comparison.leaves :=
  valueNames_of_splits (Comparison.splits hSpelled)
    (Chain.map_pieces Expression.map_pieces comparison.chain)

------------------------------------------------------------
-- Names of Lines
------------------------------------------------------------

variable {name : String}
variable {leaves : List Leaf}

/- The lines of a simple statement have the names of its leaves. -/
theorem Simple.mem_names_iff
    {simple : Simple}
    (hSpelled : ∀ leaf ∈ simple.leaves, leaf.Spelled) :
    name ∈ simple.lines.flatMap Line.names ↔
      name ∈ Leaf.names simple.leaves := by
  cases simple with
  | printValue value =>
      have hValue :=
        Expression.valueNames_text fun leaf hLeaf =>
          hSpelled leaf (List.mem_cons_of_mem _ hLeaf)
      simp [lines, leaves, Line.names, Leaf.name?, hValue]
  | assign target value =>
      have hValue :=
        @Expression.valueNames_text value fun leaf hLeaf =>
          hSpelled leaf (by simp [leaves, hLeaf])
      simp [lines, leaves, Line.names, Leaf.name?, hValue]
  | input target =>
      have hZero : valueNames "0" = [] := by decide
      simp [lines, leaves, Line.names, Leaf.name?, hZero]
  | printText | label | jump =>
      simp [lines, leaves, Line.names, Leaf.name?]

/- The lines of statements have the names of their leaves. -/
theorem Statements.Spells.mem_names_iff
    {statements : Statements}
    (hSpells : statements.Spells leaves)
    (hSpelled : ∀ leaf ∈ leaves, leaf.Spelled) :
    name ∈ statements.lines.flatMap Line.names ↔
      name ∈ Leaf.names leaves := by
  induction hSpells with
  | done => rfl
  | simple blanks _ ih =>
      simp only [List.forall_mem_append] at hSpelled
      obtain ⟨⟨hFirst, _⟩, hRest⟩ := hSpelled
      simp only [Statements.lines, List.flatMap_append,
        List.mem_append, Simple.mem_names_iff hFirst, ih hRest,
        Leaf.names_append, Leaf.names_newlines, List.not_mem_nil,
        or_false]
  | @block kind condition _ _ _ _ blanks later _ _ ihInner
      ihRest =>
      simp only [openingLeaves, List.forall_mem_append,
        List.forall_mem_cons] at hSpelled
      obtain
        ⟨⟨⟨⟨⟨⟨_, hCondition⟩, _⟩, _⟩, hInner⟩, _⟩, hRest⟩ :=
        hSpelled
      simp [Statements.lines, openingLeaves, Line.names,
        Leaf.name?, ihInner hInner, ihRest hRest,
        Comparison.valueNames_text hCondition]

/- The lines of a program have the names of its leaves. -/
theorem Statements.SpellsProgram.mem_names_iff
    {program : Statements}
    (hSpells : program.SpellsProgram leaves)
    (hSpelled : ∀ leaf ∈ leaves, leaf.Spelled) :
    name ∈ program.allLines.flatMap Line.names ↔
      name ∈ Leaf.names leaves := by
  -- A name that is declared is the name of a target.
  have hDeclared
      (hTarget : name ∈ program.targets) :
      name ∈ Leaf.names leaves := by
    rw [← hSpells.targets_eq, Leaf.mem_targets_iff] at hTarget
    exact List.mem_filterMap.mpr ⟨_, hTarget, rfl⟩
  have hParts :
      name ∈ program.allLines.flatMap Line.names ↔
        name ∈ program.targets ∨
          name ∈ program.lines.flatMap Line.names := by
    simp [allLines, bodyLines, Line.names, List.flatMap_map]
  rcases hSpells with ⟨blanks, body, rfl, hBody⟩
  have hBodySpelled : ∀ leaf ∈ body, leaf.Spelled := by
    intro leaf hLeaf
    exact hSpelled leaf (by simp [hLeaf])
  have hNames :
      name ∈ program.lines.flatMap Line.names ↔
        name ∈
          Leaf.names (newlines blanks ++ body ++ [.finish]) := by
    simpa [Leaf.name?] using hBody.mem_names_iff hBodySpelled
  rw [hParts, hNames, or_iff_right_of_imp hDeclared]

end Tree

------------------------------------------------------------
-- Compiled Names
------------------------------------------------------------

/- A name that a leaf is, is spelled as a name. -/
theorem Leaf.isName_of_mem_names
    {leaves : List Leaf}
    {name : String}
    (hSpelled : ∀ leaf ∈ leaves, leaf.Spelled)
    (hName : name ∈ Leaf.names leaves) :
    Lexeme.IsName name.toList := by
  rcases List.mem_filterMap.mp hName with ⟨leaf, hLeaf, hSame⟩
  have hFits := hSpelled leaf hLeaf
  cases leaf <;> cases hSame <;> exact hFits.1

/- A program that is read takes the names of its identifiers. -/
theorem Cursor.Reads.takesNames
    {start : Cursor}
    {history : History}
    {program : Statements}
    (hReads : start.Reads history program) :
    TakesNames (Token.identifiers history.tokens) program
      program.generate := by
  have hSpells := hReads.spells
  have hSpelled := hReads.leaf_spelled
  have hNames (name : String) :
      name ∈ program.allLines.flatMap Line.names ↔
        name ∈ Token.identifiers history.tokens := by
    rw [hSpells.mem_names_iff hSpelled,
      Leaf.names_eq_identifiers history.words_eq]
  have hIsName :
      ∀ name ∈ program.allLines.flatMap Line.names,
        Lexeme.IsName name.toList := by
    intro name hName
    rw [hSpells.mem_names_iff hSpelled] at hName
    exact Leaf.isName_of_mem_names hSpelled hName
  constructor
  · exact hSpells.lines_generate hSpelled
  · exact hNames
  · exact hIsName
  · constructor
    · intro hValid name hName
      exact (hValid name ((hNames name).mpr hName)).free
    · intro hFree name hName
      exact ⟨hIsName name hName, hFree name ((hNames name).mp hName)⟩

/-
  In a program that compiles the names are the identifiers of
  the source, each a letter followed by letters and digits. All
  are identifiers of C if and only if none is a keyword of C.
-/
theorem compile_names_valid_iff
    {source text : String}
    (hCompile : compile source = .ok text) :
    ∃ tokens program,
      tokenize source = .ok tokens ∧
        (∀ other : Statements,
          other.IsTreeOf tokens ↔ other = program) ∧
          text = program.generate ∧
            TakesNames (Token.identifiers tokens) program
              text := by
  rcases reads_of_compile hCompile with
    ⟨history, program, hReads, _, hText⟩
  subst hText
  exact
    ⟨history.tokens, program, hReads.tokenize_eq,
      hReads.isTreeOf.iff_eq, rfl, hReads.takesNames⟩

/- A label, a jump, and variables that are read and assigned. -/
theorem compile_names_valid_loop :
    ∃ text,
      compile "INPUT n\nLABEL top\nLET x1 = n\nGOTO top" =
          .ok text ∧
        ∃ tokens program,
          tokenize "INPUT n\nLABEL top\nLET x1 = n\nGOTO top" =
              .ok tokens ∧
            (∀ other : Statements,
              other.IsTreeOf tokens ↔ other = program) ∧
              text = program.generate ∧
                TakesNames (Token.identifiers tokens) program
                  text := by
  have hCompile :
      compile "INPUT n\nLABEL top\nLET x1 = n\nGOTO top" =
        .ok
          ("#include <stdio.h>\nint main(void)\x7b\n" ++
            "float n;\nfloat x1;\n" ++
            "if(0 == scanf(\"%f\", &n)) \x7b\nn = 0;\n" ++
            "scanf(\"%*s\");\n\x7d\ntop:;\nx1 = n;\n" ++
            "goto top;\nreturn 0;\n\x7d\n") := by
    decide +kernel
  exact ⟨_, hCompile, compile_names_valid_iff hCompile⟩

/-
  A keyword of C that Teeny does not reserve is declared and
  assigned to as any other name.
-/
theorem compile_declares_int :
    ∃ text,
      compile "LET int = 1" = .ok text ∧
        (Line.declare "int").text ∈ CText.lines text ∧
          (Line.assign "int" "1").text ∈ CText.lines text ∧
            ¬ IsIdentifier "int" := by
  have hCompile :
      compile "LET int = 1" =
        .ok
          ("#include <stdio.h>\nint main(void)\x7b\n" ++
            "float int;\nint = 1;\nreturn 0;\n\x7d\n") := by
    decide +kernel
  refine ⟨_, hCompile, by decide +kernel, by decide +kernel, ?_⟩
  intro hIdentifier
  exact hIdentifier.free (by decide)

end TeenyC
