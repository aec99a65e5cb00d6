import TeenyC.Proofs.Parsing.Program
import TeenyC.Proofs.Tree.Viability

/-
  Which programs compile, and to what.

  A program compiles if the grammar derives its tokens, no label
  is declared twice, every variable is assigned to before it is
  read, and every jump has its label. Its C text is that of its
  syntax tree.

  Key theorems include:
    * `compile_ok_iff`
    * `compile_eq_generate`
-/

namespace TeenyC

open TeenyC.Tree

------------------------------------------------------------
-- Readable Programs
------------------------------------------------------------

/- The tokens of a program that is read are those of its text. -/
theorem Cursor.Reads.tokenize_eq
    {source : String}
    {history : History}
    {program : Statements}
    (hReads : (Cursor.start source).Reads history program) :
    tokenize source = .ok history.tokens :=
  (tokenize_eq_ok_iff source history.tokens).mpr
    ⟨hReads.ends, hReads.supplied⟩

/- The tokens of a text are those of the program that is read. -/
theorem Cursor.Reads.tokens_eq
    {source : String}
    {tokens : List Token}
    {history : History}
    {program : Statements}
    (hReads : (Cursor.start source).Reads history program)
    (hTokens : tokenize source = .ok tokens) :
    tokens = history.tokens :=
  Except.ok.inj (hTokens.symm.trans hReads.tokenize_eq)

/- A program that is read is a tree of the tokens. -/
theorem Cursor.Reads.isTreeOf
    {start : Cursor}
    {history : History}
    {program : Statements}
    (hReads : start.Reads history program) :
    program.IsTreeOf history.tokens :=
  ⟨history.leaves, hReads.spells, history.words_eq⟩

/- A compilation that succeeds has read a program. -/
theorem reads_of_compile
    {source text : String}
    (hCompile : compile source = .ok text) :
    ∃ history program,
      (Cursor.start source).Reads history program ∧
        history.stray? = none ∧ text = program.generate := by
  unfold compile at hCompile
  cases Compilation.outcome source with
  | accepted hResult hReads hStray hOutput _ =>
      rw [hResult] at hCompile
      cases hCompile
      exact ⟨_, _, hReads, hStray, hOutput⟩
  | refused hResult _ =>
      rw [hResult] at hCompile
      cases hCompile

/- A compilation that fails gives a diagnostic it deserves. -/
theorem refused_of_compile
    {source : String}
    {d : Diagnostic}
    (hCompile : compile source = .error d) :
    Refused (Cursor.start source) d := by
  unfold compile at hCompile
  cases Compilation.outcome source with
  | accepted hResult _ _ _ _ =>
      rw [hResult] at hCompile
      cases hCompile
  | refused hResult hRefused =>
      rw [hResult] at hCompile
      cases hCompile
      exact hRefused

------------------------------------------------------------
-- Acceptance
------------------------------------------------------------

variable {source : String}
variable {tokens : List Token}

/- If all tokens can be read, no further token is a fault. -/
theorem nextToken_ne_error
    {others : List Token}
    {c next : Cursor}
    {e : LexError}
    (hNul : '\x00' ∉ source.toList)
    (hTokens : tokenize source = .ok tokens)
    (hSupplied : (Cursor.start source).Supplies others c) :
    c.nextToken ≠ (.error e, next) := by
  obtain ⟨hEnds, last, hSupply⟩ :=
    (tokenize_eq_ok_iff source tokens).mp hTokens
  rcases hSupply.nextToken_ok (Cursor.clean_start hNul) hEnds
      hSupplied with
    ⟨token, after, hNext⟩
  simp [hNext]

/- What is met before the end of input begins the tokens. -/
theorem prefix_of_supplies
    {history : History}
    {token : Token}
    {more : List Token}
    {c : Cursor}
    (hTokens : tokenize source = .ok tokens)
    (hSupplied :
      (Cursor.start source).Supplies
        (history.tokens ++ token :: more) c)
    (hUnfinished : .finish ∉ history.leaves) :
    history.tokens ++ [token] <+: tokens := by
  obtain ⟨hEnds, last, hSupply⟩ :=
    (tokenize_eq_ok_iff source tokens).mp hTokens
  exact
    hSupply.prefix_of_open hEnds hSupplied
      (History.kind_ne_eof hUnfinished)

/- The words of what is met begin the words of the tokens. -/
theorem words_begin
    {history : History}
    {token : Token}
    (hPrefix : history.tokens ++ [token] <+: tokens) :
    history.leaves.map Leaf.word ++ [token.word] <+:
      tokens.map Token.word := by
  have hMap := hPrefix.map Token.word
  rwa [List.map_append, ← history.words_eq] at hMap

/- A program that is as it should be compiles to its C text. -/
theorem compile_of_spells
    {program : Statements}
    {leaves : List Leaf}
    (hNul : '\x00' ∉ source.toList)
    (hTokens : tokenize source = .ok tokens)
    (hSpells : program.SpellsProgram leaves)
    (hWords : leaves.map Leaf.word = tokens.map Token.word)
    (hNamed : Leaf.WellNamed leaves)
    (hLand : Leaf.JumpsLand leaves) :
    compile source = .ok program.generate := by
  have hProgram := Draft.path_program hSpells
  cases hCompile : compile source with
  | ok text =>
    rcases reads_of_compile hCompile with
      ⟨history, other, hReads, _, hText⟩
    have hSame := hReads.tokens_eq hTokens
    subst hSame
    have hTree : program.IsTreeOf history.tokens :=
      ⟨leaves, hSpells, hWords⟩
    rw [hText, hTree.unique hReads.isTreeOf]
  | error d =>
    exfalso
    cases refused_of_compile hCompile with
    | lexical hSupplied hFault =>
        exact nextToken_ne_error hNul hTokens hSupplied hFault
    | grammar hSupplied hPath hUnfinished _ hRead =>
        have hPrefix :=
          prefix_of_supplies hTokens hSupplied hUnfinished
        apply hPath.not_refused hRead hProgram
        rw [hWords]
        exact words_begin hPrefix
    | @naming history placed _ _ _ _ hSupplied hPath
        hUnfinished _ hOffends =>
        have hPrefix :=
          prefix_of_supplies hTokens hSupplied hUnfinished
        have hBegins := words_begin hPrefix
        rw [← hWords] at hBegins
        rcases hPath.leaves_begin hProgram
            (by simpa using hBegins) with
          ⟨more, hLeaves, _⟩
        rw [← List.append_cons] at hLeaves
        exact hOffends (hNamed _ _ more hLeaves)
    | @stray history other jump hReads hStray =>
        have hSame := hReads.tokens_eq hTokens
        subst hSame
        rw [← history.words_eq] at hWords
        have hLeaves := (hSpells.unique hReads.spells hWords).2
        rw [hLeaves, ← History.stray?_eq_none_iff, hStray]
          at hLand
        cases hLand

------------------------------------------------------------
-- A Program with Nested Blocks
------------------------------------------------------------

/-
  A program with a block in a block, a chain of operators with a
  sign, a variable that its own first value reads, and a jump
  ahead, out of both blocks.
-/
def nestedSource : String :=
  "INPUT n\nWHILE n > 0 REPEAT\nLET m = m - -n * 2 / 4\n" ++
    "IF m == 3 THEN\nGOTO out\nENDIF\nENDWHILE\nLABEL out"

/- The syntax tree of the program. -/
def nestedTree : Statements :=
  let plain operand : Factor := { sign := none, operand := operand }
  let minus operand : Factor :=
    { sign := some ⟨.minus, rfl⟩, operand := operand }
  let quotient : Term :=
    .join
      (.join (.single (minus (.variable "n"))) ⟨.times, rfl⟩
        (plain (.number "2")))
      ⟨.divide, rfl⟩ (plain (.number "4"))
  let difference : Expression :=
    .join (.single (.single (plain (.variable "m"))))
      ⟨.minus, rfl⟩ quotient
  let positive : Comparison :=
    { left := .single (.single (.single (plain (.variable "n"))))
      sign := ⟨.greater, rfl⟩
      right := .single (.single (plain (.number "0"))) }
  let three : Comparison :=
    { left := .single (.single (.single (plain (.variable "m"))))
      sign := ⟨.equal, rfl⟩
      right := .single (.single (plain (.number "3"))) }
  .simple (.input "n")
    (.block .repetition positive
      (.simple (.assign "m" difference)
        (.block .conditional three (.simple (.jump "out") .done)
          .done))
      (.simple (.label "out") .done))

/- The leaves of the program. -/
def nestedLeaves : List Leaf :=
  [.keyword .input, .target "n", .newline,
    .keyword .whileKw, .operand "n", .sign .greater, .number "0",
    .keyword .repeatKw, .newline,
    .keyword .letKw, .target "m", .sign .assign,
    .operand "m", .sign .minus, .sign .minus, .operand "n",
    .sign .times, .number "2", .sign .divide, .number "4",
    .newline,
    .keyword .ifKw, .operand "m", .sign .equal, .number "3",
    .keyword .thenKw, .newline,
    .keyword .goto, .jump "out", .newline,
    .keyword .endIf, .newline,
    .keyword .endWhile, .newline,
    .keyword .label, .label "out", .newline, .finish]

/- The leaves spell the tree. -/
theorem spells_nested :
    nestedTree.SpellsProgram nestedLeaves :=
  ⟨0, _, rfl,
    .simple 0
      (.block 0 0
        (.simple 0 (.block 0 0 (.simple 0 .done) .done))
        (.simple 0 .done))⟩

/- The text is split into tokens that have the words of the leaves. -/
theorem exists_tokenize_nested :
    ∃ tokens,
      tokenize nestedSource = .ok tokens ∧
        nestedLeaves.map Leaf.word = tokens.map Token.word := by
  have hWords :
      (tokenize nestedSource).map (List.map Token.word) =
        .ok (nestedLeaves.map Leaf.word) := by
    decide +kernel
  cases hTokens : tokenize nestedSource with
  | error e =>
      rw [hTokens] at hWords
      cases hWords
  | ok tokens =>
      rw [hTokens] at hWords
      exact ⟨tokens, rfl, (Except.ok.inj hWords).symm⟩

/- The program has no NUL, and uses its names by the rules. -/
theorem rules_nested :
    '\x00' ∉ nestedSource.toList ∧
      Leaf.WellNamed nestedLeaves ∧
        Leaf.JumpsLand nestedLeaves := by
  decide +kernel

------------------------------------------------------------
-- Programs That Compile
------------------------------------------------------------

/-
  A program compiles if and only if the grammar derives its
  tokens and its names are as they should be.
-/
theorem compile_ok_iff
    (hNul : '\x00' ∉ source.toList) :
    (∃ text, compile source = .ok text) ↔
      ∃ tokens program leaves,
        tokenize source = .ok tokens ∧
          Statements.SpellsProgram program leaves ∧
            leaves.map Leaf.word = tokens.map Token.word ∧
              (Leaf.labels leaves).Nodup ∧
                Leaf.AssignedBeforeUse leaves ∧
                  Leaf.JumpsLand leaves := by
  constructor
  · intro hCompiles
    rcases hCompiles with ⟨text, hCompile⟩
    rcases reads_of_compile hCompile with
      ⟨history, program, hReads, hStray, _⟩
    obtain ⟨hAssigned, hLabels⟩ :=
      Leaf.wellNamed_iff.mp hReads.named
    exact
      ⟨history.tokens, program, history.leaves,
        hReads.tokenize_eq, hReads.spells, history.words_eq,
        hLabels, hAssigned,
        History.stray?_eq_none_iff.mp hStray⟩
  · intro hDerives
    rcases hDerives with
      ⟨tokens, program, leaves, hTokens, hSpells, hWords, hLabels, hAssigned, hLand⟩
    exact
      ⟨program.generate,
        compile_of_spells hNul hTokens hSpells hWords
          (Leaf.wellNamed_iff.mpr ⟨hAssigned, hLabels⟩) hLand⟩

/- A program with blocks and a chain of signed operands compiles. -/
theorem compile_ok_nested :
    '\x00' ∉ nestedSource.toList ∧
      ∃ text, compile nestedSource = .ok text := by
  rcases exists_tokenize_nested with ⟨tokens, hTokens, hWords⟩
  rcases rules_nested with ⟨hNul, hNamed, hLand⟩
  obtain ⟨hAssigned, hLabels⟩ := Leaf.wellNamed_iff.mp hNamed
  exact
    ⟨hNul, (compile_ok_iff hNul).mpr
      ⟨tokens, nestedTree, nestedLeaves, hTokens,
        spells_nested, hWords, hLabels, hAssigned, hLand⟩⟩

------------------------------------------------------------
-- The C Text
------------------------------------------------------------

/-
  The C text of a program is generated from its syntax tree,
  which is the only tree of its tokens.
-/
theorem compile_eq_generate
    {text : String}
    (hCompile : compile source = .ok text) :
    ∃ tokens program,
      tokenize source = .ok tokens ∧
        (∀ other : Statements,
          other.IsTreeOf tokens ↔ other = program) ∧
          text = program.generate := by
  rcases reads_of_compile hCompile with
    ⟨history, program, hReads, _, hText⟩
  exact
    ⟨history.tokens, program, hReads.tokenize_eq,
      hReads.isTreeOf.iff_eq, hText⟩

/- The C text of a program with blocks and signed operands. -/
theorem compile_eq_generate_nested :
    let text :=
      "#include <stdio.h>\nint main(void)\x7b\n" ++
        "float n;\nfloat m;\n" ++
        "if(0 == scanf(\"%f\", &n)) \x7b\nn = 0;\n" ++
        "scanf(\"%*s\");\n\x7d\nwhile(n > 0)\x7b\n" ++
        "m = m - -n * 2 / 4;\nif(m == 3)\x7b\ngoto out;\n" ++
        "\x7d\n\x7d\nout:;\nreturn 0;\n\x7d\n"
    ∃ tokens,
      compile nestedSource = .ok text ∧
        tokenize nestedSource = .ok tokens ∧
          (∀ other : Statements,
            other.IsTreeOf tokens ↔ other = nestedTree) ∧
            text = nestedTree.generate := by
  intro text
  have hText : text = nestedTree.generate := by
    decide +kernel
  rcases exists_tokenize_nested with ⟨tokens, hTokens, hWords⟩
  rcases rules_nested with ⟨hNul, hNamed, hLand⟩
  have hCompile : compile nestedSource = .ok text := by
    rw [hText]
    exact
      compile_of_spells hNul hTokens spells_nested hWords hNamed
        hLand
  rcases compile_eq_generate hCompile with
    ⟨found, program, hFound, hTree, hGenerated⟩
  rw [hTokens] at hFound
  cases hFound
  have hSame : nestedTree = program :=
    (hTree nestedTree).mp ⟨nestedLeaves, spells_nested, hWords⟩
  subst hSame
  exact ⟨tokens, hCompile, hTokens, hTree, hGenerated⟩

end TeenyC
