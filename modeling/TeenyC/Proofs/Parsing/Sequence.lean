import Mathlib.Data.List.Nodup
import TeenyC.Proofs.Parsing.Acceptance
import TeenyC.Proofs.Token.Place

/-
  One program after another.

  The words of two texts with a line break between them are the
  words of the first, but for its end, and those of the second.
  The trees are joined in the same way. If no label is declared
  in both, what compiles alone compiles together: the statements
  follow each other, and the second program adds the declarations
  that the first does not have.

  Key definitions include:
    * `Tree.Statements.labels`
    * `Tree.Statements.declared`
    * `Tree.Statements.IsProgramOf`

  Key theorems include:
    * `Lexeme.Yields.append`
    * `Tree.Statements.SpellsProgram.append`
    * `Tree.Statements.generate_append`
    * `compile_append_line`
-/

namespace TeenyC

open TeenyC.Tree

------------------------------------------------------------
-- Words
------------------------------------------------------------

/-
  After whole lines the words go on with those of what follows,
  where the end of input stood.
-/
theorem Lexeme.Yields.append
    {first second : List Char}
    {words later : List Word}
    (hNul : '\x00' ∉ first)
    (hFirst :
      Yields (first ++ ['\n']) (words ++ [Leaf.finish.word]))
    (hSecond : Yields second later) :
    Yields (first ++ ['\n'] ++ second) (words ++ later) := by
  rcases hFirst.begins_line hNul with ⟨lines, hBegins⟩
  have hLine :
      ∀ word ∈ (lines ++ [Leaf.newline.word]).getLast?,
        word.isBreak = true := by
    simp [Leaf.word, Word.isBreak, Leaf.kind]
  have hAlone :
      Yields (first ++ ['\n'] ++ [])
        (words ++ [Leaf.finish.word]) := by
    rwa [List.append_nil]
  rcases hBegins.yields_iff.mp hAlone with ⟨end_, hEnd, hWords⟩
  have hFinish : end_ = [Leaf.finish.word] := by
    cases hEnd with
    | finish _ => rfl
    | lexeme hRead _ => cases hRead
  rw [hFinish] at hWords
  obtain ⟨hSame, _⟩ := List.append_inj' hWords rfl
  rw [hSame]
  exact
    (hBegins.of_start hLine second).yields_iff.mpr
      ⟨later, hSecond, rfl⟩

/- The tokens of two texts with a line break between them. -/
theorem exists_tokenize_append
    {first second : String}
    {firstTokens secondTokens : List Token}
    {words : List Word}
    (hNul : '\x00' ∉ first.toList)
    (hFirst : tokenize first = .ok firstTokens)
    (hSecond : tokenize second = .ok secondTokens)
    (hWords :
      firstTokens.map Token.word =
        words ++ [Leaf.finish.word]) :
    ∃ tokens,
      tokenize (first ++ "\n" ++ second) = .ok tokens ∧
        tokens.map Token.word =
          words ++ secondTokens.map Token.word := by
  have hFirstYields :=
    (exists_tokenize_iff first _).mp ⟨_, hFirst, hWords⟩
  have hSecondYields :=
    (exists_tokenize_iff second _).mp ⟨_, hSecond, rfl⟩
  apply (exists_tokenize_iff _ _).mpr
  have hText :
      (first ++ "\n" ++ second).toList ++ ['\n'] =
        first.toList ++ ['\n'] ++ (second.toList ++ ['\n']) := by
    simp
  rw [hText]
  exact hFirstYields.append hNul hSecondYields

------------------------------------------------------------
-- Names
------------------------------------------------------------

namespace Leaf

variable {leaves later : List Leaf}

/- Variables stay assigned before their use. -/
theorem AssignedBeforeUse.append
    (hFirst : AssignedBeforeUse leaves)
    (hSecond : AssignedBeforeUse later) :
    AssignedBeforeUse (leaves ++ later) := by
  intro before name after hSplit
  rcases List.append_eq_append_iff.mp hSplit with
    ⟨more, hBefore, hLater⟩ | ⟨more, hLeaves, hAfter⟩
  · have hTarget := hSecond more name after hLater
    rw [hBefore]
    exact List.mem_append_right _ hTarget
  · cases more with
    | nil =>
        have hTarget := hSecond [] name after hAfter.symm
        cases hTarget
    | cons leaf more =>
        obtain ⟨rfl, _⟩ := List.cons.inj hAfter
        exact hFirst before name more hLeaves

/- Names stay right if no label is declared twice. -/
theorem WellNamed.append
    (hFirst : WellNamed leaves)
    (hSecond : WellNamed later)
    (hApart : (labels leaves).Disjoint (labels later)) :
    WellNamed (leaves ++ later) := by
  obtain ⟨hAssigned, hNodup⟩ := wellNamed_iff.mp hFirst
  obtain ⟨hLater, hOthers⟩ := wellNamed_iff.mp hSecond
  apply wellNamed_iff.mpr
  refine ⟨hAssigned.append hLater, ?_⟩
  rw [labels_append]
  exact List.Nodup.append hNodup hOthers hApart

/- The end of input is no jump and no label. -/
theorem JumpsLand.of_snoc_finish
    (hLand : JumpsLand (leaves ++ [.finish])) :
    JumpsLand leaves := by
  intro name hJump
  have hLabel := hLand name (List.mem_append_left _ hJump)
  simpa using hLabel

/- Jumps land where they landed. -/
theorem JumpsLand.append
    (hFirst : JumpsLand leaves)
    (hSecond : JumpsLand later) :
    JumpsLand (leaves ++ later) := by
  intro name hJump
  rcases List.mem_append.mp hJump with hHere | hThere
  · exact List.mem_append_left _ (hFirst name hHere)
  · exact List.mem_append_right _ (hSecond name hThere)

end Leaf

------------------------------------------------------------
-- Trees
------------------------------------------------------------

namespace Tree

/- The label that a simple statement declares. -/
def Simple.label? : Simple → Option String
| .label name => some name
| .printText _ | .printValue _ | .jump _ | .assign _ _
| .input _ => none

/- The labels that statements declare, in source order. -/
def Statements.labels : Statements → List String
| .done => []
| .simple first rest => first.label?.toList ++ rest.labels
| .block _ _ inner rest => inner.labels ++ rest.labels

/- The variables of a program, in the order of their first places. -/
def Statements.declared (program : Statements) : List String :=
  program.targets.eraseDups

/- The declarations of variables, each on a line of its own. -/
def Statements.declarations (names : List String) : String :=
  String.join (names.map declaration)

/-
  The C text of one program after another: the second adds the
  declarations that the first does not have, and its statements.
-/
def Statements.generateBoth
    (first second : Statements) : String :=
  preamble ++
    (declarations first.declared ++
      (declarations
          (second.declared.filter (· ∉ first.declared)) ++
        (first.text ++ (second.text ++ closing))))

/- The tree of a text, and the only one. -/
def Statements.IsProgramOf
    (program : Statements)
    (source : String) : Prop :=
  ∃ tokens,
    tokenize source = .ok tokens ∧
      ∀ other : Statements,
        other.IsTreeOf tokens ↔ other = program

/- The tree of a text, and the parts of the C text it has. -/
structure Statements.CompilesTo
    (program : Statements)
    (source text : String) : Prop where
  tree : program.IsProgramOf source
  text_eq :
    text =
      preamble ++
        (declarations program.declared ++
          (program.text ++ closing))

/- A simple statement declares its label. -/
theorem labels_simple (simple : Simple) :
    Leaf.labels simple.leaves = simple.label?.toList := by
  cases simple <;>
    simp [Simple.leaves, Simple.label?, Leaf.label?,
      Leaf.labels_of_plain (plain_expression _)]

/- Leaves declare the labels of the tree they spell. -/
theorem Statements.Spells.labels_eq
    {statements : Statements}
    {leaves : List Leaf}
    (hSpells : statements.Spells leaves) :
    Leaf.labels leaves = statements.labels := by
  induction hSpells with
  | done => rfl
  | simple blanks _ ih =>
      simp [labels_simple, ih, Statements.labels,
        Leaf.labels_of_plain (plain_newlines _)]
  | block blanks later _ _ ihInner ihRest =>
      simp [ihInner, ihRest, Statements.labels, Leaf.label?,
        Leaf.labels_of_plain (plain_newlines _),
        Leaf.labels_of_plain (plain_openingLeaves _ _)]

/- A program's leaves declare the labels of its tree. -/
theorem Statements.SpellsProgram.labels_eq
    {program : Statements}
    {leaves : List Leaf}
    (hSpells : program.SpellsProgram leaves) :
    Leaf.labels leaves = program.labels := by
  rcases hSpells with ⟨blanks, body, hLeaves, hBody⟩
  simp [hLeaves, hBody.labels_eq, Leaf.label?,
    Leaf.labels_of_plain (plain_newlines _)]

namespace Statements

/- Blank lines may follow the last of some statements. -/
theorem Spells.append_newlines
    {statements : Statements}
    {leaves : List Leaf}
    (hSpells : statements.Spells leaves)
    (hSome : statements ≠ .done)
    (count : Nat) :
    statements.Spells (leaves ++ newlines count) := by
  induction count with
  | zero => rwa [newlines, List.replicate_zero, List.append_nil]
  | succ count ih =>
      rw [← newlines_snoc, ← List.append_assoc]
      exact ih.snoc_newline hSome

/- A program is spelled with the end of input last. -/
theorem SpellsProgram.exists_snoc
    {program : Statements}
    {leaves : List Leaf}
    (hSpells : program.SpellsProgram leaves) :
    ∃ before, leaves = before ++ [.finish] := by
  rcases hSpells with ⟨blanks, body, hLeaves, _⟩
  exact ⟨newlines blanks ++ body, hLeaves⟩

/- Programs are spelled one after another, but for the first end. -/
theorem SpellsProgram.append
    {first second : Statements}
    {leaves later : List Leaf}
    (hFirst : first.SpellsProgram (leaves ++ [.finish]))
    (hSecond : second.SpellsProgram later) :
    (first.append second).SpellsProgram (leaves ++ later) := by
  rcases hFirst with ⟨blanks, body, hLeaves, hBody⟩
  rcases hSecond with ⟨others, more, hLater, hMore⟩
  obtain ⟨hLeaves, _⟩ := List.append_inj' hLeaves rfl
  rw [hLeaves, hLater]
  -- The second program's blank lines follow what stands before.
  by_cases hNone : first = .done
  · subst hNone
    cases hBody
    refine ⟨blanks + others, more, ?_, hMore⟩
    simp [newlines, ← List.replicate_append_replicate]
  · have hLonger := hBody.append_newlines hNone others
    refine
      ⟨blanks, body ++ newlines others ++ more, ?_,
        hLonger.append hMore⟩
    simp

/- One program after another assigns to the variables of both. -/
theorem targets_append
    (first second : Statements) :
    (first.append second).targets =
      first.targets ++ second.targets := by
  induction first with
  | done => rfl
  | simple statement rest ih => simp [append, targets, ih]
  | block kind condition inner rest _ ih =>
      simp [append, targets, ih]

end Statements

/- Names that are listed in two lists, the first places first. -/
theorem eraseDups_append
    (names more : List String) :
    (names ++ more).eraseDups =
      names.eraseDups ++
        more.eraseDups.filter (· ∉ names.eraseDups) := by
  induction more using List.reverseRecOn with
  | nil => simp
  | append_singleton more last ih =>
      rw [← List.append_assoc, Session.eraseDups_snoc, ih,
        Session.eraseDups_snoc]
      by_cases hFirst : last ∈ names <;>
        by_cases hMore : last ∈ more <;>
        simp [hFirst, hMore]

namespace Statements

/- The declarations of two lists of names follow each other. -/
theorem declarations_append (names more : List String) :
    declarations (names ++ more) =
      declarations names ++ declarations more := by
  rw [declarations, declarations, declarations, List.map_append,
    String.join_append]

/- A program is its preamble, declarations, statements and closing. -/
theorem generate_eq (program : Statements) :
    program.generate =
      preamble ++
        (declarations program.declared ++
          (program.text ++ closing)) := by
  simp only [generate, declarations, declared,
    String.append_assoc]

/- One program after another is written as both. -/
theorem generate_append (first second : Statements) :
    (first.append second).generate =
      first.generateBoth second := by
  rw [generate_eq, declared, targets_append, eraseDups_append,
    declarations_append, text_append, String.append_assoc,
    String.append_assoc]
  rfl

end Statements

end Tree

------------------------------------------------------------
-- Compilations
------------------------------------------------------------

variable {first second : String}

variable {program other : Statements}
variable {source : String}

/- A tree of the tokens of a text is its program. -/
theorem Tree.Statements.IsTreeOf.isProgramOf
    {tokens : List Token}
    (hTree : program.IsTreeOf tokens)
    (hTokens : tokenize source = .ok tokens) :
    program.IsProgramOf source :=
  ⟨tokens, hTokens, hTree.iff_eq⟩

/- A text has one program. -/
theorem Tree.Statements.IsProgramOf.unique
    (hProgram : program.IsProgramOf source)
    (hOther : other.IsProgramOf source) :
    program = other := by
  rcases hProgram with ⟨tokens, hTokens, hTree⟩
  rcases hOther with ⟨others, hOthers, hOtherTree⟩
  rw [hTokens] at hOthers
  cases hOthers
  exact (hOtherTree program).mp ((hTree program).mpr rfl)

/- A program that is read is written as its C text. -/
theorem Cursor.Reads.compilesTo
    {history : History}
    (hReads : (Cursor.start source).Reads history program) :
    program.CompilesTo source program.generate :=
  ⟨hReads.isTreeOf.isProgramOf hReads.tokenize_eq,
    program.generate_eq⟩

/- Two programs that are as they should be are so together. -/
theorem compile_append_of_spells
    {firstTokens secondTokens : List Token}
    {firstProgram secondProgram : Statements}
    {leaves later : List Leaf}
    (hFirstNul : '\x00' ∉ first.toList)
    (hSecondNul : '\x00' ∉ second.toList)
    (hFirst : tokenize first = .ok firstTokens)
    (hSecond : tokenize second = .ok secondTokens)
    (hFirstSpells :
      firstProgram.SpellsProgram (leaves ++ [.finish]))
    (hSecondSpells : secondProgram.SpellsProgram later)
    (hFirstWords :
      (leaves ++ [Leaf.finish]).map Leaf.word =
        firstTokens.map Token.word)
    (hSecondWords :
      later.map Leaf.word = secondTokens.map Token.word)
    (hNamed : Leaf.WellNamed (leaves ++ later))
    (hLand : Leaf.JumpsLand (leaves ++ later)) :
    compile (first ++ "\n" ++ second) =
      .ok (firstProgram.append secondProgram).generate := by
  have hEnd :
      firstTokens.map Token.word =
        leaves.map Leaf.word ++ [Leaf.finish.word] := by
    rw [← hFirstWords, List.map_append]
    rfl
  rcases exists_tokenize_append hFirstNul hFirst hSecond hEnd with
    ⟨tokens, hTokens, hWords⟩
  have hNul : '\x00' ∉ (first ++ "\n" ++ second).toList := by
    simp [hFirstNul, hSecondNul]
  apply
    compile_of_spells hNul hTokens
      (hFirstSpells.append hSecondSpells) _ hNamed hLand
  rw [hWords, List.map_append, hSecondWords]

/-
  Two programs that compile and declare no common label compile
  one after the other. The C text has the declarations of the
  first program, those of the second for what the first does not
  declare, and the statements of both.
-/
theorem compile_append_line
    {firstText secondText : String}
    (hFirstNul : '\x00' ∉ first.toList)
    (hSecondNul : '\x00' ∉ second.toList)
    (hFirst : compile first = .ok firstText)
    (hSecond : compile second = .ok secondText) :
    ∃ firstProgram secondProgram : Statements,
      firstProgram.CompilesTo first firstText ∧
        secondProgram.CompilesTo second secondText ∧
          (firstProgram.labels.Disjoint secondProgram.labels →
            compile (first ++ "\n" ++ second) =
              .ok (firstProgram.generateBoth secondProgram)) := by
  rcases reads_of_compile hFirst with
    ⟨history, program, hReads, hStray, hText⟩
  rcases reads_of_compile hSecond with
    ⟨otherHistory, other, hOther, hOtherStray, hOtherText⟩
  subst hText hOtherText
  refine
    ⟨program, other, hReads.compilesTo, hOther.compilesTo, ?_⟩
  intro hApart
  have hSpells := hReads.spells
  have hNamed := hReads.named
  have hLand := History.stray?_eq_none_iff.mp hStray
  have hWords := history.words_eq
  rcases hSpells.exists_snoc with ⟨leaves, hLeaves⟩
  rw [← hSpells.labels_eq, ← hOther.spells.labels_eq] at hApart
  rw [hLeaves] at hSpells hNamed hLand hWords hApart
  have hLabels :
      (Leaf.labels leaves).Disjoint
        (Leaf.labels otherHistory.leaves) := by
    simpa [Leaf.label?] using hApart
  have hBegun := (Leaf.wellNamed_snoc_iff.mp hNamed).1
  have hOtherLand := History.stray?_eq_none_iff.mp hOtherStray
  rw [← Statements.generate_append]
  exact
    compile_append_of_spells hFirstNul hSecondNul
      hReads.tokenize_eq hOther.tokenize_eq hSpells
      hOther.spells hWords otherHistory.words_eq
      (hBegun.append hOther.named hLabels)
      (hLand.of_snoc_finish.append hOtherLand)

/- A comment at the seam, blank lines, and a variable of both. -/
theorem compile_append_line_shared :
    ∃ first second firstText secondText : String,
      ∃ firstProgram secondProgram : Statements,
        first = "LET a = 1\nLABEL x # c" ∧
          second = "\nINPUT b\nINPUT a\nLABEL y" ∧
            firstProgram.CompilesTo first firstText ∧
              secondProgram.CompilesTo second secondText ∧
                firstProgram.labels.Disjoint
                    secondProgram.labels ∧
                  compile (first ++ "\n" ++ second) =
                    .ok
                      (firstProgram.generateBoth
                        secondProgram) := by
  have hFirst :
      compile "LET a = 1\nLABEL x # c" =
        .ok
          ("#include <stdio.h>\nint main(void)\x7b\n" ++
            "float a;\na = 1;\nx:;\nreturn 0;\n\x7d\n") := by
    decide +kernel
  have hSecond :
      compile "\nINPUT b\nINPUT a\nLABEL y" =
        .ok
          ("#include <stdio.h>\nint main(void)\x7b\n" ++
            "float b;\nfloat a;\n" ++
            "if(0 == scanf(\"%f\", &b)) \x7b\nb = 0;\n" ++
            "scanf(\"%*s\");\n\x7d\n" ++
            "if(0 == scanf(\"%f\", &a)) \x7b\na = 0;\n" ++
            "scanf(\"%*s\");\n\x7d\n" ++
            "y:;\nreturn 0;\n\x7d\n") := by
    decide +kernel
  have hTokens :
      tokenize "LET a = 1\nLABEL x # c" =
        .ok
          [{ kind := .keyword .letKw, text := "LET", line := 1 },
            { kind := .ident, text := "a", line := 1 },
            { kind := .operator .assign, text := "=", line := 1 },
            { kind := .number, text := "1", line := 1 },
            { kind := .newline, text := "\n", line := 1 },
            { kind := .keyword .label, text := "LABEL", line := 2 },
            { kind := .ident, text := "x", line := 2 },
            { kind := .newline, text := "\n", line := 2 },
            { kind := .eof, text := "", line := 3 }] := by
    decide +kernel
  have hOthers :
      tokenize "\nINPUT b\nINPUT a\nLABEL y" =
        .ok
          [{ kind := .newline, text := "\n", line := 1 },
            { kind := .keyword .input, text := "INPUT", line := 2 },
            { kind := .ident, text := "b", line := 2 },
            { kind := .newline, text := "\n", line := 2 },
            { kind := .keyword .input, text := "INPUT", line := 3 },
            { kind := .ident, text := "a", line := 3 },
            { kind := .newline, text := "\n", line := 3 },
            { kind := .keyword .label, text := "LABEL", line := 4 },
            { kind := .ident, text := "y", line := 4 },
            { kind := .newline, text := "\n", line := 4 },
            { kind := .eof, text := "", line := 5 }] := by
    decide +kernel
  let value : Expression :=
    .single (.single { sign := none, operand := .number "1" })
  let program : Statements :=
    .simple (.assign "a" value) (.simple (.label "x") .done)
  let other : Statements :=
    .simple (.input "b")
      (.simple (.input "a") (.simple (.label "y") .done))
  have hSpells :
      program.SpellsProgram
        [.keyword .letKw, .target "a", .sign .assign, .number "1",
          .newline, .keyword .label, .label "x", .newline,
          .finish] :=
    ⟨0, _, rfl, .simple 0 (.simple 0 .done)⟩
  have hOtherSpells :
      other.SpellsProgram
        [.newline, .keyword .input, .target "b", .newline,
          .keyword .input, .target "a", .newline,
          .keyword .label, .label "y", .newline, .finish] :=
    ⟨1, _, rfl, .simple 0 (.simple 0 (.simple 0 .done))⟩
  have hProgram :=
    Statements.IsTreeOf.isProgramOf ⟨_, hSpells, by decide⟩
      hTokens
  have hOther :=
    Statements.IsTreeOf.isProgramOf ⟨_, hOtherSpells, by decide⟩
      hOthers
  have hNul : '\x00' ∉ "LET a = 1\nLABEL x # c".toList := by
    decide +kernel
  have hOtherNul :
      '\x00' ∉ "\nINPUT b\nINPUT a\nLABEL y".toList := by
    decide +kernel
  rcases compile_append_line hNul hOtherNul hFirst hSecond with
    ⟨firstProgram, secondProgram, hFirstTo, hSecondTo, hBoth⟩
  have hApart :
      firstProgram.labels.Disjoint secondProgram.labels := by
    rw [← hProgram.unique hFirstTo.tree,
      ← hOther.unique hSecondTo.tree, List.disjoint_left]
    decide
  exact
    ⟨_, _, _, _, firstProgram, secondProgram, rfl, rfl,
      hFirstTo, hSecondTo, hApart, hBoth hApart⟩

end TeenyC
