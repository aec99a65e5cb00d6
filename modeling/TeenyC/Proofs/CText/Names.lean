import Mathlib.Data.List.Count
import Mathlib.Data.List.Nodup
import TeenyC.Proofs.CText.Body

/-
  Which names the lines of emitted C texts declare and use.

  Every line of the body is written from leaves of the program.
  A name that a line uses is then a variable that the program
  assigns to, and those are declared once each. A label that a
  line jumps to is declared by the program, once.

  Key definitions include:
    * `CText.Holds`
    * `CText.Uses`
    * `CText.Resolved`

  Key theorems include:
    * `CText.Line.WrittenFrom.target_of_uses`
    * `Tree.Statements.SpellsProgram.resolved`
    * `compile_resolves_names`
-/

namespace TeenyC

namespace CText

------------------------------------------------------------
-- Names in Lines
------------------------------------------------------------

/- The lines that hold an expression or a comparison. -/
inductive Holds (value : String) : String → Prop
| printed :
    Holds value ("printf(\"%.2f\\n\", (float)(" ++ value ++ "));")
| assigned
    {name : String}
    (hName : Lexeme.IsName name.toList) :
    Holds value (name ++ " = " ++ value ++ ";")
| tested : Holds value ("if(" ++ value ++ ")\x7b")
| repeated : Holds value ("while(" ++ value ++ ")\x7b")

/-
  The lines that use a name as a variable: they assign to it,
  read a number into it, or hold a value with the name among its
  pieces.
-/
inductive Uses : String → String → Prop
| assigned
    {name value : String}
    (hName : Lexeme.IsName name.toList) :
    Uses (name ++ " = " ++ value ++ ";") name
| scanned
    {name : String} :
    Uses ("if(0 == scanf(\"%f\", &" ++ name ++ ")) \x7b") name
| operand
    {line value name : String}
    {pieces : List Piece}
    (hHolds : Holds value line)
    (hSplit : split none value.toList = some pieces)
    (hPiece : .name name.toList ∈ pieces) :
    Uses line name

/- A line that holds a value is not empty. -/
theorem ne_of_holds
    {value line : String}
    (hHolds : Holds value line) :
    line ≠ "" := by
  cases hHolds <;> simp

/- A line that uses a name is not empty. -/
theorem ne_of_uses
    {line name : String}
    (hUses : Uses line name) :
    line ≠ "" := by
  cases hUses with
  | assigned _ | scanned => simp
  | operand hHolds _ _ => exact ne_of_holds hHolds

/- The line that declares a variable. -/
def declarationLine (name : String) : String :=
  "float " ++ name ++ ";"

/-
  The lines of a C program whose names are resolved. Only names
  are jumped to and declared: `float = 1;` is an assignment.
-/
structure Resolved (lines : List String) : Prop where
  jumps :
    ∀ name, Lexeme.IsName name.toList →
      "goto " ++ name ++ ";" ∈ lines →
        lines.count (name ++ ":;") = 1
  labels :
    ∀ name, Lexeme.IsName name.toList →
      lines.count (name ++ ":;") ≤ 1
  held :
    ∀ line ∈ lines, ∀ value, Holds value line →
      ∃ pieces, split none value.toList = some pieces
  used :
    ∀ line ∈ lines, ∀ name, Uses line name →
      lines.count (declarationLine name) = 1
  declarations :
    ∀ name, Lexeme.IsName name.toList →
      lines.count (declarationLine name) ≤ 1
  header :
    ∃ names body : List String,
      lines =
          "#include <stdio.h>" :: "int main(void)\x7b" ::
            (names.map declarationLine ++ body) ∧
        ∀ name, Lexeme.IsName name.toList →
          declarationLine name ∉ body

end CText

------------------------------------------------------------
-- Variables that Lines Use
------------------------------------------------------------

namespace CText.Line

open TeenyC.Tree

variable {leaves : List Leaf}
variable {line : Line}
variable {value name : String}
variable {pieces : List Piece}

/- A sound line that holds a value has one of three forms. -/
theorem cases_of_holds
    (hSound : line.Sound)
    (hHolds : Holds value line.text) :
    line = .printValue value ∨
      (∃ target, line = .assign target value) ∨
        ∃ kind, line = .opening kind value := by
  generalize hText : line.text = text at hHolds
  cases hHolds with
  | printed => exact .inl (eq_printValue hSound hText)
  | assigned hName =>
      exact .inr (.inl ⟨_, eq_assign hSound hName hText⟩)
  | tested =>
      have hLine : line = .opening .conditional value :=
        eq_opening hSound hText
      exact .inr (.inr ⟨_, hLine⟩)
  | repeated =>
      have hLine : line = .opening .repetition value :=
        eq_opening hSound hText
      exact .inr (.inr ⟨_, hLine⟩)

/- A sound line that uses a name assigns to it or holds it. -/
theorem cases_of_uses
    (hSound : line.Sound)
    (hUses : Uses line.text name) :
    (∃ value, line = .assign name value) ∨ line = .scan name ∨
      ∃ value pieces,
        Holds value line.text ∧
          split none value.toList = some pieces ∧
            .name name.toList ∈ pieces := by
  generalize hText : line.text = text at hUses
  cases hUses with
  | assigned hName =>
      exact .inl ⟨_, eq_assign hSound hName hText⟩
  | scanned => exact .inr (.inl (eq_scan hSound hText))
  | operand hHolds hSplit hPiece =>
      exact .inr (.inr ⟨_, _, hHolds, hSplit, hPiece⟩)

/- The forms of lines that stand before the body. -/
def IsHeader (line : Line) : Prop :=
  line = .library ∨ line = .main ∨
    ∃ name, line = .declare name

/- The lines before the body hold no values. -/
theorem IsHeader.not_holds
    (hHeader : line.IsHeader)
    (hSound : line.Sound) :
    ¬ Holds value line.text := by
  intro hHolds
  have hForm := cases_of_holds hSound hHolds
  rcases hHeader with rfl | rfl | ⟨other, rfl⟩ <;>
    simp at hForm

/- The lines before the body use no names. -/
theorem IsHeader.not_uses
    (hHeader : line.IsHeader)
    (hSound : line.Sound) :
    ¬ Uses line.text name := by
  intro hUses
  have hForm := cases_of_uses hSound hUses
  have hNone (value : String) :=
    @hHeader.not_holds line value hSound
  simp only [hNone, false_and, exists_false, or_false] at hForm
  rcases hHeader with rfl | rfl | ⟨other, rfl⟩ <;>
    simp at hForm

/- A value that a line holds is split, and its names are operands. -/
theorem WrittenFrom.split_of_holds
    (hWritten : WrittenFrom leaves line)
    (hSpelled : ∀ leaf ∈ leaves, leaf.Spelled)
    (hHolds : Holds value line.text) :
    ∃ pieces,
      split none value.toList = some pieces ∧
        ∀ name : String, .name name.toList ∈ pieces →
          .operand name ∈ leaves := by
  have hExpression
      {expression : Expression}
      (hValue : Expression.leaves expression ⊆ leaves) :
      ∃ pieces,
        split none (Expression.text expression).toList =
            some pieces ∧
          ∀ name : String, .name name.toList ∈ pieces →
            .operand name ∈ leaves := by
    have hSplits :=
      Expression.splits fun leaf hLeaf =>
        hSpelled leaf (hValue hLeaf)
    refine ⟨_, hSplits.split_eq, ?_⟩
    intro name hPiece
    exact hValue (Expression.operand_of_piece hPiece)
  rcases cases_of_holds (hWritten.sound hSpelled) hHolds with
    rfl | ⟨target, rfl⟩ | ⟨kind, rfl⟩
  · cases hWritten with
    | printValue hLeaves => exact hExpression hLeaves
  · cases hWritten with
    | assign _ hLeaves => exact hExpression hLeaves
    | reset _ =>
        exact ⟨[.number ['0']], by decide, by simp⟩
  · cases hWritten with
    | opening hLeaves =>
        have hSplits :=
          Comparison.splits fun leaf hLeaf =>
            hSpelled leaf (hLeaves hLeaf)
        refine ⟨_, hSplits.split_eq, ?_⟩
        intro name hPiece
        apply hLeaves
        apply Chain.operand_of_piece _ hPiece
        intro expression hItem
        exact Expression.operand_of_piece hItem

/- A variable that a line uses is assigned to. -/
theorem WrittenFrom.target_of_uses
    (hWritten : WrittenFrom leaves line)
    (hSpelled : ∀ leaf ∈ leaves, leaf.Spelled)
    (hAssigned : Leaf.AssignedBeforeUse leaves)
    (hUses : Uses line.text name) :
    .target name ∈ leaves := by
  rcases cases_of_uses (hWritten.sound hSpelled) hUses with
    ⟨value, rfl⟩ | rfl | ⟨value, pieces, hHolds, hSplit, hPiece⟩
  · cases hWritten with
    | assign hLeaf _ => exact hLeaf
    | reset hLeaf => exact hLeaf
  · cases hWritten with
    | scan hLeaf => exact hLeaf
  · rcases hWritten.split_of_holds hSpelled hHolds with
      ⟨_, hSame, hOperands⟩
    obtain rfl := Option.some.inj (hSplit.symm.trans hSame)
    have hOperand := hOperands name hPiece
    rcases List.append_of_mem hOperand with
      ⟨before, after, hLeaves⟩
    have hTarget := hAssigned before name after hLeaves
    rw [hLeaves]
    exact List.mem_append_left _ hTarget

end CText.Line

------------------------------------------------------------
-- Lines of Whole Programs
------------------------------------------------------------

namespace Tree

open TeenyC.CText

/- Names that are listed without repetition stand there once. -/
theorem nodup_eraseDups (names : List String) :
    names.eraseDups.Nodup := by
  induction names using List.reverseRecOn with
  | nil => exact List.nodup_nil
  | append_singleton names last ih =>
      rw [Session.eraseDups_snoc]
      split
      · exact ih
      · next hNew =>
        rw [← List.mem_eraseDups] at hNew
        have hCons := List.nodup_cons.mpr ⟨hNew, ih⟩
        exact
          (List.perm_append_singleton _ _).nodup_iff.mpr hCons

/- A label stands on as many lines as it is declared. -/
theorem Simple.count_label
    (simple : Simple)
    (name : String) :
    simple.lines.count (.label name) =
      (Leaf.labels simple.leaves).count name := by
  cases simple with
  | label other =>
      simp [lines, leaves, Leaf.label?, List.count_singleton]
  | _ =>
      simp [lines, leaves, Leaf.label?,
        Leaf.labels_of_plain (plain_expression _)]

/- A label stands on as many lines as it is declared. -/
theorem Statements.Spells.count_label
    {statements : Statements}
    {leaves : List Leaf}
    (hSpells : statements.Spells leaves)
    (name : String) :
    statements.lines.count (.label name) =
      (Leaf.labels leaves).count name := by
  induction hSpells with
  | done => rfl
  | simple blanks _ ih =>
      simp [Statements.lines, Simple.count_label, ih,
        Leaf.labels_of_plain (plain_newlines _)]
  | block blanks later _ _ ihInner ihRest =>
      simp [Statements.lines, ihInner, ihRest, Leaf.label?,
        Leaf.labels_of_plain (plain_newlines _),
        Leaf.labels_of_plain (plain_openingLeaves _ _)]

variable {program : Statements}
variable {leaves : List Leaf}

namespace Statements.SpellsProgram

/- The lines of a body are written from the program's leaves. -/
theorem writtenFrom
    (hSpells : program.SpellsProgram leaves) :
    ∀ line ∈ program.bodyLines, line.WrittenFrom leaves := by
  rcases hSpells with ⟨blanks, body, hLeaves, hBody⟩
  intro line hLine
  rcases List.mem_append.mp hLine with hLine | hLine
  · apply (hBody.writtenFrom line hLine).mono
    simp [hLeaves]
  · simp only [List.mem_cons, List.not_mem_nil, or_false]
      at hLine
    rcases hLine with rfl | rfl
    · exact .finish
    · exact .close

/-
  A line of a program stands before the body, where variables
  are declared that are assigned to, or is written from leaves.
-/
theorem cases_line
    (hSpells : program.SpellsProgram leaves)
    {line : Line}
    (hLine : line ∈ program.allLines) :
    (line.IsHeader ∧
        ∀ name, line = .declare name → .target name ∈ leaves) ∨
      line.WrittenFrom leaves := by
  simp only [allLines, List.mem_cons, List.mem_append,
    List.mem_map, List.mem_eraseDups] at hLine
  rcases hLine with
    hFirst | hSecond | ⟨name, hName, hSame⟩ | hBody
  · exact .inl ⟨.inl hFirst, by simp [hFirst]⟩
  · exact .inl ⟨.inr (.inl hSecond), by simp [hSecond]⟩
  · rw [← hSpells.targets_eq, Leaf.mem_targets_iff] at hName
    refine .inl ⟨.inr (.inr ⟨name, hSame.symm⟩), ?_⟩
    intro other hOther
    rw [← hSame, Line.declare.injEq] at hOther
    rwa [← hOther]
  · exact .inr (hSpells.writtenFrom line hBody)

variable {line : Line}

/- The lines of a program are sound. -/
theorem sound
    (hSpells : program.SpellsProgram leaves)
    (hSpelled : ∀ leaf ∈ leaves, leaf.Spelled)
    (hLine : line ∈ program.allLines) :
    line.Sound := by
  rcases hSpells.cases_line hLine with
    ⟨hHeader, hDeclared⟩ | hWritten
  · rcases hHeader with rfl | rfl | ⟨name, rfl⟩
    · trivial
    · trivial
    · exact (hSpelled _ (hDeclared name rfl)).1
  · exact hWritten.sound hSpelled

/- The text of a program is split into its lines. -/
theorem lines_generate
    (hSpells : program.SpellsProgram leaves)
    (hSpelled : ∀ leaf ∈ leaves, leaf.Spelled) :
    CText.lines program.generate =
      program.allLines.map Line.text ++ [""] := by
  rw [generate_eq_join]
  apply lines_join
  intro line hLine
  apply Line.break_notMem_text (hSpells.sound hSpelled hLine)
  rcases hSpells.cases_line hLine with
    ⟨hHeader, hDeclared⟩ | hWritten
  · rcases hHeader with rfl | rfl | ⟨name, rfl⟩
    · simp [Line.held]
    · simp [Line.held]
    · exact
        break_notMem_of_isName (hSpelled _ (hDeclared name rfl)).1
  · exact hWritten.break_notMem_held hSpelled

/- A line that has some text is one of the forms. -/
theorem exists_form
    (hSpells : program.SpellsProgram leaves)
    (hSpelled : ∀ leaf ∈ leaves, leaf.Spelled)
    {text : String}
    (hText : text ∈ CText.lines program.generate)
    (hSome : text ≠ "") :
    ∃ line ∈ program.allLines, line.text = text := by
  rw [hSpells.lines_generate hSpelled, List.mem_append,
    List.mem_map] at hText
  rcases hText with hForm | hLast
  · exact hForm
  · exact absurd (List.mem_singleton.mp hLast) hSome

/- A form that its text tells is counted by its text. -/
theorem count_form
    (hSpells : program.SpellsProgram leaves)
    (hSpelled : ∀ leaf ∈ leaves, leaf.Spelled)
    (line : Line)
    (hSome : line.text ≠ "")
    (hRead :
      ∀ other : Line, other.Sound → other.text = line.text →
        other = line) :
    (CText.lines program.generate).count line.text =
      program.allLines.count line := by
  rw [hSpells.lines_generate hSpelled, List.count_append,
    List.count_singleton, if_neg (by simpa using hSome.symm),
    Nat.add_zero]
  apply count_text
  intro other hOther
  exact hRead other (hSpells.sound hSpelled hOther)

variable {name : String}

/- A label stands on as many lines as it is declared. -/
theorem count_label
    (hSpells : program.SpellsProgram leaves)
    (hSpelled : ∀ leaf ∈ leaves, leaf.Spelled)
    (hName : Lexeme.IsName name.toList) :
    (CText.lines program.generate).count (name ++ ":;") =
      (Leaf.labels leaves).count name := by
  have hSome : name ++ ":;" ≠ "" := by simp
  have hForm :
      (CText.lines program.generate).count (name ++ ":;") =
        program.allLines.count (.label name) :=
    hSpells.count_form hSpelled (.label name) hSome
      fun other hSound => Line.eq_label hSound hName
  have hDeclared :
      (program.targets.eraseDups.map Line.declare).count
          (.label name) = 0 := by
    simp [List.count_eq_zero]
  rcases hSpells with ⟨blanks, body, hLeaves, hBody⟩
  rw [hForm, hLeaves]
  simp [allLines, bodyLines, hBody.count_label, Leaf.label?,
    hDeclared, Leaf.labels_of_plain (plain_newlines _)]

/- A variable that is assigned to is declared on one line. -/
theorem count_declarationLine
    (hSpells : program.SpellsProgram leaves)
    (hSpelled : ∀ leaf ∈ leaves, leaf.Spelled)
    (hName : Lexeme.IsName name.toList) :
    (CText.lines program.generate).count (declarationLine name) =
      (Leaf.targets leaves).eraseDups.count name := by
  have hSome : declarationLine name ≠ "" := by
    simp [declarationLine]
  have hForm :
      (CText.lines program.generate).count
          (declarationLine name) =
        program.allLines.count (.declare name) :=
    hSpells.count_form hSpelled (.declare name) hSome
      fun other hSound => Line.eq_declare hSound hName
  have hBody : program.bodyLines.count (.declare name) = 0 := by
    rw [List.count_eq_zero]
    intro hLine
    cases hSpells.writtenFrom _ hLine
  have hDeclared :
      (program.targets.eraseDups.map Line.declare).count
          (.declare name) =
        program.targets.eraseDups.count name :=
    List.count_map_of_injective _ _
      (fun _ _ => Line.declare.inj) name
  rw [hForm, hSpells.targets_eq, ← hDeclared]
  simp [allLines, hBody]

/- A variable that a line of a program uses is assigned to. -/
theorem target_of_uses
    (hSpells : program.SpellsProgram leaves)
    (hSpelled : ∀ leaf ∈ leaves, leaf.Spelled)
    (hAssigned : Leaf.AssignedBeforeUse leaves)
    (hLine : line ∈ program.allLines)
    (hUses : Uses line.text name) :
    .target name ∈ leaves := by
  have hSound := hSpells.sound hSpelled hLine
  rcases hSpells.cases_line hLine with ⟨hHeader, _⟩ | hWritten
  · exact absurd hUses (hHeader.not_uses hSound)
  · exact hWritten.target_of_uses hSpelled hAssigned hUses

/- A line of a program that jumps is written from a jump. -/
theorem jump_of_line
    (hSpells : program.SpellsProgram leaves)
    (hLine : .jump name ∈ program.allLines) :
    .jump name ∈ leaves := by
  rcases hSpells.cases_line hLine with ⟨hHeader, _⟩ | hWritten
  · rcases hHeader with hLibrary | hMain | ⟨other, hDeclare⟩
    · cases hLibrary
    · cases hMain
    · cases hDeclare
  · cases hWritten with
    | jump hLeaf => exact hLeaf

/- No line after the header declares a variable. -/
theorem declarationLine_notMem_body
    (hSpells : program.SpellsProgram leaves)
    (hSpelled : ∀ leaf ∈ leaves, leaf.Spelled)
    {name : String}
    (hName : Lexeme.IsName name.toList) :
    declarationLine name ∉
      program.bodyLines.map Line.text ++ [""] := by
  intro hText
  rcases List.mem_append.mp hText with hForm | hLast
  · rcases List.mem_map.mp hForm with ⟨line, hLine, hSame⟩
    have hWritten := hSpells.writtenFrom line hLine
    rw [Line.eq_declare (hWritten.sound hSpelled) hName hSame]
      at hWritten
    cases hWritten
  · simp [declarationLine] at hLast

/- The names of a well named program's C text are resolved. -/
theorem resolved
    (hSpells : program.SpellsProgram leaves)
    (hSpelled : ∀ leaf ∈ leaves, leaf.Spelled)
    (hNamed : Leaf.WellNamed leaves)
    (hLand : Leaf.JumpsLand leaves) :
    Resolved (CText.lines program.generate) := by
  obtain ⟨hAssigned, hLabels⟩ := Leaf.wellNamed_iff.mp hNamed
  have hTargets := nodup_eraseDups (Leaf.targets leaves)
  constructor
  case jumps =>
    intro name hName hText
    rcases
        hSpells.exists_form hSpelled hText (by simp)
      with ⟨line, hLine, hSame⟩
    have hSound := hSpells.sound hSpelled hLine
    obtain rfl := Line.eq_jump hSound hName hSame
    have hJump := hSpells.jump_of_line hLine
    rw [hSpells.count_label hSpelled hName]
    apply List.nodup_iff_count_eq_one.mp hLabels
    exact Leaf.mem_labels_iff.mpr (hLand name hJump)
  case labels =>
    intro name hName
    rw [hSpells.count_label hSpelled hName]
    exact List.nodup_iff_count_le_one.mp hLabels name
  case held =>
    intro text hText value hHolds
    rcases
        hSpells.exists_form hSpelled hText (ne_of_holds hHolds)
      with ⟨line, hLine, rfl⟩
    have hSound := hSpells.sound hSpelled hLine
    rcases hSpells.cases_line hLine with ⟨hHeader, _⟩ | hWritten
    · exact absurd hHolds (hHeader.not_holds hSound)
    · rcases hWritten.split_of_holds hSpelled hHolds with
        ⟨pieces, hSplit, _⟩
      exact ⟨pieces, hSplit⟩
  case used =>
    intro text hText name hUses
    rcases
        hSpells.exists_form hSpelled hText (ne_of_uses hUses)
      with ⟨line, hLine, rfl⟩
    have hTarget :=
      hSpells.target_of_uses hSpelled hAssigned hLine hUses
    have hName : Lexeme.IsName name.toList :=
      (hSpelled _ hTarget).1
    rw [hSpells.count_declarationLine hSpelled hName]
    apply List.nodup_iff_count_eq_one.mp hTargets
    rwa [List.mem_eraseDups, Leaf.mem_targets_iff]
  case declarations =>
    intro name hName
    rw [hSpells.count_declarationLine hSpelled hName]
    exact List.nodup_iff_count_le_one.mp hTargets name
  case header =>
    refine
      ⟨program.targets.eraseDups,
        program.bodyLines.map Line.text ++ [""], ?_, ?_⟩
    · rw [hSpells.lines_generate hSpelled, allLines,
        List.map_cons, List.map_cons, List.map_append,
        List.map_map, List.cons_append, List.cons_append,
        List.append_assoc]
      rfl
    · exact fun _ hName =>
        hSpells.declarationLine_notMem_body hSpelled hName

end Statements.SpellsProgram

end Tree

/-
  In the C text of every program that compiles, every label that
  is jumped to is declared once, and every variable that is used
  is declared once, before the body.
-/
theorem compile_resolves_names
    {source text : String}
    (hCompile : compile source = .ok text) :
    CText.Resolved (CText.lines text) := by
  rcases reads_of_compile hCompile with
    ⟨history, program, hReads, hStray, hText⟩
  rw [hText]
  exact
    hReads.spells.resolved hReads.leaf_spelled hReads.named
      (History.stray?_eq_none_iff.mp hStray)

/- A program that jumps, reads a number and uses it. -/
theorem compile_resolves_names_loop :
    ∃ text,
      compile "INPUT n\nLABEL top\nIF n > 0 THEN\nGOTO top\nENDIF" =
          .ok text ∧
        CText.Resolved (CText.lines text) := by
  have hCompile :
      compile "INPUT n\nLABEL top\nIF n > 0 THEN\nGOTO top\nENDIF" =
        .ok
          ("#include <stdio.h>\nint main(void)\x7b\nfloat n;\n" ++
            "if(0 == scanf(\"%f\", &n)) \x7b\nn = 0;\n" ++
            "scanf(\"%*s\");\n\x7d\ntop:;\nif(n > 0)\x7b\n" ++
            "goto top;\n\x7d\nreturn 0;\n\x7d\n") := by
    decide +kernel
  exact ⟨_, hCompile, compile_resolves_names hCompile⟩

end TeenyC
