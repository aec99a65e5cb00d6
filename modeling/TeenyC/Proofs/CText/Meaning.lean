import TeenyC.Proofs.CText.Written
import TeenyC.Proofs.Parsing.Acceptance

/-
  What the expressions of a compiled program are worth in C.

  An expression is copied to C as it is written, and so are its
  parts. All of them keep their values if and only if no constant
  is octal in C and eight or more, and every quotient of ints is
  whole. A program that prints a half prints zero.

  The key theorem is:
    * `compile_keeps_values_iff`
-/

namespace TeenyC

open TeenyC.Tree

/- Every leaf that was read is well spelled. -/
theorem Cursor.Reads.leaf_spelled
    {start : Cursor}
    {history : History}
    {program : Statements}
    (hReads : start.Reads history program) :
    ∀ leaf ∈ history.leaves, leaf.Spelled := by
  intro leaf hLeaf
  rcases List.mem_map.mp hLeaf with ⟨placed, hPlaced, hSame⟩
  rcases hReads.supplied with ⟨last, hSupplied⟩
  subst hSame
  exact
    hSupplied.spelled placed.token
      (List.mem_map.mpr ⟨placed, hPlaced, rfl⟩)

/- Every leaf of a program's expressions is well spelled. -/
theorem Cursor.Reads.expression_spelled
    {start : Cursor}
    {history : History}
    {program : Statements}
    {expression : Expression}
    (hReads : start.Reads history program)
    (hExpression : expression ∈ program.expressions) :
    ∀ leaf ∈ Expression.leaves expression, leaf.Spelled := by
  intro leaf hLeaf
  apply hReads.leaf_spelled
  exact
    (hReads.spells.leaves_of_expression hExpression).subset
      hLeaf

/-
  In a program that compiles, an expression that divides nothing
  by zero has the same value in C if its formula is faithful, and
  its parts all have the same value only then.
-/
theorem compile_keeps_values_iff
    {source text : String}
    (hCompile : compile source = .ok text) :
    ∃ tokens program,
      tokenize source = .ok tokens ∧
        (∀ other : Statements,
          other.IsTreeOf tokens ↔ other = program) ∧
          text = program.generate ∧
            ∀ expression ∈ program.expressions, ∀ ρ result,
              Expression.value? ρ expression = some result →
                ((Expression.formula expression).Faithful →
                  (CText.value? ρ
                      (Expression.text expression)).map
                      CText.Value.number =
                    some result) ∧
                  ((∀ part ∈ Expression.parts expression,
                      (CText.value? ρ (Expression.text part)).map
                          CText.Value.number =
                        Expression.value? ρ part) ↔
                    (Expression.formula expression).Faithful) := by
  rcases reads_of_compile hCompile with
    ⟨history, program, hReads, _, hText⟩
  refine
    ⟨history.tokens, program, hReads.tokenize_eq,
      hReads.isTreeOf.iff_eq, hText, ?_⟩
  intro expression hExpression ρ result hValue
  have hSpelled := hReads.expression_spelled hExpression
  have hIff := Expression.keeps_iff hSpelled hValue
  constructor
  · intro hFaithful
    rw [hIff.mpr hFaithful expression
        (Expression.mem_parts expression),
      hValue]
  · exact hIff

/- A program that divides a constant by its own variable. -/
theorem compile_keeps_values_quotient :
    ∃ text, compile "LET x = 07 / x - 2" = .ok text ∧
      ∃ tokens program,
        tokenize "LET x = 07 / x - 2" = .ok tokens ∧
          (∀ other : Statements,
            other.IsTreeOf tokens ↔ other = program) ∧
            text = program.generate ∧
              ∀ expression ∈ program.expressions, ∀ ρ result,
                Expression.value? ρ expression = some result →
                  ((Expression.formula expression).Faithful →
                    (CText.value? ρ
                        (Expression.text expression)).map
                        CText.Value.number =
                      some result) ∧
                    ((∀ part ∈ Expression.parts expression,
                        (CText.value? ρ
                            (Expression.text part)).map
                            CText.Value.number =
                          Expression.value? ρ part) ↔
                      (Expression.formula expression).Faithful) := by
  let quotient : Term :=
    .join (.single { sign := none, operand := .number "07" })
      ⟨.divide, rfl⟩ { sign := none, operand := .variable "x" }
  let value : Expression :=
    .join (.single quotient) ⟨.minus, rfl⟩
      (.single { sign := none, operand := .number "2" })
  have hTokens :
      tokenize "LET x = 07 / x - 2" =
        .ok
          [{ kind := .keyword .letKw, text := "LET", line := 1 },
            { kind := .ident, text := "x", line := 1 },
            { kind := .operator .assign, text := "=", line := 1 },
            { kind := .number, text := "07", line := 1 },
            { kind := .operator .divide, text := "/", line := 1 },
            { kind := .ident, text := "x", line := 1 },
            { kind := .operator .minus, text := "-", line := 1 },
            { kind := .number, text := "2", line := 1 },
            { kind := .newline, text := "\n", line := 1 },
            { kind := .eof, text := "", line := 2 }] := by
    decide +kernel
  have hSpells :
      (Statements.simple (.assign "x" value) .done).SpellsProgram
        [.keyword .letKw, .target "x", .sign .assign,
          .number "07", .sign .divide, .operand "x",
          .sign .minus, .number "2", .newline, .finish] :=
    ⟨0, _, rfl, .simple 0 .done⟩
  have hCompile :=
    compile_of_spells (by decide) hTokens hSpells (by decide)
      (by decide) (by decide)
  exact ⟨_, hCompile, compile_keeps_values_iff hCompile⟩

/-
  A program that prints a half: in C the operands are ints, and
  their quotient is zero.
-/
theorem compile_print_half :
    ∃ tokens program expression,
      compile "PRINT 1 / 2" = .ok program.generate ∧
        tokenize "PRINT 1 / 2" = .ok tokens ∧
          (∀ other : Statements,
            other.IsTreeOf tokens ↔ other = program) ∧
            expression ∈ program.expressions ∧
              Expression.text expression = "1 / 2" ∧
                Expression.value? (fun _ => 0) expression =
                    some (1 / 2) ∧
                  (CText.value? (fun _ => 0)
                      (Expression.text expression)).map
                      CText.Value.number =
                    some 0 := by
  let value : Expression :=
    .single
      (.join (.single { sign := none, operand := .number "1" })
        ⟨.divide, rfl⟩ { sign := none, operand := .number "2" })
  let program : Statements := .simple (.printValue value) .done
  have hTokens :
      tokenize "PRINT 1 / 2" =
        .ok
          [{ kind := .keyword .print, text := "PRINT", line := 1 },
            { kind := .number, text := "1", line := 1 },
            { kind := .operator .divide, text := "/", line := 1 },
            { kind := .number, text := "2", line := 1 },
            { kind := .newline, text := "\n", line := 1 },
            { kind := .eof, text := "", line := 2 }] := by
    decide +kernel
  have hSpells :
      program.SpellsProgram
        [.keyword .print, .number "1", .sign .divide,
          .number "2", .newline, .finish] :=
    ⟨0, _, rfl, .simple 0 .done⟩
  have hCompile :=
    compile_of_spells (by decide) hTokens hSpells (by decide)
      (by decide) (by decide)
  refine
    ⟨_, program, value, hCompile, hTokens, ?_, .head _,
      by decide +kernel, by decide +kernel, by decide +kernel⟩
  apply Statements.IsTreeOf.iff_eq
  exact ⟨_, hSpells, by decide⟩

end TeenyC
