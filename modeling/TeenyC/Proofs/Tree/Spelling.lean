import TeenyC.Proofs.Tree.Basic

/-
  The grammar of Teeny, as a relation between syntax trees and
  the leaves that spell them.

    program    := {newline} {statement} EOF
    statement  := "PRINT" (STRING | expression) nl
                | "IF" comparison "THEN" nl {statement} "ENDIF" nl
                | "WHILE" comparison "REPEAT" nl {statement}
                    "ENDWHILE" nl
                | "LABEL" IDENT nl
                | "GOTO" IDENT nl
                | "LET" IDENT "=" expression nl
                | "INPUT" IDENT nl
    comparison := expression (cmpop expression)+
    expression := term {("+" | "-") term}
    term       := unary {("*" | "/") unary}
    unary      := ["+" | "-"] primary
    primary    := NUMBER | IDENT
    nl         := NEWLINE {NEWLINE}

  Comparisons and what is below them are spelled in one way, by
  their leaves. Statements are spelled in many ways, since any
  number of line breaks may end a line.

  Key definitions include:
    * `Tree.newlines`
    * `Tree.Statements.Spells`
    * `Tree.Statements.SpellsProgram`
    * `Tree.Statements.IsTreeOf`
    * `Tree.Derivable`
    * `Tree.Viable`
-/

namespace TeenyC

namespace Tree

------------------------------------------------------------
-- Statements
------------------------------------------------------------

/- A number of line breaks. -/
def newlines (count : Nat) : List Leaf :=
  List.replicate count .newline

/- The line that opens a block, but for its line breaks. -/
def openingLeaves
    (kind : Block)
    (condition : Comparison) : List Leaf :=
  .keyword kind.opener :: condition.leaves ++
    [.keyword kind.divider]

/- The ways to spell a sequence of statements. -/
inductive Statements.Spells : Statements → List Leaf → Prop
| done : Spells .done []
| simple
    {first : Simple}
    {rest : Statements}
    {more : List Leaf}
    (blanks : Nat)
    (hRest : Spells rest more) :
    Spells (.simple first rest)
      (first.leaves ++ newlines (blanks + 1) ++ more)
| block
    {kind : Block}
    {condition : Comparison}
    {inner rest : Statements}
    {held more : List Leaf}
    (blanks later : Nat)
    (hInner : Spells inner held)
    (hRest : Spells rest more) :
    Spells (.block kind condition inner rest)
      (openingLeaves kind condition ++ newlines (blanks + 1) ++
        held ++ .keyword kind.ending :: newlines (later + 1) ++
        more)

------------------------------------------------------------
-- Programs
------------------------------------------------------------

/- The ways to spell a whole program. -/
def Statements.SpellsProgram
    (program : Statements)
    (leaves : List Leaf) : Prop :=
  ∃ blanks body,
    leaves = newlines blanks ++ body ++ [.finish] ∧
      program.Spells body

/- A tree of a sequence of tokens, whatever their lines. -/
def Statements.IsTreeOf
    (program : Statements)
    (tokens : List Token) : Prop :=
  ∃ leaves,
    program.SpellsProgram leaves ∧
      leaves.map Leaf.word = tokens.map Token.word

/- The grammar derives the words. -/
def Derivable (words : List Word) : Prop :=
  ∃ program leaves,
    Statements.SpellsProgram program leaves ∧
      leaves.map Leaf.word = words

/- The words start some sequence that the grammar derives. -/
def Viable (words : List Word) : Prop :=
  ∃ more, Derivable (words ++ more)

------------------------------------------------------------
-- Growing Spellings
------------------------------------------------------------

/- One more line break. -/
theorem newlines_snoc (count : Nat) :
    newlines count ++ [.newline] = newlines (count + 1) :=
  (List.replicate_succ').symm

namespace Statements

/- Sequences of statements are spelled one after another. -/
theorem Spells.append
    {first more : Statements}
    {leaves later : List Leaf}
    (hFirst : first.Spells leaves)
    (hMore : more.Spells later) :
    (first.append more).Spells (leaves ++ later) := by
  induction hFirst with
  | done => exact hMore
  | simple blanks _ ih =>
      rw [List.append_assoc]
      exact .simple blanks ih
  | block blanks after hInner _ _ ih =>
      rw [List.append_assoc]
      exact .block blanks after hInner ih

/- A blank line may follow the last of some statements. -/
theorem Spells.snoc_newline
    {statements : Statements}
    {leaves : List Leaf}
    (hSpells : statements.Spells leaves)
    (hSome : statements ≠ .done) :
    statements.Spells (leaves ++ [.newline]) := by
  induction hSpells with
  | done => exact absurd rfl hSome
  | @simple first rest more blanks hRest ih =>
      by_cases hLast : rest = .done
      · subst hLast
        cases hRest
        have hLonger : Spells (.simple first .done) _ :=
          .simple (blanks + 1) .done
        rw [← newlines_snoc] at hLonger
        simpa using hLonger
      · rw [List.append_assoc]
        exact .simple blanks (ih hLast)
  | @block kind condition inner rest held more blanks later
      hInner hRest _ ih =>
      by_cases hLast : rest = .done
      · subst hLast
        cases hRest
        have hLonger :
            Spells (.block kind condition inner .done) _ :=
          .block blanks (later + 1) hInner .done
        rw [← newlines_snoc (later + 1)] at hLonger
        simpa using hLonger
      · rw [List.append_assoc]
        exact .block blanks later hInner (ih hLast)

end Statements

------------------------------------------------------------
-- Names of a Spelling
------------------------------------------------------------

/- Line breaks are plain. -/
theorem plain_newlines (count : Nat) :
    ∀ leaf ∈ newlines count, leaf.IsPlain := by
  intro leaf hLeaf
  rw [List.eq_of_mem_replicate hLeaf]
  exact ⟨rfl, rfl⟩

/- What holds of operator signs and of items holds of a chain. -/
theorem Chain.forall_leaves
    {p : Leaf → Prop}
    {level : Operator → Bool}
    {α : Type}
    {item : α → List Leaf}
    (hSign : ∀ op, p (.sign op))
    (hItem : ∀ a, ∀ leaf ∈ item a, p leaf)
    (chain : Chain level α) :
    ∀ leaf ∈ chain.leaves item, p leaf := by
  induction chain with
  | single first => exact hItem first
  | join left sign right ih =>
      rw [Chain.leaves, List.forall_mem_append, List.forall_mem_cons]
      exact ⟨ih, hSign sign.1, hItem right⟩

/- A chain is plain if its items are. -/
theorem plain_chain
    {level : Operator → Bool}
    {α : Type}
    {item : α → List Leaf}
    (hItem : ∀ a, ∀ leaf ∈ item a, leaf.IsPlain) :
    ∀ chain : Chain level α,
      ∀ leaf ∈ chain.leaves item, leaf.IsPlain :=
  Chain.forall_leaves (fun _ => ⟨rfl, rfl⟩) hItem

/- A factor is plain. -/
theorem plain_factor (factor : Factor) :
    ∀ leaf ∈ factor.leaves, leaf.IsPlain := by
  rcases factor with ⟨- | sign, text | name⟩ <;>
    simp [Factor.leaves, Factor.signLeaves, Operand.leaf,
      Leaf.IsPlain, Leaf.target?, Leaf.label?]

/- An expression is plain. -/
theorem plain_expression (expression : Expression) :
    ∀ leaf ∈ Expression.leaves expression, leaf.IsPlain :=
  plain_chain (plain_chain plain_factor) expression

/- A block's first line is plain. -/
theorem plain_openingLeaves
    (kind : Block)
    (condition : Comparison) :
    ∀ leaf ∈ openingLeaves kind condition, leaf.IsPlain := by
  have hCondition : ∀ leaf ∈ condition.leaves, leaf.IsPlain :=
    plain_chain plain_expression condition.chain
  intro leaf hLeaf
  simp only [openingLeaves, List.cons_append, List.mem_cons,
    List.mem_append, List.not_mem_nil, or_false] at hLeaf
  rcases hLeaf with hOpener | hHeld | hSeparator
  · rw [hOpener]
    exact ⟨rfl, rfl⟩
  · exact hCondition leaf hHeld
  · rw [hSeparator]
    exact ⟨rfl, rfl⟩

/- A simple statement assigns to its target. -/
theorem targets_simple (simple : Simple) :
    Leaf.targets simple.leaves = simple.target?.toList := by
  cases simple <;>
    simp [Simple.leaves, Simple.target?, Leaf.target?,
      Leaf.targets_of_plain (plain_expression _)]

/- Leaves assign to the variables of the tree they spell. -/
theorem Statements.Spells.targets_eq
    {statements : Statements}
    {leaves : List Leaf}
    (hSpells : statements.Spells leaves) :
    Leaf.targets leaves = statements.targets := by
  induction hSpells with
  | done => rfl
  | simple blanks _ ih =>
      simp [targets_simple, ih, Statements.targets,
        Leaf.targets_of_plain (plain_newlines _)]
  | block blanks later _ _ ihInner ihRest =>
      simp [ihInner, ihRest, Statements.targets, Leaf.target?,
        Leaf.targets_of_plain (plain_newlines _),
        Leaf.targets_of_plain (plain_openingLeaves _ _)]

/- A program's leaves assign to the variables of its tree. -/
theorem Statements.SpellsProgram.targets_eq
    {program : Statements}
    {leaves : List Leaf}
    (hSpells : program.SpellsProgram leaves) :
    Leaf.targets leaves = program.targets := by
  rcases hSpells with ⟨blanks, body, hLeaves, hBody⟩
  simp [hLeaves, hBody.targets_eq, Leaf.target?,
    Leaf.targets_of_plain (plain_newlines _)]

end Tree

end TeenyC
