import TeenyC.Proofs.Tree.Completeness
import TeenyC.Proofs.Tree.Soundness

/-
  What a draft has read can always be completed to a program,
  and only in the way the draft has begun.

  Key theorems include:
    * `Tree.Draft.canFinish`
    * `Tree.Draft.viable_of_path`
    * `Tree.Draft.not_viable_of_refused`
    * `Tree.Statements.IsTreeOf.unique`
-/

namespace TeenyC

namespace Tree

namespace Draft

------------------------------------------------------------
-- Completions
------------------------------------------------------------

/- Some words complete the draft to a program. -/
def CanFinish (draft : Draft) : Prop :=
  ∃ leaves last,
    Path draft leaves last ∧ last.spot = .finished

variable {draft next : Draft}

/- A draft can finish if it can go on to one that can. -/
theorem CanFinish.of_path
    {leaves : List Leaf}
    (hPath : Path draft leaves next)
    (hNext : next.CanFinish) :
    draft.CanFinish := by
  rcases hNext with ⟨more, last, hMore, hLast⟩
  exact ⟨leaves ++ more, last, hPath.append hMore, hLast⟩

/- A draft can finish if some leaf takes it to one that can. -/
theorem CanFinish.of_takes
    (leaf : Leaf)
    (hTakes : draft.Takes leaf next)
    (hNext : next.CanFinish) :
    draft.CanFinish :=
  .of_path hTakes.path hNext

/- At the margin every open block can be closed, one by one. -/
theorem canFinish_margin
    (hSpot : draft.spot = .margin) :
    draft.CanFinish := by
  rcases draft with ⟨frames, held, spot⟩
  subst hSpot
  induction frames generalizing held with
  | nil =>
      exact
        ⟨[.finish], whole held, Takes.path rfl, rfl⟩
  | cons frame outer ih =>
      have hClosing :=
        path_closing
          { frames := frame :: outer, done := held,
            spot := .margin }
          rfl rfl
      exact CanFinish.of_path hClosing (ih _)

/- A draft can finish if a line break takes it to the margin. -/
theorem CanFinish.of_newline
    (hTakes : draft.Takes .newline next)
    (hSpot : next.spot = .margin) :
    draft.CanFinish :=
  .of_path hTakes.path (canFinish_margin hSpot)

/- A condition that compares can finish. -/
theorem canFinish_compared
    (kind : Block)
    (left : Comparands)
    (sign : Sign compares)
    (sum : Lead adds Term)
    (term : Term) :
    (draft.move
      (.joint (.condition kind (some (left, sign))) sum
        term)).CanFinish := by
  have hSeparator :
      (draft.move
        (.joint (.condition kind (some (left, sign))) sum
          term)).Takes
        (.keyword kind.divider)
        (draft.move
          (.opened kind
            { left := left, sign := sign,
              right := .extend sum term })) :=
    if_pos rfl
  apply CanFinish.of_path hSeparator.path
  exact CanFinish.of_newline rfl rfl

/- After a factor the draft can finish. -/
theorem canFinish_joint
    (draft : Draft)
    (site : Site)
    (sum : Lead adds Term)
    (term : Term) :
    (draft.move (.joint site sum term)).CanFinish := by
  cases site with
  | print =>
      exact CanFinish.of_newline (takes_newline_print term) rfl
  | assign name =>
      exact
        CanFinish.of_newline (takes_newline_assign name term) rfl
  | condition kind lead =>
      rcases lead with - | ⟨left, sign⟩
      · apply
          CanFinish.of_path
            (.cons
              (takes_comparison kind none term ⟨.equal, rfl⟩)
              (takes_operand draft _ none none none
                (.number "0")).path)
        exact canFinish_compared kind _ _ _ _
      · exact canFinish_compared kind left sign sum term

/- Where an operand may stand the draft can finish. -/
theorem canFinish_operand
    (draft : Draft)
    (site : Site)
    (sum : Lead adds Term)
    (product : Lead multiplies Factor)
    (sign : Option (Sign adds)) :
    (draft.move
      (.operand site sum product sign)).CanFinish :=
  .of_path (takes_operand draft site sum product sign
    (.number "0")).path
    (canFinish_joint draft site sum _)

/- Every draft can finish. -/
theorem canFinish (draft : Draft) : draft.CanFinish := by
  rcases draft with ⟨frames, held, spot⟩
  cases spot with
  | margin => exact canFinish_margin rfl
  | printed =>
      refine CanFinish.of_takes (.literal "") rfl ?_
      exact CanFinish.of_newline rfl rfl
  | naming role =>
      cases role with
      | label =>
          refine CanFinish.of_takes (.label "") rfl ?_
          exact CanFinish.of_newline rfl rfl
      | jump =>
          refine CanFinish.of_takes (.jump "") rfl ?_
          exact CanFinish.of_newline rfl rfl
      | input =>
          refine CanFinish.of_takes (.target "") rfl ?_
          exact CanFinish.of_newline rfl rfl
      | assign =>
          refine CanFinish.of_takes (.target "") rfl ?_
          refine CanFinish.of_takes (.sign .assign) rfl ?_
          exact
            canFinish_operand
              { frames := frames, done := held, spot := .margin }
              (.assign "") none none none
  | assigned name =>
      refine CanFinish.of_takes (.sign .assign) rfl ?_
      exact
        canFinish_operand
          { frames := frames, done := held, spot := .margin }
          (.assign name) none none none
  | operand site sum product sign =>
      exact
        canFinish_operand
          { frames := frames, done := held, spot := .margin }
          site sum product sign
  | joint site sum term =>
      exact
        canFinish_joint
          { frames := frames, done := held, spot := .margin }
          site sum term
  | lineEnd last => exact CanFinish.of_newline rfl rfl
  | opened kind condition => exact CanFinish.of_newline rfl rfl
  | closed =>
      refine CanFinish.of_newline rfl ?_
      cases frames <;> rfl
  | finished => exact ⟨[], _, .nil, rfl⟩

------------------------------------------------------------
-- Viable Words
------------------------------------------------------------

/- What a draft has read begins the leaves of some program. -/
theorem exists_spells_of_path
    {leaves : List Leaf}
    (hPath : Path start leaves draft) :
    ∃ program more,
      Statements.SpellsProgram program (leaves ++ more) := by
  rcases canFinish draft with ⟨more, last, hMore, hLast⟩
  exact
    ⟨last.done, more,
      ((hPath.append hMore).spellsProgram hLast).2⟩

/- What a draft has read begins some program. -/
theorem viable_of_path
    {leaves : List Leaf}
    (hPath : Path start leaves draft) :
    Viable (leaves.map Leaf.word) := by
  rcases exists_spells_of_path hPath with
    ⟨program, more, hSpells⟩
  exact
    ⟨more.map Leaf.word, program, leaves ++ more, hSpells,
      List.map_append⟩

/- What a draft refuses to read begins no program. -/
theorem not_viable_of_refused
    {leaves : List Leaf}
    {word : Word}
    {cause : GrammarCause}
    (hPath : Path start leaves draft)
    (hRefused : draft.read word = .error cause) :
    ¬ Viable (leaves.map Leaf.word ++ [word]) := by
  intro hViable
  rcases hViable with ⟨more, program, others, hSpells, hWords⟩
  apply hPath.not_refused hRefused (path_program hSpells)
  rw [hWords]
  exact List.prefix_append _ _

end Draft

------------------------------------------------------------
-- One Tree Only
------------------------------------------------------------

/- The leaves of a program are settled by its words. -/
theorem Statements.SpellsProgram.unique
    {program other : Statements}
    {leaves others : List Leaf}
    (hProgram : program.SpellsProgram leaves)
    (hOther : other.SpellsProgram others)
    (hWords : leaves.map Leaf.word = others.map Leaf.word) :
    program = other ∧ leaves = others := by
  have hPath := Draft.path_program hProgram
  have hPath' := Draft.path_program hOther
  rcases hPath.leaves_begin hPath' (hWords ▸ List.prefix_rfl)
    with ⟨more, hMore, hRest⟩
  cases hRest with
  | nil => exact ⟨rfl, by rw [hMore, List.append_nil]⟩
  | cons hTakes _ => cases hTakes

/- A sequence of tokens has at most one tree. -/
theorem Statements.IsTreeOf.unique
    {program other : Statements}
    {tokens : List Token}
    (hProgram : program.IsTreeOf tokens)
    (hOther : other.IsTreeOf tokens) :
    program = other := by
  rcases hProgram with ⟨leaves, hSpells, hWords⟩
  rcases hOther with ⟨others, hSpells', hWords'⟩
  exact (hSpells.unique hSpells' (hWords.trans hWords'.symm)).1

/- The tree of a sequence of tokens is its only one. -/
theorem Statements.IsTreeOf.iff_eq
    {program : Statements}
    {tokens : List Token}
    (hTree : program.IsTreeOf tokens)
    (other : Statements) :
    other.IsTreeOf tokens ↔ other = program := by
  constructor
  · intro hOther
    exact hOther.unique hTree
  · intro hSame
    rw [hSame]
    exact hTree

end Tree

end TeenyC
