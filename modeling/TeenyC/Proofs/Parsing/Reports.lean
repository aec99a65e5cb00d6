import Mathlib.Data.List.Chain
import TeenyC.Proofs.Parsing.Sequence
import TeenyC.Proofs.Token.Feed

/-
  The reports on a program that compiles.

  They are those on its syntax tree, each part before the parts it
  holds, between the report on the program and the counts of its
  names. An operand of the tree is a number, or an identifier that
  no word introduces as a name; so the reports on operands list
  the operands among the tokens.

  Key definitions include:
    * `Word.operandsAfter`
    * `Token.operands`
    * `Leaf.Framed`

  Key theorems include:
    * `Tree.Statements.Spells.framed`
    * `Leaf.operandsAfter_words`
    * `Tree.Statements.Spells.operands_eq`
    * `compile_reports_tree`
-/

namespace TeenyC

open TeenyC.Tree

------------------------------------------------------------
-- Operands among Words
------------------------------------------------------------

namespace Word

/-
  The operand that a word is behind a word of a kind: a number, or
  an identifier that is not introduced as a name.
-/
def operand?
    (before : Kind)
    (word : Word) : Option Word :=
  match word.1 with
  | .number => some word
  | .ident => if before.isNaming then none else some word
  | .eof | .newline | .string | .keyword _ | .operator _ => none

/- The operands among words that follow a word of a kind. -/
def operandsAfter (before : Kind) : List Word → List Word
| [] => []
| word :: rest =>
    (word.operand? before).toList ++ operandsAfter word.1 rest

/- The details of a report on an operand. -/
def details (word : Word) : List (String × Detail) :=
  [("kind", .text word.1.name),
    ("text", .text (Text.quotedString word.2))]

end Word

/- The operands among tokens, which start on a line of their own. -/
def Token.operands (tokens : List Token) : List Word :=
  Word.operandsAfter .newline (tokens.map Token.word)

------------------------------------------------------------
-- Operands among Leaves
------------------------------------------------------------

namespace Leaf

/- The leaf is a name that a word introduces. -/
def isIntroduced : Leaf → Bool
| .target _ | .label _ | .jump _ => true
| .finish | .newline | .number _ | .literal _ | .keyword _
| .sign _ | .operand _ => false

/- The word of an operand. -/
def operand? (leaf : Leaf) : Option Word :=
  match leaf with
  | .number _ | .operand _ => some leaf.word
  | .finish | .newline | .literal _ | .keyword _ | .sign _
  | .target _ | .label _ | .jump _ => none

/- A name is introduced by the word before it, and nothing else is. -/
def Follows (before leaf : Leaf) : Prop :=
  leaf.isIntroduced = before.kind.isNaming

/- Leaves that neither are introduced nor introduce a name. -/
def IsPlaced (leaf : Leaf) : Prop :=
  leaf.isIntroduced = false ∧ leaf.kind.isNaming = false

/-
  Leaves in which every name is introduced, and that introduce no
  name behind them.
-/
structure Framed (leaves : List Leaf) : Prop where
  chain : leaves.IsChain Follows
  first : ∀ leaf ∈ leaves.head?, leaf.isIntroduced = false
  last : ∀ leaf ∈ leaves.getLast?, leaf.kind.isNaming = false

variable {leaves more : List Leaf}

/- Framed leaves may stand one after another. -/
theorem Framed.append
    (hFirst : Framed leaves)
    (hMore : Framed more) :
    Framed (leaves ++ more) := by
  constructor
  case chain =>
    apply hFirst.chain.append hMore.chain
    intro before hBefore leaf hLeaf
    rw [Follows, hMore.first leaf hLeaf, hFirst.last before hBefore]
  case first =>
    cases leaves with
    | nil => exact hMore.first
    | cons leaf leaves => exact hFirst.first
  case last =>
    intro leaf hLeaf
    rw [List.getLast?_append, Option.mem_def,
      Option.or_eq_some_iff] at hLeaf
    rcases hLeaf with hLast | ⟨_, hLast⟩
    · exact hMore.last leaf hLast
    · exact hFirst.last leaf hLast

/- Leaves that have nothing to do with names are framed. -/
theorem framed_of_placed
    (hPlaced : ∀ leaf ∈ leaves, leaf.IsPlaced) :
    Framed leaves := by
  induction leaves with
  | nil => exact ⟨.nil, by simp, by simp⟩
  | cons leaf leaves ih =>
      rw [List.forall_mem_cons] at hPlaced
      have hLeaf : Framed [leaf] :=
        ⟨.singleton leaf, by simpa using hPlaced.1.1,
          by simpa using hPlaced.1.2⟩
      exact hLeaf.append (ih hPlaced.2)

/- A word and the name that it introduces are framed. -/
theorem framed_name
    {word name : Leaf}
    (hWord : word.isIntroduced = false)
    (hNaming : word.kind.isNaming = true)
    (hName : name.isIntroduced = true)
    (hLast : name.kind.isNaming = false) :
    Framed [word, name] where
  chain :=
    .cons_cons (by rw [Follows, hName, hNaming]) (.singleton name)
  first := by simpa using hWord
  last := by simpa using hLast

/- Of leaves that are framed, the operands are told by the words. -/
theorem operandsAfter_words
    {before : Leaf}
    (hChain : (before :: leaves).IsChain Follows) :
    Word.operandsAfter before.kind (leaves.map Leaf.word) =
      leaves.filterMap operand? := by
  induction leaves generalizing before with
  | nil => rfl
  | cons leaf leaves ih =>
      rw [List.isChain_cons_cons] at hChain
      obtain ⟨hFollows, hRest⟩ := hChain
      have hLeaf :
          leaf.word.operand? before.kind = leaf.operand? := by
        unfold Follows at hFollows
        cases leaf with
        | operand name | target name | label name | jump name =>
            change
              (if before.kind.isNaming = true then none
                else some _) = _
            rw [← hFollows]
            rfl
        | _ => rfl
      rw [List.map_cons, Word.operandsAfter, hLeaf]
      change _ ++ Word.operandsAfter leaf.kind _ = _
      rw [ih hRest, List.filterMap_cons]
      cases leaf.operand? <;> rfl

end Leaf

------------------------------------------------------------
-- Names within Trees
------------------------------------------------------------

namespace Tree

open Leaf

/- Line breaks have nothing to do with names. -/
theorem framed_newlines (count : Nat) :
    Framed (newlines count) := by
  apply framed_of_placed
  intro leaf hLeaf
  rw [List.eq_of_mem_replicate hLeaf]
  exact ⟨rfl, rfl⟩

/- Factors have nothing to do with names. -/
theorem Factor.placed (factor : Factor) :
    ∀ leaf ∈ factor.leaves, leaf.IsPlaced := by
  rcases factor with ⟨- | sign, text | name⟩ <;>
    simp [Factor.leaves, signLeaves, Operand.leaf, IsPlaced,
      isIntroduced, Leaf.kind, Kind.isNaming]

/- Chains have nothing to do with names if their items do not. -/
theorem Chain.placed
    {level : Operator → Bool}
    {α : Type}
    {item : α → List Leaf}
    (hItem : ∀ a, ∀ leaf ∈ item a, leaf.IsPlaced) :
    ∀ chain : Chain level α,
      ∀ leaf ∈ chain.leaves item, leaf.IsPlaced :=
  Chain.forall_leaves (fun _ => ⟨rfl, rfl⟩) hItem

/- Expressions have nothing to do with names. -/
theorem Expression.placed (expression : Expression) :
    ∀ leaf ∈ Expression.leaves expression, leaf.IsPlaced :=
  Chain.placed (Chain.placed Factor.placed) expression

/- Every name in a simple statement is introduced. -/
theorem Simple.framed (simple : Simple) :
    Framed simple.leaves := by
  cases simple with
  | printText contents =>
      apply framed_of_placed
      simp [leaves, IsPlaced, isIntroduced, Leaf.kind]
      decide
  | printValue value =>
      apply framed_of_placed
      rw [leaves, List.forall_mem_cons]
      exact ⟨⟨rfl, rfl⟩, Expression.placed value⟩
  | label name => exact framed_name rfl rfl rfl rfl
  | jump name => exact framed_name rfl rfl rfl rfl
  | input name => exact framed_name rfl rfl rfl rfl
  | assign name value =>
      have hName : Framed [.keyword .letKw, .target name] :=
        framed_name rfl rfl rfl rfl
      refine hName.append (framed_of_placed ?_)
      rw [List.forall_mem_cons]
      exact ⟨⟨rfl, rfl⟩, Expression.placed value⟩

/- The line that opens a block has nothing to do with names. -/
theorem framed_openingLeaves
    (kind : Block)
    (condition : Comparison) :
    Framed (openingLeaves kind condition) := by
  apply framed_of_placed
  rw [openingLeaves, List.cons_append, List.forall_mem_cons,
    List.forall_mem_append]
  refine
    ⟨?_, Chain.placed Expression.placed condition.chain, ?_⟩
  · cases kind <;> exact ⟨rfl, rfl⟩
  · rw [List.forall_mem_singleton]
    cases kind <;> exact ⟨rfl, rfl⟩

/- Every name in statements is introduced. -/
theorem Statements.Spells.framed
    {statements : Statements}
    {leaves : List Leaf}
    (hSpells : statements.Spells leaves) :
    Framed leaves := by
  induction hSpells with
  | done => exact framed_of_placed (by simp)
  | @simple first _ _ blanks _ ih =>
      exact
        (first.framed.append (framed_newlines _)).append ih
  | @block kind condition _ _ _ _ blanks later _ _ ihInner ihRest =>
      have hCloser : Framed [.keyword kind.ending] := by
        apply framed_of_placed
        rw [List.forall_mem_singleton]
        cases kind <;> exact ⟨rfl, rfl⟩
      have hOpening :=
        (framed_openingLeaves kind condition).append
          (framed_newlines (blanks + 1))
      have hClosing :=
        (hCloser.append (framed_newlines (later + 1))).append ihRest
      simpa using (hOpening.append ihInner).append hClosing

/- The operands of a program's leaves are those of their words. -/
theorem Statements.SpellsProgram.operands_words
    {program : Statements}
    {leaves : List Leaf}
    (hSpells : program.SpellsProgram leaves) :
    Word.operandsAfter .newline (leaves.map Leaf.word) =
      leaves.filterMap Leaf.operand? := by
  rcases hSpells with ⟨blanks, body, hLeaves, hBody⟩
  have hFinish : Framed [.finish] :=
    framed_of_placed (by simp [IsPlaced, isIntroduced]; decide)
  have hFramed : Framed (.newline :: leaves) := by
    have hAll :=
      (framed_newlines (blanks + 1)).append
        (hBody.framed.append hFinish)
    rw [hLeaves]
    simpa [newlines, List.replicate_succ] using hAll
  exact Leaf.operandsAfter_words hFramed.chain

end Tree

------------------------------------------------------------
-- Operands among Reports
------------------------------------------------------------

namespace Event

/- The word of the operand that a report is on. -/
def operand? : Event → Option Word
| .primary kind text => some (kind, text)
| _ => none

/- A report shows an operand if its message says so. -/
theorem shown_eq (event : Event) :
    (if event.message = "primary" then some event.fields
      else none) =
      event.operand?.map Word.details := by
  cases event <;> rfl

/- A report on an operand is told by its message. -/
theorem map_fields_eq (events : List Event) :
    (events.filter (·.message = "primary")).map fields =
      (events.filterMap operand?).map Word.details := by
  rw [List.map_filterMap, ← List.filterMap_eq_map,
    List.filterMap_filter]
  congr 1
  funext event
  rw [← shown_eq]
  simp only [decide_eq_true_eq, Function.comp_apply]

end Event

namespace Tree

/- The reports on a factor list its operand. -/
theorem Factor.operands_eq (factor : Factor) :
    factor.events.filterMap Event.operand? =
      factor.leaves.filterMap Leaf.operand? := by
  rcases factor with ⟨- | sign, text | name⟩ <;> rfl

/- The reports on a chain list its operands if those on items do. -/
theorem Chain.operands_eq
    {level : Operator → Bool}
    {α : Type}
    {events : α → List Event}
    {leaves : α → List Leaf}
    (hItem :
      ∀ a,
        (events a).filterMap Event.operand? =
          (leaves a).filterMap Leaf.operand?)
    (chain : Chain level α) :
    (chain.events events).filterMap Event.operand? =
      (chain.leaves leaves).filterMap Leaf.operand? := by
  induction chain with
  | single first => exact hItem first
  | join left sign right ih =>
      rw [Chain.events, Chain.leaves, List.filterMap_append,
        List.filterMap_append, ih, hItem right]
      rfl

/- The reports on a term list its operands. -/
theorem Term.operands_eq (term : Term) :
    (Term.events term).filterMap Event.operand? =
      (Term.leaves term).filterMap Leaf.operand? :=
  Chain.operands_eq Factor.operands_eq term

/- The reports on an expression list its operands. -/
theorem Expression.operands_eq (expression : Expression) :
    (Expression.events expression).filterMap Event.operand? =
      (Expression.leaves expression).filterMap Leaf.operand? :=
  Chain.operands_eq Term.operands_eq expression

/- The reports on a comparison list its operands. -/
theorem Comparison.operands_eq (comparison : Comparison) :
    comparison.events.filterMap Event.operand? =
      comparison.leaves.filterMap Leaf.operand? :=
  Chain.operands_eq Expression.operands_eq comparison.chain

/- The reports on a simple statement list its operands. -/
theorem Simple.operands_eq (simple : Simple) :
    simple.events.filterMap Event.operand? =
      simple.leaves.filterMap Leaf.operand? := by
  cases simple with
  | printValue value | assign name value =>
      simp [events, heldEvents, leaves, Event.operand?,
        Leaf.operand?, List.filterMap_cons, Expression.operands_eq]
  | printText | label | jump | input => rfl

/- Line breaks are no operands. -/
theorem operands_newlines (count : Nat) :
    (newlines count).filterMap Leaf.operand? = [] := by
  simp [newlines, Leaf.operand?]

/- The reports on statements list their operands. -/
theorem Statements.Spells.operands_eq
    {statements : Statements}
    {leaves : List Leaf}
    (hSpells : statements.Spells leaves) :
    statements.events.filterMap Event.operand? =
      leaves.filterMap Leaf.operand? := by
  induction hSpells with
  | done => rfl
  | simple blanks _ ih =>
      simp [Statements.events, Simple.operands_eq, ih,
        operands_newlines]
  | block blanks later _ _ ihInner ihRest =>
      simp [Statements.events, openingLeaves, Event.operand?,
        Leaf.operand?, List.filterMap_cons,
        Comparison.operands_eq, ihInner, ihRest,
        operands_newlines]

end Tree

------------------------------------------------------------
-- Reports of Compilations
------------------------------------------------------------

/- The reports on a tree list the operands among its tokens. -/
theorem Cursor.Reads.operands_eq
    {start : Cursor}
    {history : History}
    {program : Statements}
    (hReads : start.Reads history program) :
    program.events.filterMap Event.operand? =
      Token.operands history.tokens := by
  rcases hReads.spells with ⟨blanks, body, hLeaves, hBody⟩
  have hWords := hReads.spells.operands_words
  rw [history.words_eq] at hWords
  rw [Token.operands, hWords, hBody.operands_eq, hLeaves]
  simp [operands_newlines, Leaf.operand?]

/-
  A program that compiles is reported as its syntax tree, each
  part before those it holds, with the number of its variables and
  labels behind it. The reports on operands show the operands
  among the tokens, in their order.
-/
theorem compile_reports_tree
    {source text : String}
    (hCompile : compile source = .ok text) :
    ∃ tokens program,
      tokenize source = .ok tokens ∧
        (∀ other : Statements,
          other.IsTreeOf tokens ↔ other = program) ∧
          (Compilation.ofSource source).events.toList =
              .program :: program.events ++
                [.parsed program.declared.length
                  program.labels.length] ∧
            ((Compilation.ofSource source).events.toList.filter
                  (·.message = "primary")).map Event.fields =
              (Token.operands tokens).map Word.details := by
  unfold compile at hCompile
  cases Compilation.outcome source with
  | refused hResult _ =>
      rw [hResult] at hCompile
      cases hCompile
  | @accepted _ history program _ hReads _ _ hEvents =>
      rw [hReads.spells.labels_eq] at hEvents
      refine
        ⟨history.tokens, program, hReads.tokenize_eq,
          hReads.isTreeOf.iff_eq, hEvents, ?_⟩
      rw [Event.map_fields_eq, ← hReads.operands_eq, hEvents]
      simp [List.filterMap_cons, Event.operand?]

/- The lines that end in a row are reported once. -/
theorem compile_reports_tree_block :
    ∃ source text : String,
      ∃ tokens : List Token, ∃ program : Statements,
        source = "LET a = 1\nIF a > -2 THEN\n\n\nPRINT a\nENDIF" ∧
          compile source = .ok text ∧
            tokenize source = .ok tokens ∧
              (∀ other : Statements,
                other.IsTreeOf tokens ↔ other = program) ∧
                Token.operands tokens =
                    [(.number, "1"), (.ident, "a"),
                      (.number, "2"), (.ident, "a")] ∧
                  .program :: program.events ++
                      [.parsed program.declared.length
                        program.labels.length] =
                    [.program, .statement (.keyword .letKw),
                      .expression, .term, .unary,
                      .primary .number "1", .newline,
                      .statement (.keyword .ifKw), .comparison,
                      .expression, .term, .unary,
                      .primary .ident "a", .expression, .term,
                      .unary, .primary .number "2", .newline,
                      .statement (.keyword .print), .expression,
                      .term, .unary, .primary .ident "a",
                      .newline, .newline, .parsed 1 0] := by
  have hCompile :
      compile "LET a = 1\nIF a > -2 THEN\n\n\nPRINT a\nENDIF" =
        .ok
          ("#include <stdio.h>\nint main(void)\x7b\n" ++
            "float a;\na = 1;\nif(a > -2)\x7b\n" ++
            "printf(\"%.2f\\n\", (float)(a));\n\x7d\n" ++
            "return 0;\n\x7d\n") := by
    decide +kernel
  have hOperands :
      (tokenize "LET a = 1\nIF a > -2 THEN\n\n\nPRINT a\nENDIF").map
          Token.operands =
        .ok
          [(.number, "1"), (.ident, "a"), (.number, "2"),
            (.ident, "a")] := by
    decide +kernel
  rcases compile_reports_tree hCompile with
    ⟨tokens, program, hTokens, hTree, hEvents, _⟩
  rw [hTokens] at hOperands
  refine
    ⟨_, _, tokens, program, rfl, hCompile, hTokens, hTree,
      Except.ok.inj hOperands, ?_⟩
  rw [← hEvents]
  decide +kernel

end TeenyC
