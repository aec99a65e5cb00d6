import TeenyC.Proofs.Parsing.Acceptance

/-
  Judging a program by its words.

  The words of a program settle whether it compiles, and to
  what. They are read one by one, and the first that cannot be
  read or plays a part it may not play is reported; after the
  last word it is the first jump to no label. Only the line of
  the report is not settled by the words.

  Key definitions include:
    * `Diagnostic.atLine`
    * `Tree.Draft.judge`

  Key theorems include:
    * `Tree.Draft.Path.judge_eq`
    * `compile_eq_judge`
-/

namespace TeenyC

open TeenyC.Tree

------------------------------------------------------------
-- Judgements
------------------------------------------------------------

/- The same diagnostic with another line. -/
def Diagnostic.atLine (line : Nat) : Diagnostic → Diagnostic
| .lexical e => .lexical { e with line := line }
| .grammar e =>
    .grammar { e with found := { e.found with line := line } }
| .naming e => .naming { e with line := line }

/- The first jump to a label that is not declared. -/
def Leaf.stray? (leaves : List Leaf) : Option String :=
  (leaves.filterMap Leaf.jump?).find? fun name =>
    !(Leaf.labels leaves).contains name

/-
  The tree that the words complete the draft to, after the given
  leaves, or what is wrong with them. Line zero stands for the
  line of the report.
-/
def Tree.Draft.judge
    (draft : Draft)
    (before : List Leaf) :
    List Word → Except Diagnostic Statements
| [] =>
    match Leaf.stray? before with
    | some name =>
        .error
          (.naming
            { cause := .labelMissing, name := name, line := 0 })
    | none => .ok draft.done
| word :: rest =>
    match draft.read word with
    | .error cause =>
        .error
          (.grammar
            { cause := cause
              found :=
                { kind := word.1, text := word.2, line := 0 } })
    | .ok (leaf, next) =>
        if leaf.Allowed before then
          next.judge (before ++ [leaf]) rest
        else
          .error
            (.naming
              { cause := leaf.offence
                name := leaf.text
                line := 0 })

namespace Tree.Draft

variable {draft next last : Draft}
variable {before leaves : List Leaf}
variable {leaf : Leaf}
variable {word : Word}
variable {rest : List Word}

/- A word that cannot be read is reported. -/
theorem judge_of_refused
    {cause : GrammarCause}
    (hRead : draft.read word = .error cause) :
    draft.judge before (word :: rest) =
      .error
        (.grammar
          { cause := cause
            found :=
              { kind := word.1, text := word.2, line := 0 } }) := by
  rw [judge, hRead]

/- A word that is read in an allowed part is passed. -/
theorem judge_of_allowed
    (hRead : draft.read word = .ok (leaf, next))
    (hAllowed : leaf.Allowed before) :
    draft.judge before (word :: rest) =
      next.judge (before ++ [leaf]) rest := by
  rw [judge, hRead]
  exact if_pos hAllowed

/- A word that is read in another part is reported. -/
theorem judge_of_offends
    (hRead : draft.read word = .ok (leaf, next))
    (hOffends : ¬ leaf.Allowed before) :
    draft.judge before (word :: rest) =
      .error
        (.naming
          { cause := leaf.offence
            name := leaf.text
            line := 0 }) := by
  rw [judge, hRead]
  exact if_neg hOffends

/- The words along a path of allowed leaves are passed. -/
theorem Path.judge_eq
    (hPath : draft.Path leaves last)
    (hNamed : Leaf.WellNamed (before ++ leaves)) :
    draft.judge before (leaves.map Leaf.word ++ rest) =
      last.judge (before ++ leaves) rest := by
  induction hPath generalizing before with
  | nil => simp
  | @cons first second last leaf leaves hTakes _ ih =>
      have hFirst := hNamed before leaf leaves rfl
      rw [List.append_cons before leaf leaves] at hNamed ⊢
      rw [List.map_cons, List.cons_append,
        judge_of_allowed hTakes hFirst]
      exact ih hNamed

/- The words along a path from the start are passed. -/
theorem Path.judge_start
    (hPath : Draft.start.Path leaves last)
    (hNamed : Leaf.WellNamed leaves) :
    Draft.start.judge [] (leaves.map Leaf.word ++ rest) =
      last.judge leaves rest :=
  @judge_eq Draft.start last [] leaves rest hPath hNamed

end Tree.Draft

------------------------------------------------------------
-- Compilations
------------------------------------------------------------

/- The first jump of a history astray is that of its leaves. -/
theorem History.map_label_stray? (history : History) :
    history.stray?.map Jump.label =
      Leaf.stray? history.leaves := by
  have hJumps :
      history.leaves.filterMap Leaf.jump? =
        history.jumps.map Jump.label := by
    rw [History.leaves, List.filterMap_map, History.jumps,
      List.map_filterMap]
    congr 1
    funext placed
    cases hJump : placed.leaf.jump? <;>
      simp [Placed.jump?, hJump]
  rw [Leaf.stray?, hJumps, List.find?_map]
  rfl

/- A program that is read is judged by its jumps. -/
theorem Cursor.Reads.judge_eq
    {start : Cursor}
    {history : History}
    {program : Statements}
    (hReads : start.Reads history program) :
    Draft.start.judge [] (history.tokens.map Token.word) =
      (Draft.whole program).judge history.leaves [] := by
  rw [← history.words_eq, ← hReads.path.judge_start hReads.named,
    List.append_nil]

variable {source : String}
variable {tokens : List Token}

/-
  The words of a text that can be split into tokens settle its
  compilation, but for the line of a diagnostic.
-/
theorem compile_eq_judge
    (hNul : '\x00' ∉ source.toList)
    (hTokens : tokenize source = .ok tokens) :
    (compile source).mapError (Diagnostic.atLine 0) =
      (Draft.start.judge [] (tokens.map Token.word)).map
        Statements.generate := by
  cases hCompile : compile source with
  | ok text =>
      rcases reads_of_compile hCompile with
        ⟨history, program, hReads, hStray, hText⟩
      have hSame := hReads.tokens_eq hTokens
      subst hSame
      have hNone : Leaf.stray? history.leaves = none := by
        rw [← History.map_label_stray?, hStray]
        rfl
      rw [hReads.judge_eq, Draft.judge, hNone, hText]
      rfl
  | error d =>
      -- The words that were met are passed, up to the one at fault.
      cases refused_of_compile hCompile with
      | lexical hSupplied hFault =>
          exact
            absurd hFault
              (nextToken_ne_error hNul hTokens hSupplied)
      | grammar hSupplied hPath hUnfinished hNamed hRead =>
          rcases words_begin
              (prefix_of_supplies hTokens hSupplied hUnfinished)
            with ⟨rest, hWords⟩
          rw [← hWords, List.append_assoc,
            hPath.judge_start hNamed, List.singleton_append,
            Draft.judge_of_refused hRead]
          rfl
      | @naming history placed _ _ _ _ hSupplied hPath
          hUnfinished hNamed hOffends =>
          rcases words_begin
              (prefix_of_supplies hTokens hSupplied hUnfinished)
            with ⟨rest, hWords⟩
          rcases hPath.split with ⟨middle, hMiddle, hLast⟩
          cases hLast with
          | cons hTakes _ =>
              rw [← hWords, List.append_assoc,
                hMiddle.judge_start hNamed,
                List.singleton_append, Placed.word_token,
                Draft.judge_of_offends hTakes hOffends]
              rfl
      | @stray history program jump hReads hStray =>
          have hSame := hReads.tokens_eq hTokens
          subst hSame
          have hSome :
              Leaf.stray? history.leaves = some jump.label := by
            rw [← History.map_label_stray?, hStray]
            rfl
          rw [hReads.judge_eq, Draft.judge, hSome]
          rfl

end TeenyC
