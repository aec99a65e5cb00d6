import TeenyC.Proofs.Parsing.Judgement
import TeenyC.Proofs.Token.Relaid

/-
  The layout of a program does not matter.

  Blanks and comments leave no token. Line breaks that stand
  first, or follow another, are passed without any effect. So
  two texts with the same words but for such line breaks compile
  to the same C text, or are refused for the same reason.

  Key definitions include:
    * `AlikeButLine`

  Key theorems include:
    * `Tree.Draft.judge_settle`
    * `compile_ignores_layout`
-/

namespace TeenyC

open TeenyC.Tree

------------------------------------------------------------
-- Line Breaks
------------------------------------------------------------

/- Every line break is the same word. -/
def Word.PlainBreaks (words : List Word) : Prop :=
  ∀ word ∈ words,
    word.isBreak = true → word = Leaf.newline.word

/- The line breaks of a text are the same word. -/
theorem plainBreaks_of_tokenize
    {source : String}
    {tokens : List Token}
    (hTokens : tokenize source = .ok tokens) :
    Word.PlainBreaks (tokens.map Token.word) := by
  intro word hWord hBreak
  rcases List.mem_map.mp hWord with ⟨token, hToken, hSame⟩
  subst hSame
  have hSpelled := spelled_of_tokenize hTokens token hToken
  have hKind : token.kind = .newline := by
    simpa [Word.isBreak, Token.word] using hBreak
  rw [Token.Spelled, hKind] at hSpelled
  exact Prod.ext hKind (String.ext hSpelled)

------------------------------------------------------------
-- Leaves without Effect
------------------------------------------------------------

namespace Leaf

/- The leaves that are not line breaks. -/
def significant (leaves : List Leaf) : List Leaf :=
  leaves.filter (· ≠ .newline)

/- What finds nothing in line breaks may pass them over. -/
theorem filterMap_significant
    {α : Type}
    {f : Leaf → Option α}
    (hBreak : f .newline = none)
    (leaves : List Leaf) :
    (significant leaves).filterMap f = leaves.filterMap f := by
  rw [significant, List.filterMap_filter]
  congr 1
  funext leaf
  by_cases hLeaf : leaf = .newline
  · simp [hLeaf, hBreak]
  · simp [hLeaf]

/- Line breaks do not matter to what is allowed. -/
theorem allowed_significant_iff
    {leaf : Leaf}
    {before : List Leaf} :
    leaf.Allowed (significant before) ↔ leaf.Allowed before := by
  cases leaf <;> simp [Allowed, significant]

/- Line breaks do not matter to the jumps and their labels. -/
theorem stray?_significant (leaves : List Leaf) :
    stray? (significant leaves) = stray? leaves := by
  rw [stray?, stray?, labels, labels, filterMap_significant rfl,
    filterMap_significant rfl]

/- A line break adds nothing to the leaves that are not. -/
theorem significant_snoc_newline (leaves : List Leaf) :
    significant (leaves ++ [.newline]) = significant leaves := by
  simp [significant]

end Leaf

namespace Tree.Draft

variable {draft next : Draft}
variable {before other : List Leaf}
variable {words rest : List Word}

/- The line breaks before words do not matter to their judgement. -/
theorem judge_congr
    (hSame : Leaf.significant before = Leaf.significant other) :
    draft.judge before words = draft.judge other words := by
  induction words generalizing draft before other with
  | nil =>
      rw [judge, judge, ← Leaf.stray?_significant before, hSame,
        Leaf.stray?_significant]
  | cons word rest ih =>
      cases hRead : draft.read word with
      | error cause =>
          rw [judge_of_refused hRead, judge_of_refused hRead]
      | ok verdict =>
          rcases verdict with ⟨leaf, next⟩
          have hAlike :
              leaf.Allowed before ↔ leaf.Allowed other := by
            rw [← Leaf.allowed_significant_iff, hSame,
              Leaf.allowed_significant_iff]
          by_cases hAllowed : leaf.Allowed before
          · rw [judge_of_allowed hRead hAllowed,
              judge_of_allowed hRead (hAlike.mp hAllowed)]
            apply ih
            simpa [Leaf.significant] using hSame
          · rw [judge_of_offends hRead hAllowed,
              judge_of_offends hRead (hAllowed ∘ hAlike.mpr)]

/- At the margin a line break changes nothing. -/
theorem judge_margin
    (hSpot : draft.spot = .margin) :
    draft.judge before (Leaf.newline.word :: rest) =
      draft.judge before rest := by
  have hRead :
      draft.read Leaf.newline.word = .ok (.newline, draft) := by
    rw [read, hSpot]
    rfl
  rw [judge_of_allowed hRead trivial]
  exact judge_congr (Leaf.significant_snoc_newline before)

/- A line break leads to the margin. -/
theorem read_newline_ok
    {leaf : Leaf}
    (hRead : draft.read Leaf.newline.word = .ok (leaf, next)) :
    leaf = .newline ∧ next.spot = .margin := by
  unfold read at hRead
  split at hRead
  · next hSpot =>
    cases hRead
    exact ⟨rfl, hSpot⟩
  · cases hRead
  · cases hRead
  · cases hRead
  · cases hRead
  · next site sum term _ =>
    -- Only a line break that ends an expression is read here.
    change
      draft.readExpressionEnd site (.extend sum term) .newline =
        _ at hRead
    cases site with
    | print =>
        cases hRead
        exact ⟨rfl, rfl⟩
    | assign name =>
        cases hRead
        exact ⟨rfl, rfl⟩
    | condition block lead =>
        rcases lead with - | ⟨left, sign⟩ <;>
          cases block <;> cases hRead
  · cases hRead
    exact ⟨rfl, rfl⟩
  · cases hRead
    exact ⟨rfl, rfl⟩
  · cases hRead
    refine ⟨rfl, ?_⟩
    unfold pop
    split <;> rfl
  · cases hRead

/- A line break that follows another changes nothing. -/
theorem judge_breaks :
    draft.judge before
        (Leaf.newline.word :: Leaf.newline.word :: rest) =
      draft.judge before (Leaf.newline.word :: rest) := by
  cases hRead : draft.read Leaf.newline.word with
  | error cause =>
      rw [judge_of_refused hRead, judge_of_refused hRead]
  | ok verdict =>
      rcases verdict with ⟨leaf, next⟩
      rcases read_newline_ok hRead with ⟨hLeaf, hSpot⟩
      subst hLeaf
      rw [judge_of_allowed hRead trivial, judge_margin hSpot,
        judge_of_allowed hRead trivial]

/- Words are judged alike if each run of breaks is only one. -/
theorem judge_destutter
    {word : Word}
    (hPlain : Word.PlainBreaks (word :: words)) :
    draft.judge before
        (words.destutter' Word.Apart word) =
      draft.judge before (word :: words) := by
  induction words generalizing word draft before with
  | nil => rfl
  | cons other rest ih =>
      rw [List.destutter']
      split
      · cases hRead : draft.read word with
        | error cause =>
            rw [judge_of_refused hRead, judge_of_refused hRead]
        | ok verdict =>
            rcases verdict with ⟨leaf, next⟩
            rw [judge, judge, hRead]
            have hRest :=
              @ih next (before ++ [leaf]) other
                (List.forall_mem_cons.mp hPlain).2
            dsimp only
            rw [hRest]
      · next hBoth =>
        rcases not_not.mp hBoth with ⟨hFirst, hSecond⟩
        have hWord := hPlain word (by simp) hFirst
        have hOther := hPlain other (by simp) hSecond
        subst hWord hOther
        rw [judge_breaks]
        exact ih (List.forall_mem_cons.mp hPlain).2

/- Line breaks that stand first do not matter. -/
theorem judge_dropWhile
    (hPlain : Word.PlainBreaks words) :
    start.judge before (words.dropWhile Word.isBreak) =
      start.judge before words := by
  induction words with
  | nil => rfl
  | cons word rest ih =>
      rw [List.dropWhile_cons]
      split
      · next hBreak =>
        have hWord := hPlain word (by simp) hBreak
        subst hWord
        rw [judge_margin rfl]
        exact ih (List.forall_mem_cons.mp hPlain).2
      · rfl

/- To settle the words of a program is not to judge it anew. -/
theorem judge_settle
    (hPlain : Word.PlainBreaks words) :
    start.judge before (Word.settle words) =
      start.judge before words := by
  rw [← judge_dropWhile hPlain, Word.settle]
  have hRest :
      Word.PlainBreaks (words.dropWhile Word.isBreak) := by
    intro word hWord
    exact hPlain word (List.dropWhile_subset _ hWord)
  cases hWords : words.dropWhile Word.isBreak with
  | nil => rfl
  | cons word rest =>
      rw [hWords] at hRest
      exact judge_destutter hRest

end Tree.Draft

------------------------------------------------------------
-- Diagnostics and Lines
------------------------------------------------------------

namespace Diagnostic

/- The line of a diagnostic can be set again. -/
theorem atLine_atLine
    (d : Diagnostic)
    (first last : Nat) :
    (d.atLine first).atLine last = d.atLine last := by
  cases d <;> rfl

/- A diagnostic at its own line is the same. -/
theorem atLine_line (d : Diagnostic) :
    d.atLine d.line = d := by
  cases d <;> rfl

/- Diagnostics that are alike at one line differ in theirs only. -/
theorem eq_atLine
    {d other : Diagnostic}
    {line : Nat}
    (hAlike : d.atLine line = other.atLine line) :
    other = d.atLine other.line := by
  calc
    other = other.atLine other.line := other.atLine_line.symm
    _ = (other.atLine line).atLine other.line :=
      (other.atLine_atLine line other.line).symm
    _ = (d.atLine line).atLine other.line := by rw [hAlike]
    _ = d.atLine other.line := d.atLine_atLine line other.line

/- A message is the same at any line, but for its number. -/
theorem message_atLine (d : Diagnostic) :
    ∃ before after,
      ∀ line,
        (d.atLine line).message =
          before ++ (toString line ++ after) := by
  cases d with
  | lexical e =>
      refine
        ⟨"lex error at line ",
          " (byte " ++
            (toString e.position ++ ("): " ++ e.cause.message)),
          ?_⟩
      intro line
      change
        "lex error at line " ++ toString line ++ " (byte " ++
              toString e.position ++ "): " ++ e.cause.message =
          _
      simp only [String.append_assoc]
  | grammar e =>
      refine ⟨"parse error at line ", ": " ++ e.message, ?_⟩
      intro line
      change
        "parse error at line " ++ toString line ++ ": " ++
            e.message =
          _
      simp only [String.append_assoc]
  | naming e =>
      refine ⟨"semantic error at line ", ": " ++ e.message, ?_⟩
      intro line
      change
        "semantic error at line " ++ toString line ++ ": " ++
            e.message =
          _
      simp only [String.append_assoc]

end Diagnostic

------------------------------------------------------------
-- Compilations
------------------------------------------------------------

/-
  Two results that are the same text, or the same diagnostic but
  for its line, whose messages differ in the line's number only.
-/
def AlikeButLine
    (first second : Except Diagnostic String) : Prop :=
  (∃ text, first = .ok text ∧ second = .ok text) ∨
    ∃ (d : Diagnostic) (line : Nat) (before after : String),
      first = .error d ∧ second = .error (d.atLine line) ∧
        d.message = before ++ (toString d.line ++ after) ∧
          (d.atLine line).message =
            before ++ (toString line ++ after)

/- Results that are alike at one line are alike but for it. -/
theorem alikeButLine_of_mapError
    {first second : Except Diagnostic String}
    {line : Nat}
    (hSame :
      first.mapError (Diagnostic.atLine line) =
        second.mapError (Diagnostic.atLine line)) :
    AlikeButLine first second := by
  cases first with
  | ok text =>
      cases second with
      | ok other =>
          cases hSame
          exact .inl ⟨text, rfl, rfl⟩
      | error d => cases hSame
  | error d =>
      cases second with
      | ok other => cases hSame
      | error other =>
          have hAlike := Except.error.inj hSame
          rcases d.message_atLine with ⟨before, after, hMessage⟩
          have hOwn := hMessage d.line
          rw [d.atLine_line] at hOwn
          rw [Diagnostic.eq_atLine hAlike]
          exact
            .inr
              ⟨d, other.line, before, after, rfl, rfl, hOwn,
                hMessage other.line⟩

variable {source other : String}
variable {tokens others : List Token}

/- Texts whose words settle alike are compiled alike. -/
theorem compile_alike_of_settle
    (hNul : '\x00' ∉ source.toList)
    (hOtherNul : '\x00' ∉ other.toList)
    (hTokens : tokenize source = .ok tokens)
    (hOthers : tokenize other = .ok others)
    (hSame :
      Word.settle (tokens.map Token.word) =
        Word.settle (others.map Token.word)) :
    AlikeButLine (compile source) (compile other) := by
  apply @alikeButLine_of_mapError _ _ 0
  rw [compile_eq_judge hNul hTokens,
    compile_eq_judge hOtherNul hOthers,
    ← Draft.judge_settle (plainBreaks_of_tokenize hTokens),
    ← Draft.judge_settle (plainBreaks_of_tokenize hOthers),
    hSame]

/- A text with another layout has words that settle alike. -/
theorem exists_tokenize_of_relaid
    (hTokens : tokenize source = .ok tokens)
    (hRelaid :
      Relation.EqvGen Lexeme.Relaid (source.toList ++ ['\n'])
        (other.toList ++ ['\n'])) :
    ∃ others,
      tokenize other = .ok others ∧
        Word.settle (tokens.map Token.word) =
          Word.settle (others.map Token.word) := by
  have hYields :=
    (exists_tokenize_iff source _).mp ⟨tokens, hTokens, rfl⟩
  rcases (Lexeme.settles_iff_of_relaid hRelaid).mp
      ⟨_, hYields, rfl⟩ with
    ⟨words, hWords, hSettle⟩
  rcases (exists_tokenize_iff other words).mpr hWords with
    ⟨others, hOthers, hMap⟩
  exact ⟨others, hOthers, by rw [hMap, hSettle]⟩

/-
  A text compiles as any other that has the same words, but for
  line breaks that stand first or follow another. So it does
  after any changes to its blanks, comments and blank lines, and
  to the line break at its end.
-/
theorem compile_ignores_layout
    (hNul : '\x00' ∉ source.toList)
    (hTokens : tokenize source = .ok tokens) :
    (∀ other others,
        '\x00' ∉ other.toList →
          tokenize other = .ok others →
            Word.settle (tokens.map Token.word) =
                Word.settle (others.map Token.word) →
              AlikeButLine (compile source) (compile other)) ∧
      ∀ other,
        '\x00' ∉ other.toList →
          Relation.EqvGen Lexeme.Relaid
              (source.toList ++ ['\n'])
              (other.toList ++ ['\n']) →
            AlikeButLine (compile source) (compile other) := by
  constructor
  · intro other others hOtherNul hOthers hSame
    exact
      compile_alike_of_settle hNul hOtherNul hTokens hOthers hSame
  · intro other hOtherNul hRelaid
    rcases exists_tokenize_of_relaid hTokens hRelaid with
      ⟨others, hOthers, hSame⟩
    exact
      compile_alike_of_settle hNul hOtherNul hTokens hOthers hSame

/- A comment, a tab, blank lines and a line break at the end. -/
theorem compile_ignores_layout_print :
    ∃ source respaced relaid tokens others,
      source = "PRINT 1\nGOTO a" ∧
        respaced = "\n\tPRINT  1 # c\r\n\n \nGOTO a" ∧
          relaid = "# c\n\tPRINT 1\nGOTO a\n" ∧
            '\x00' ∉ source.toList ∧
              tokenize source = .ok tokens ∧
                '\x00' ∉ respaced.toList ∧
                  tokenize respaced = .ok others ∧
                    Word.settle (tokens.map Token.word) =
                        Word.settle (others.map Token.word) ∧
                      AlikeButLine (compile source)
                          (compile respaced) ∧
                        '\x00' ∉ relaid.toList ∧
                          Relation.EqvGen Lexeme.Relaid
                              (source.toList ++ ['\n'])
                              (relaid.toList ++ ['\n']) ∧
                            AlikeButLine (compile source)
                              (compile relaid) := by
  have hTokens :
      tokenize "PRINT 1\nGOTO a" =
        .ok
          [{ kind := .keyword .print, text := "PRINT", line := 1 },
            { kind := .number, text := "1", line := 1 },
            { kind := .newline, text := "\n", line := 1 },
            { kind := .keyword .goto, text := "GOTO", line := 2 },
            { kind := .ident, text := "a", line := 2 },
            { kind := .newline, text := "\n", line := 2 },
            { kind := .eof, text := "", line := 3 }] := by
    decide +kernel
  have hOthers :
      tokenize "\n\tPRINT  1 # c\r\n\n \nGOTO a" =
        .ok
          [{ kind := .newline, text := "\n", line := 1 },
            { kind := .keyword .print, text := "PRINT", line := 2 },
            { kind := .number, text := "1", line := 2 },
            { kind := .newline, text := "\n", line := 2 },
            { kind := .newline, text := "\n", line := 3 },
            { kind := .newline, text := "\n", line := 4 },
            { kind := .keyword .goto, text := "GOTO", line := 5 },
            { kind := .ident, text := "a", line := 5 },
            { kind := .newline, text := "\n", line := 5 },
            { kind := .eof, text := "", line := 6 }] := by
    decide +kernel
  let ended : List Char :=
    "PRINT 1\nGOTO a".toList ++ ['\n', '\n']
  have hEnding :
      Lexeme.Relaid ("PRINT 1\nGOTO a".toList ++ ['\n']) ended :=
    .ending (by decide +kernel)
  have hTab : Lexeme.Relaid ended ('\t' :: ended) :=
    @Lexeme.Relaid.gap [] ['\t'] ended [] .nil
      (.blanks (by simp))
  have hLine :
      Lexeme.Relaid ('\t' :: ended)
        ('#' :: ' ' :: 'c' :: '\n' :: '\t' :: ended) :=
    @Lexeme.Relaid.line [] ['#', ' ', 'c'] ('\t' :: ended) []
      .nil (by simp)
      (@Lexeme.Gap.comment _ [] [' ', 'c'] (by simp) (by simp)
        (.inr rfl))
  have hText :
      "# c\n\tPRINT 1\nGOTO a\n".toList ++ ['\n'] =
        '#' :: ' ' :: 'c' :: '\n' :: '\t' :: ended := by
    decide +kernel
  have hRelaid :
      Relation.EqvGen Lexeme.Relaid
        ("PRINT 1\nGOTO a".toList ++ ['\n'])
        ("# c\n\tPRINT 1\nGOTO a\n".toList ++ ['\n']) := by
    rw [hText]
    exact
      .trans _ _ _ (.rel _ _ hEnding)
        (.trans _ _ _ (.rel _ _ hTab) (.rel _ _ hLine))
  have hNul : '\x00' ∉ "PRINT 1\nGOTO a".toList := by
    decide +kernel
  have hRespacedNul :
      '\x00' ∉ "\n\tPRINT  1 # c\r\n\n \nGOTO a".toList := by
    decide +kernel
  have hRelaidNul :
      '\x00' ∉ "# c\n\tPRINT 1\nGOTO a\n".toList := by
    decide +kernel
  have hAlike := compile_ignores_layout hNul hTokens
  have hRespaced :=
    hAlike.1 _ _ hRespacedNul hOthers (by decide +kernel)
  have hRelaidToo := hAlike.2 _ hRelaidNul hRelaid
  exact
    ⟨_, _, _, _, _, rfl, rfl, rfl, hNul, hTokens, hRespacedNul,
      hOthers, by decide +kernel, hRespaced, hRelaidNul, hRelaid,
      hRelaidToo⟩

end TeenyC
