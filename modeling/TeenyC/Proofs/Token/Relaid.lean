import Mathlib.Data.List.Destutter
import Mathlib.Logic.Relation
import TeenyC.Proofs.Token.Place

/-
  Changes to the layout of a text.

  Between two lexemes a gap may be put in or left out, and where
  a line starts so may a line that holds no lexeme. The text then
  yields the same words, but for line breaks that stand first or
  follow another.

  Key definitions include:
    * `Word.settle`
    * `Lexeme.Relaid`
    * `Lexeme.Settles`

  Key theorems include:
    * `Lexeme.Relaid.settles_iff`
    * `Lexeme.settles_iff_of_relaid`
-/

namespace TeenyC

------------------------------------------------------------
-- Settled Words
------------------------------------------------------------

namespace Word

/- Two words that are not both line breaks. -/
def Apart (word next : Word) : Prop :=
  ¬ (word.isBreak = true ∧ next.isBreak = true)

instance : DecidableRel Apart :=
  fun word next =>
    inferInstanceAs
      (Decidable
        (¬ (word.isBreak = true ∧ next.isBreak = true)))

/-
  The words without the line breaks that stand first, and with
  one line break for each run of them.
-/
def settle (words : List Word) : List Word :=
  (words.dropWhile isBreak).destutter Apart

variable {first last word : Word}
variable {before later : List Word}

/- Of two line breaks in a run one is left. -/
theorem destutter_breaks
    (hLast : last.isBreak = true)
    (hWord : word.isBreak = true) :
    (before ++ last :: word :: later).destutter' Apart first =
      (before ++ last :: later).destutter' Apart first := by
  induction before generalizing first with
  | nil =>
      by_cases hFirst : first.isBreak = true <;>
        simp [List.destutter', Apart, hFirst, hLast, hWord]
  | cons other before ih =>
      rw [List.cons_append, List.cons_append, List.destutter',
        List.destutter', ih, ih]

/- A line break where a line starts is not left. -/
theorem settle_line
    (hStart : ∀ last ∈ before.getLast?, last.isBreak = true)
    (hWord : word.isBreak = true) :
    settle (before ++ word :: later) =
      settle (before ++ later) := by
  rcases List.eq_nil_or_concat before with
    hNil | ⟨init, last, hBefore⟩
  · simp [hNil, settle, hWord]
  · rw [List.concat_eq_append] at hBefore
    have hLast : last.isBreak = true :=
      hStart last (by simp [hBefore])
    rw [hBefore, List.append_assoc, List.append_assoc,
      List.singleton_append, List.singleton_append, settle,
      settle, List.dropWhile_append, List.dropWhile_append]
    cases hInit : init.dropWhile isBreak with
    | nil => simp [hLast, hWord]
    | cons other more =>
        exact destutter_breaks hLast hWord

/- After a line break the words are settled as from a start. -/
theorem destutter_break
    (hLast : last.isBreak = true)
    (words : List Word) :
    words.destutter' Apart last = last :: settle words := by
  induction words with
  | nil => rfl
  | cons word words ih =>
      rw [List.destutter']
      by_cases hWord : word.isBreak = true
      · simpa [Apart, settle, hLast, hWord] using ih
      · simp [Apart, settle, List.destutter, hWord]

/- A line that holds words is left as it is, with its line break. -/
theorem settle_cons_line
    {line : List Word}
    (hFirst : first.isBreak = false)
    (hLine : ∀ other ∈ line, other.isBreak = false)
    (hLast : last.isBreak = true)
    (words : List Word) :
    settle (first :: line ++ last :: words) =
      first :: line ++ last :: settle words := by
  have hDestutter :
      (line ++ last :: words).destutter' Apart first =
        first :: line ++ last :: settle words := by
    induction line generalizing first with
    | nil =>
        have hApart : Apart first last := by
          simp [Apart, hFirst]
        simp [hApart, destutter_break hLast]
    | cons other line ih =>
        obtain ⟨hOther, hMore⟩ := List.forall_mem_cons.mp hLine
        have hApart : Apart first other := by
          simp [Apart, hFirst]
        simp [hApart, ih hOther hMore]
  simpa [settle, List.destutter, hFirst] using hDestutter

end Word

------------------------------------------------------------
-- Layouts
------------------------------------------------------------

namespace Lexeme

/-
  The second text is the first with something put in: a gap
  between two lexemes, a line without lexemes where a line
  starts, or a line break after the last. Both are closed by a
  line break.
-/
inductive Relaid : List Char → List Char → Prop
| gap
    {before gap rest : List Char}
    {words : List Word}
    (hPlace : Begins rest before words)
    (hGap : Gap rest gap) :
    Relaid (before ++ rest) (before ++ (gap ++ rest))
| line
    {before gap rest : List Char}
    {words : List Word}
    (hPlace : Begins rest before words)
    (hStart : ∀ word ∈ words.getLast?, word.isBreak = true)
    (hGap : Gap ('\n' :: rest) gap) :
    Relaid (before ++ rest) (before ++ (gap ++ '\n' :: rest))
| ending
    {source : List Char}
    (hNul : '\x00' ∉ source) :
    Relaid (source ++ ['\n']) (source ++ ['\n', '\n'])

variable {source other : List Char}
variable {settled : List Word}

/- The text yields words that settle to these. -/
def Settles
    (source : List Char)
    (settled : List Word) : Prop :=
  ∃ words, Yields source words ∧ Word.settle words = settled

/- Up to a line break such a text is whole lines. -/
theorem Settles.begins_line
    {body tail : List Char}
    (hSettles : Settles (body ++ '\n' :: tail) settled)
    (hNul : '\x00' ∉ body) :
    ∃ words,
      Begins tail (body ++ ['\n'])
        (words ++ [Leaf.newline.word]) := by
  rcases hSettles with ⟨_, hYields, _⟩
  exact hYields.begins_line hNul

/- A line without lexemes does not matter. -/
theorem Begins.settles_line_iff
    {before gap rest : List Char}
    {words : List Word}
    (hBegins : Begins rest before words)
    (hStart : ∀ word ∈ words.getLast?, word.isBreak = true)
    (hGap : Gap ('\n' :: rest) gap) :
    Settles (before ++ rest) settled ↔
      Settles (before ++ (gap ++ '\n' :: rest)) settled := by
  have hSettle (later : List Word) :
      Word.settle (words ++ Leaf.newline.word :: later) =
        Word.settle (words ++ later) :=
    Word.settle_line hStart rfl
  simp only [Settles, hBegins.yields_iff,
    hBegins.yields_line_iff hStart hGap]
  constructor
  · intro hExists
    rcases hExists with ⟨_, ⟨later, hLater, rfl⟩, hSettled⟩
    refine ⟨_, ⟨later, hLater, rfl⟩, ?_⟩
    rwa [hSettle later]
  · intro hExists
    rcases hExists with ⟨_, ⟨later, hLater, rfl⟩, hSettled⟩
    refine ⟨_, ⟨later, hLater, rfl⟩, ?_⟩
    rwa [← hSettle later]

/- A text with another layout settles to the same words. -/
theorem Relaid.settles_iff
    (hRelaid : Relaid source other) :
    Settles source settled ↔ Settles other settled := by
  cases hRelaid with
  | gap hPlace hGap =>
      simp only [Settles, hPlace.yields_iff,
        (hPlace.of_gap hGap).yields_iff, yields_gap_iff hGap]
  | line hPlace hStart hGap =>
      exact hPlace.settles_line_iff hStart hGap
  | @ending source hNul =>
      have hNone : Gap ['\n'] [] := .blanks (by simp)
      have hEnding
          {words : List Word}
          {rest : List Char}
          (hBegins :
            Begins rest (source ++ ['\n'])
              (words ++ [Leaf.newline.word])) :
          Settles (source ++ ['\n']) settled ↔
            Settles (source ++ ['\n', '\n']) settled := by
        have hStart :
            ∀ word ∈ (words ++ [Leaf.newline.word]).getLast?,
              word.isBreak = true := by
          simp [Leaf.word, Word.isBreak, Leaf.kind]
        have hIff :=
          @Begins.settles_line_iff settled _ _ _ _
            (hBegins.of_start hStart []) hStart hNone
        simpa using hIff
      constructor
      · intro hSettles
        rcases hSettles.begins_line hNul with ⟨_, hBegins⟩
        exact (hEnding hBegins).mp hSettles
      · intro hSettles
        rcases hSettles.begins_line hNul with ⟨_, hBegins⟩
        exact (hEnding hBegins).mpr hSettles

/- So does a text after any series of such changes. -/
theorem settles_iff_of_relaid
    (hRelaid : Relation.EqvGen Relaid source other) :
    Settles source settled ↔ Settles other settled := by
  induction hRelaid with
  | rel _ _ hStep => exact hStep.settles_iff
  | refl _ => exact Iff.rfl
  | symm _ _ _ ih => exact ih.symm
  | trans _ _ _ _ _ ihFirst ihSecond =>
      exact ihFirst.trans ihSecond

end Lexeme

end TeenyC
