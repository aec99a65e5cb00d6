import Mathlib.Data.List.DropRight
import TeenyC.Proofs.CText.Line

/-
  Lines of C texts read back from their texts.

  The text of a sound line belongs to no other sound line. To
  read a text, what each form would hold is cut out of it: the
  line is the one form that is sound and has this text.

  Key definitions include:
    * `CText.Line.forms`
    * `CText.Line.candidates`
    * `CText.Line.ofText?`

  Key theorems include:
    * `CText.Line.text_inj`
    * `CText.Line.ofText?_text`
    * `CText.Line.mapM_ofText?`
-/

namespace TeenyC

namespace CText

open Lexeme

/- The empty text is no name. -/
theorem not_isName_nil : ¬ IsName [] := by
  simp [IsName]

/- A name is a letter, and letters and digits after it. -/
theorem isName_cons_iff {first : Char} {rest : List Char} :
    IsName (first :: rest) ↔
      first.isAlpha = true ∧ rest.all Char.isAlphanum = true := by
  simp [IsName]

/- Whether a text is a name can be checked. -/
instance decidableIsName (text : List Char) :
    Decidable (IsName text) :=
  match text with
  | [] => isFalse not_isName_nil
  | _ :: _ => decidable_of_iff _ isName_cons_iff.symm

namespace Line

/- Whether a line is sound can be checked. -/
instance decidableSound (line : Line) : Decidable line.Sound :=
  match line with
  | .declare name | .label name | .jump name | .assign name _ =>
      inferInstanceAs (Decidable (IsName name.toList))
  | .printText contents =>
      decidable_of_iff
        (contents.toList.all isStringText = true)
        List.all_eq_true
  | .library | .main | .printValue _ | .scan _ | .skip
  | .opening _ _ | .close | .finish => isTrue trivial

------------------------------------------------------------
-- Texts of Lines
------------------------------------------------------------

variable {line other : Line}

/-
  A string that is printed is known by its word, for it has no
  percent sign.
-/
theorem eq_printText
    {contents : String}
    (hSound : line.Sound)
    (hContents :
      ∀ ch ∈ contents.toList, isStringText ch = true)
    (hText : line.text = (printText contents).text) :
    line = printText contents := by
  rcases parts_eq hText hSound hContents with
    ⟨hWord, hMark, hTail⟩
  cases line with
  | printText other =>
      exact congrArg printText (held_eq hTail rfl rfl)
  | printValue value =>
      exact
        absurd hTail.symm
          (ne_printValue_of_isStringText hContents value)
  | scan | skip => simp [word] at hWord
  | opening kind value => cases kind <;> simp [word] at hWord
  | _ => cases hMark

/- A line that is the same in all programs is known by its text. -/
theorem eq_of_held_empty
    (hSound : line.Sound)
    (hOther : other.Sound)
    (hFixed :
      other ∈ [library, main, skip, close, finish])
    (hText : line.text = other.text) :
    line = other := by
  rcases parts_eq hText hSound hOther with ⟨hWord, hMark, hTail⟩
  simp only [List.mem_cons, List.not_mem_nil, or_false]
    at hFixed
  rcases hFixed with rfl | rfl | rfl | rfl | rfl
  · cases line with
    | library => rfl
    | _ => cases hMark
  · cases line with
    | main => rfl
    | assign name value => simp [tail, before] at hTail
    | declare | jump | finish => simp [word] at hWord
    | _ => cases hMark
  · cases line with
    | skip => rfl
    | printText | printValue | scan => simp [word] at hWord
    | opening kind value => cases kind <;> simp [word] at hWord
    | _ => cases hMark
  · cases line with
    | close => rfl
    | _ => cases hMark
  · cases line with
    | finish => rfl
    | assign name value => simp [tail, before] at hTail
    | declare | jump | main => simp [word] at hWord
    | _ => cases hMark

/- Two sound lines have the same text only if they are the same. -/
theorem text_inj
    (hSound : line.Sound)
    (hOther : other.Sound)
    (hText : line.text = other.text) :
    line = other := by
  cases other with
  | label name => exact eq_label hSound hOther hText
  | declare name => exact eq_declare hSound hOther hText
  | jump name => exact eq_jump hSound hOther hText
  | assign name value => exact eq_assign hSound hOther hText
  | printText contents => exact eq_printText hSound hOther hText
  | printValue value => exact eq_printValue hSound hText
  | scan name => exact eq_scan hSound hText
  | opening kind value => exact eq_opening hSound hText
  | library | main | skip | close | finish =>
      exact eq_of_held_empty hSound hOther (by simp) hText

------------------------------------------------------------
-- Lines Cut out of Texts
------------------------------------------------------------

/- The forms of lines with a first word, from what a line holds. -/
def forms (word : String) : List (String → Line) :=
  [fun _ => .library, fun _ => .main, fun _ => .skip,
    fun _ => .close, fun _ => .finish, fun _ => .label word,
    .declare, .jump, .assign word, .scan, .printText,
    .printValue, .opening .conditional, .opening .repetition]

/- What a line would hold, if it differed in its tail only. -/
def heldIn (line : Line) (tail : List Char) : String :=
  String.ofList
    ((tail.drop line.before.toList.length).rdrop
      line.after.toList.length)

/- The lines of all forms that a text may be the text of. -/
def candidates (text : String) : List Line :=
  let word := text.toList.takeWhile Char.isAlphanum
  let tail := (text.toList.dropWhile Char.isAlphanum).drop 1
  (forms (String.ofList word)).map fun form =>
    form (heldIn (form "") tail)

/- The line that a text is the text of. -/
def ofText? (text : String) : Option Line :=
  (candidates text).find? fun line =>
    line.Sound ∧ line.text = text

/- A line has a form, which settles what is around what it holds. -/
theorem exists_form (line : Line) :
    ∃ form ∈ forms line.word,
      (form "").before = line.before ∧
        (form "").after = line.after ∧ form line.held = line := by
  cases line with
  | declare name => exact ⟨declare, by simp [forms], rfl, rfl, rfl⟩
  | jump name => exact ⟨jump, by simp [forms], rfl, rfl, rfl⟩
  | assign name value =>
      exact ⟨assign name, by simp [forms, word], rfl, rfl, rfl⟩
  | scan name => exact ⟨scan, by simp [forms], rfl, rfl, rfl⟩
  | printText contents =>
      exact ⟨printText, by simp [forms], rfl, rfl, rfl⟩
  | printValue value =>
      exact ⟨printValue, by simp [forms], rfl, rfl, rfl⟩
  | opening kind value =>
      refine ⟨opening kind, ?_, rfl, rfl, rfl⟩
      cases kind <;> simp [forms]
  | library | main | skip | close | finish | label =>
      exact
        ⟨fun _ => _, by simp [forms, word], rfl, rfl, rfl⟩

/- A sound line is a candidate for its text. -/
theorem Sound.mem_candidates
    (hSound : line.Sound) :
    line ∈ candidates line.text := by
  have hEnds :
      Ends Char.isAlphanum (line.mark :: line.tail) := by
    intro ch hHead
    cases hHead
    exact isAlphanum_mark line
  have hWord :
      line.text.toList.takeWhile Char.isAlphanum =
        line.word.toList := by
    rw [toList_text, takeWhile_ends hSound.word_text hEnds]
  have hTail :
      (line.text.toList.dropWhile Char.isAlphanum).drop 1 =
        line.tail := by
    rw [toList_text, dropWhile_ends hSound.word_text hEnds]
    rfl
  rcases exists_form line with
    ⟨form, hForm, hBefore, hAfter, hLine⟩
  have hHeld : heldIn (form "") line.tail = line.held := by
    rw [heldIn, hBefore, hAfter, tail, List.append_assoc,
      List.drop_left, List.rdrop_append_length,
      String.ofList_toList]
  rw [candidates, hWord, hTail, String.ofList_toList]
  refine List.mem_map.mpr ⟨form, hForm, ?_⟩
  rw [hHeld, hLine]

/- A sound line is read back from its text. -/
theorem ofText?_text
    (hSound : line.Sound) :
    ofText? line.text = some line := by
  cases hFound : ofText? line.text with
  | none =>
      have hNone :=
        List.find?_eq_none.mp hFound line hSound.mem_candidates
      simp [hSound] at hNone
  | some found =>
      have hSome := List.find?_some hFound
      simp only [decide_eq_true_eq] at hSome
      rw [text_inj hSome.1 hSound hSome.2]

/- Sound lines are read back from their texts. -/
theorem mapM_ofText?
    {lines : List Line}
    (hSound : ∀ line ∈ lines, line.Sound) :
    (lines.map text).mapM ofText? = some lines := by
  induction lines with
  | nil => rfl
  | cons line lines ih =>
      have hFirst := ofText?_text (hSound line List.mem_cons_self)
      have hRest :=
        ih fun other hOther =>
          hSound other (List.mem_cons_of_mem _ hOther)
      simp [hFirst, hRest]

end Line

end CText

end TeenyC
