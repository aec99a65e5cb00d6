import Mathlib.Data.List.Basic

/-
  The pieces that C splits an expression into.

  A piece is a number, a name or a mark. Each is as long as the
  characters allow, so a text that is written without blanks may
  fuse what was meant as two pieces. A number of C goes on over
  letters, points and the sign of an exponent; it need not be a
  constant. What opens a comment counts as a mark.

  Key definitions include:
    * `CText.Piece`
    * `CText.Piece.extend?`
    * `CText.split`
    * `CText.Splits`

  Key theorems include:
    * `CText.Splits.join`
    * `CText.splits_of_spelt`
    * `CText.splits_pair`
-/

namespace TeenyC

namespace CText

------------------------------------------------------------
-- Pieces
------------------------------------------------------------

/- A piece of a C text. -/
inductive Piece where
| number (text : List Char)
| name (text : List Char)
| mark (text : List Char)
deriving DecidableEq

/- The marks of C, and the two that open a comment. -/
def marks : List (List Char) :=
  ["[", "]", "(", ")", "\x7b", "\x7d", ".", "->", "++", "--",
    "&", "*", "+", "-", "~", "!", "/", "%", "<<", ">>", "<",
    ">", "<=", ">=", "==", "!=", "^", "|", "&&", "||", "?",
    ":", ";", "=", "*=", "/=", "%=", "+=", "-=", "<<=", ">>=",
    "&=", "^=", "|=", ",", "#", "##", "<:", ":>", "<%", "%>",
    "%:", "//", "/*"].map String.toList

/- The characters that only separate pieces. -/
def isBlank (ch : Char) : Bool :=
  ch == ' ' || ch == '\t' || ch == '\n'

/- The characters that a name starts with. -/
def isNameStart (ch : Char) : Bool :=
  ch.isAlpha || ch == '_'

/- The characters that a name goes on with. -/
def isNameText (ch : Char) : Bool :=
  ch.isAlphanum || ch == '_'

/- A number that ends so may go on with the sign of an exponent. -/
def endsInExponent (text : List Char) : Bool :=
  match text.getLast? with
  | some last => ['e', 'E', 'p', 'P'].contains last
  | none => false

namespace Piece

/- The piece that starts with a character. -/
def begin? (ch : Char) : Option Piece :=
  if ch.isDigit then some (.number [ch])
  else if isNameStart ch then some (.name [ch])
  else if marks.contains [ch] then some (.mark [ch])
  else none

/- The piece that goes on with a character. -/
def extend? : Piece → Char → Option Piece
| .number text, ch =>
    if isNameText ch || ch == '.' ||
        ((ch == '+' || ch == '-') && endsInExponent text) then
      some (.number (text ++ [ch]))
    else none
| .name text, ch =>
    if isNameText ch then some (.name (text ++ [ch])) else none
| .mark text, ch =>
    if text = ['.'] ∧ ch.isDigit = true then
      some (.number (text ++ [ch]))
    else if marks.contains (text ++ [ch]) then
      some (.mark (text ++ [ch]))
    else none

end Piece

/-
  The pieces of a text, after what was read of an open piece.
  There are none if some character starts no piece.
-/
def split : Option Piece → List Char → Option (List Piece)
| opened, [] => some opened.toList
| opened, ch :: rest =>
    match opened.bind fun piece => piece.extend? ch with
    | some longer => split (some longer) rest
    | none =>
        if isBlank ch then
          (split none rest).map (opened.toList ++ ·)
        else
          (Piece.begin? ch).bind fun first =>
            (split (some first) rest).map (opened.toList ++ ·)

------------------------------------------------------------
-- What Goes On
------------------------------------------------------------

/- The characters that separate pieces or go on a name. -/
def isWordOrBlank (ch : Char) : Bool :=
  isNameText ch || isBlank ch

/- No mark ends in a word or a blank. -/
theorem marks_end
    {text : List Char}
    {ch : Char}
    (hMark : marks.contains (text ++ [ch]) = true) :
    isWordOrBlank ch = false := by
  have hEnds :
      marks.all
          (fun mark => mark.getLast?.all (!isWordOrBlank ·)) =
        true := by
    decide
  have hEnd :=
    List.all_eq_true.mp hEnds _ (List.contains_iff_mem.mp hMark)
  simpa using hEnd

/- No blank goes on a name. -/
theorem isBlank_of_isNameText
    {ch : Char}
    (hWord : isNameText ch = true) :
    isBlank ch = false := by
  by_contra hBlank
  simp only [isBlank, Bool.not_eq_false, Bool.or_eq_true,
    beq_iff_eq] at hBlank
  rcases hBlank with (hSpace | hTab) | hLine
  · subst hSpace
    contradiction
  · subst hTab
    contradiction
  · subst hLine
    contradiction

namespace Piece

/- A mark ends where no longer mark and no number goes on. -/
theorem extend?_mark
    {text : List Char}
    {ch : Char}
    (hPoint : ¬ (text = ['.'] ∧ ch.isDigit = true))
    (hCh : isWordOrBlank ch = true) :
    (mark text).extend? ch = none := by
  have hMark : ¬ marks.contains (text ++ [ch]) = true := by
    intro hMark
    rw [marks_end hMark] at hCh
    contradiction
  rw [extend?, if_neg hPoint, if_neg hMark]

/- A piece ends at a blank. -/
theorem extend?_blank (piece : Piece) :
    piece.extend? ' ' = none := by
  cases piece with
  | number text => rfl
  | name text => rfl
  | mark text =>
      apply extend?_mark
      · intro hPoint
        rcases hPoint with ⟨_, hDigit⟩
        cases hDigit
      · rfl

/- A piece takes in all characters that keep it of its kind. -/
theorem extend_all
    {make : List Char → Piece}
    {text more : List Char}
    (hMore :
      ∀ ch ∈ more, ∀ before,
        (make before).extend? ch = some (make (before ++ [ch]))) :
    more.foldlM extend? (make text) =
      some (make (text ++ more)) := by
  induction more generalizing text with
  | nil => simp
  | cons ch more ih =>
      rw [List.foldlM_cons, hMore ch List.mem_cons_self,
        List.append_cons text ch more]
      apply ih
      intro other hOther
      exact hMore other (List.mem_cons_of_mem _ hOther)

/- A number goes on over digits and points. -/
theorem extend?_number
    {ch : Char}
    (hCh : ch.isDigit = true ∨ ch = '.')
    (text : List Char) :
    (number text).extend? ch = some (number (text ++ [ch])) := by
  rw [extend?]
  apply if_pos
  rcases hCh with hDigit | hPoint
  · simp [isNameText, Char.isAlphanum, hDigit]
  · simp [hPoint]

/- A name goes on over letters and digits. -/
theorem extend?_name
    {ch : Char}
    (hCh : ch.isAlphanum = true)
    (text : List Char) :
    (name text).extend? ch = some (name (text ++ [ch])) := by
  rw [extend?]
  apply if_pos
  simp [isNameText, hCh]

end Piece

------------------------------------------------------------
-- Spellings of Pieces
------------------------------------------------------------

/- A text that a piece starts with and goes on with to its end. -/
inductive Piece.Spelt : List Char → Piece → Prop
| mk
    {first : Char}
    {more : List Char}
    {start piece : Piece}
    (hFirst : isBlank first = false)
    (hStart : Piece.begin? first = some start)
    (hMore : more.foldlM Piece.extend? start = some piece) :
    Spelt (first :: more) piece

/- An open piece takes in the characters that it goes on with. -/
theorem split_extend
    {piece longer : Piece}
    {more rest : List Char}
    (hMore : more.foldlM Piece.extend? piece = some longer) :
    split (some piece) (more ++ rest) =
      split (some longer) rest := by
  induction more generalizing piece with
  | nil =>
      cases hMore
      rfl
  | cons ch more ih =>
      rw [List.foldlM_cons, Option.bind_eq_bind,
        Option.bind_eq_some_iff] at hMore
      rcases hMore with ⟨next, hNext, hRest⟩
      rw [← ih hRest, List.cons_append, split,
        Option.bind_some, hNext]

/- A text that spells a piece opens it. -/
theorem split_spelt
    {piece : Piece}
    {text rest : List Char}
    (hSpelt : Piece.Spelt text piece) :
    split none (text ++ rest) = split (some piece) rest := by
  cases hSpelt with
  | mk hFirst hStart hMore =>
      rw [← split_extend hMore, List.cons_append, split]
      simp [hFirst, hStart]

/- A piece that does not go on leaves the rest as it is. -/
theorem split_after
    {piece : Piece}
    {ch : Char}
    {rest : List Char}
    (hEnds : piece.extend? ch = none) :
    split (some piece) (ch :: rest) =
      (split none (ch :: rest)).map ([piece] ++ ·) := by
  rw [split, split, Option.bind_some, hEnds, Option.bind_none]
  by_cases hBlank : isBlank ch = true
  · simp [hBlank]
  · simp only [hBlank, Bool.false_eq_true, if_false]
    cases Piece.begin? ch with
    | none => rfl
    | some first => simp

------------------------------------------------------------
-- Splitting before a Blank
------------------------------------------------------------

/- A text that is empty or starts with a blank. -/
def Stops (rest : List Char) : Prop :=
  rest = [] ∨ ∃ more, rest = ' ' :: more

/- The text is split into the pieces, if a blank or nothing follows. -/
def Splits (text : List Char) (pieces : List Piece) : Prop :=
  ∀ rest, Stops rest →
    split none (text ++ rest) =
      (split none rest).map (pieces ++ ·)

/- An open piece is over before a blank and at the end. -/
theorem split_stops
    (piece : Piece)
    {rest : List Char}
    (hStops : Stops rest) :
    split (some piece) rest =
      (split none rest).map ([piece] ++ ·) := by
  rcases hStops with hNil | ⟨more, hBlank⟩
  · subst hNil
    rfl
  · subst hBlank
    exact split_after piece.extend?_blank

/- A text that spells a piece is that piece. -/
theorem splits_of_spelt
    {text : List Char}
    {piece : Piece}
    (hSpelt : Piece.Spelt text piece) :
    Splits text [piece] := by
  intro rest hStops
  rw [split_spelt hSpelt, split_stops piece hStops]

/- A piece that a second one does not go on with stays alone. -/
theorem splits_pair
    {text more : List Char}
    {first : Char}
    {piece next : Piece}
    (hText : Piece.Spelt text piece)
    (hMore : Piece.Spelt (first :: more) next)
    (hEnds : piece.extend? first = none) :
    Splits (text ++ first :: more) [piece, next] := by
  intro rest hStops
  rw [List.append_assoc, split_spelt hText, List.cons_append,
    split_after hEnds, ← List.cons_append, split_spelt hMore,
    split_stops next hStops, Option.map_map]
  rfl

/- Two texts with a blank between them are split one by one. -/
theorem Splits.join
    {text more : List Char}
    {pieces later : List Piece}
    (hText : Splits text pieces)
    (hMore : Splits more later) :
    Splits (text ++ ' ' :: more) (pieces ++ later) := by
  intro rest hStops
  have hBlank :
      split none (' ' :: (more ++ rest)) =
        split none (more ++ rest) := by
    simp [split, isBlank]
  rw [List.append_assoc, List.cons_append,
    hText _ (.inr ⟨_, rfl⟩), hBlank, hMore rest hStops,
    Option.map_map]
  congr 1
  funext others
  simp

/- A text that is all is split into its pieces. -/
theorem Splits.split_eq
    {text : List Char}
    {pieces : List Piece}
    (hText : Splits text pieces) :
    split none text = some pieces := by
  have hAll := hText [] (.inl rfl)
  simpa [split] using hAll

end CText

end TeenyC
