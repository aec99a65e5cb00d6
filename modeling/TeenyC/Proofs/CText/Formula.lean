import TeenyC.Token.Kind
import TeenyC.Proofs.CText.Piece

/-
  The formulas of C: constants and names joined by the operators
  that the two languages share.

  C has two levels where Teeny has one: an order binds tighter
  than an equality. Sums and products bind tighter still, signs
  tightest. Operators of one level group from the left.

  A formula is parsed piece by piece. What still waits for its
  right operand is kept on a stack, the latest on top.

  Key definitions include:
    * `CText.Formula`
    * `CText.priority`
    * `CText.parse`
    * `CText.Parses`

  Key theorems include:
    * `CText.Parses.join`
    * `CText.Parses.parse_eq`
-/

namespace TeenyC

namespace CText

------------------------------------------------------------
-- Formulas
------------------------------------------------------------

/- A formula of C. -/
inductive Formula where
| number (text : List Char)
| name (text : List Char)
| unary (sign : Operator) (operand : Formula)
| binary (sign : Operator) (left right : Formula)
deriving DecidableEq

/-
  How tightly an operator binds its two operands in C. An
  assignment stands outside of formulas.
-/
def priority : Operator → Nat
| .assign => 0
| .equal | .notEqual => 1
| .less | .lessEqual | .greater | .greaterEqual => 2
| .plus | .minus => 3
| .times | .divide => 4

/- The operator of formulas that a mark spells. -/
def operator? (mark : List Char) : Option Operator :=
  Operator.all.find? fun sign =>
    sign.spelling.toList == mark && 0 < priority sign

/- The formula that a piece is on its own. -/
def Piece.operand? : Piece → Option Formula
| .number text => some (.number text)
| .name text => some (.name text)
| .mark _ => none

/- The operator of formulas that a piece is. -/
def Piece.operator? : Piece → Option Operator
| .mark text => CText.operator? text
| .number _ | .name _ => none

------------------------------------------------------------
-- Parsing
------------------------------------------------------------

/- Left operands with their operators, the latest first. -/
abbrev Stack := List (Formula × Operator)

/-
  Either an operand is wanted, after a number of signs with the
  latest first, or the last operand is at hand.
-/
inductive State where
| wanting (stack : Stack) (signs : List Operator)
| holding (stack : Stack) (last : Formula)

/- Join what binds its right operand as tightly as the level. -/
def settle (level : Nat) : Stack → Formula → Stack × Formula
| [], last => ([], last)
| (left, sign) :: stack, last =>
    if level ≤ priority sign then
      settle level stack (.binary sign left last)
    else ((left, sign) :: stack, last)

/- A formula with signs before it, the closest first. -/
def signed (signs : List Operator) (operand : Formula) : Formula :=
  signs.foldl (fun formula sign => .unary sign formula) operand

/- Parse one more piece. -/
def State.step : State → Piece → Option State
| .wanting stack signs, piece =>
    match piece.operand? with
    | some operand => some (.holding stack (signed signs operand))
    | none =>
        match piece.operator? with
        | some sign =>
            if sign.isAdditive then
              some (.wanting stack (sign :: signs))
            else none
        | none => none
| .holding stack last, piece =>
    match piece.operator? with
    | some sign =>
        let (rest, left) := settle (priority sign) stack last
        some (.wanting ((left, sign) :: rest) [])
    | none => none

/- The formula that is left when all pieces are parsed. -/
def State.finish : State → Option Formula
| .wanting _ _ => none
| .holding stack last => some (settle 0 stack last).2

/- The formula that pieces make by the rules of C. -/
def parse (pieces : List Piece) : Option Formula :=
  (pieces.foldlM State.step (.wanting [] [])).bind State.finish

------------------------------------------------------------
-- Settling
------------------------------------------------------------

/- Nothing on the stack binds as tightly as the level, at its top. -/
def Below (level : Nat) : Stack → Prop
| [] => True
| (_, sign) :: _ => priority sign < level

variable {level : Nat}
variable {stack : Stack}

/- A level that the stack is below leaves it as it is. -/
theorem settle_below
    (hBelow : Below level stack)
    (last : Formula) :
    settle level stack last = (stack, last) := by
  cases stack with
  | nil => rfl
  | cons top stack =>
      rcases top with ⟨left, sign⟩
      rw [settle, if_neg]
      exact Nat.not_le.mpr hBelow

/- Settling for a looser level includes that for a tighter one. -/
theorem settle_settle
    {lower : Nat}
    (hLower : lower ≤ level)
    (stack : Stack)
    (last : Formula) :
    settle lower (settle level stack last).1
        (settle level stack last).2 =
      settle lower stack last := by
  induction stack generalizing last with
  | nil => rfl
  | cons top stack ih =>
      rcases top with ⟨left, sign⟩
      by_cases hTight : level ≤ priority sign
      · have hAlso : lower ≤ priority sign := by omega
        rw [settle, if_pos hTight, ih]
        rw [settle, if_pos hAlso]
      · rw [settle, if_neg hTight]

------------------------------------------------------------
-- What Pieces Parse As
------------------------------------------------------------

/-
  The pieces parse as the formula, whatever looser operators
  stand before them: all that is left on the stack besides is
  settled by the level.
-/
def Parses
    (level : Nat)
    (pieces : List Piece)
    (formula : Formula) : Prop :=
  ∀ stack, Below level stack →
    ∃ later last,
      pieces.foldlM State.step (.wanting stack []) =
          some (.holding later last) ∧
        settle level later last = (stack, formula)

namespace Parses

variable {pieces more : List Piece}
variable {formula left right : Formula}

/- What parses at a level parses at every looser one. -/
theorem mono
    {lower : Nat}
    (hParses : Parses level pieces formula)
    (hLower : lower ≤ level) :
    Parses lower pieces formula := by
  intro stack hBelow
  have hAlso : Below level stack := by
    cases stack with
    | nil => trivial
    | cons top stack => exact Nat.lt_of_lt_of_le hBelow hLower
  rcases hParses stack hAlso with ⟨later, last, hFold, hSettle⟩
  have hSame := settle_settle hLower later last
  rw [hSettle] at hSame
  exact
    ⟨later, last, hFold,
      hSame.symm.trans (settle_below hBelow formula)⟩

/- An operator joins what is before it to what binds tighter. -/
theorem join
    {sign : Operator}
    {piece : Piece}
    (hLeft : Parses (priority sign) pieces left)
    (hPiece : piece.operator? = some sign)
    (hRight : Parses (priority sign + 1) more right) :
    Parses (priority sign) (pieces ++ piece :: more)
      (.binary sign left right) := by
  intro stack hBelow
  rcases hLeft stack hBelow with
    ⟨middle, operand, hFold, hSettle⟩
  have hTop :
      Below (priority sign + 1) ((left, sign) :: stack) :=
    Nat.lt_succ_self _
  rcases hRight _ hTop with ⟨later, last, hMore, hRest⟩
  apply Exists.intro later
  apply Exists.intro last
  constructor
  · have hStep :
        State.step (.holding middle operand) piece =
          some (.wanting ((left, sign) :: stack) []) := by
      simp [State.step, hPiece, hSettle]
    rw [List.foldlM_append, hFold]
    change List.foldlM _ _ _ = _
    rw [List.foldlM_cons, hStep]
    exact hMore
  · have hSame :=
      settle_settle (Nat.le_succ (priority sign)) later last
    rw [hRest] at hSame
    rw [← hSame, settle, if_pos (Nat.le_refl _)]
    exact settle_below hBelow _

/- A constant or a name is a formula of every level. -/
theorem operand
    {piece : Piece}
    (hPiece : piece.operand? = some formula)
    (level : Nat) :
    Parses level [piece] formula := by
  intro stack hBelow
  apply Exists.intro stack
  apply Exists.intro formula
  constructor
  · simp [State.step, hPiece, signed]
  · exact settle_below hBelow formula

/- A sign binds tighter than any operator. -/
theorem sign
    {mark piece : Piece}
    {sign : Operator}
    (hMark : mark.operator? = some sign)
    (hSign : sign.isAdditive = true)
    (hPiece : piece.operand? = some formula)
    (level : Nat) :
    Parses level [mark, piece] (.unary sign formula) := by
  intro stack hBelow
  apply Exists.intro stack
  apply Exists.intro (.unary sign formula)
  constructor
  · have hNone : mark.operand? = none := by
      cases mark with
      | mark text => rfl
      | number text => cases hMark
      | name text => cases hMark
    simp [State.step, hNone, hMark, hSign, hPiece, signed]
  · exact settle_below hBelow _

/- What is parsed alone is the formula of all the pieces. -/
theorem parse_eq
    (hParses : Parses level pieces formula) :
    parse pieces = some formula := by
  rcases hParses.mono (Nat.zero_le level) [] trivial with
    ⟨later, last, hFold, hSettle⟩
  rw [parse, hFold, Option.bind_some, State.finish, hSettle]

end Parses

end CText

end TeenyC
