import TeenyC.Cursor

/-
  The sequence of tokens of a program text.

  A scanner yields the tokens one by one, the end of input as
  the last of them, or an error in its place. It remembers that
  it has yielded its last item; moving its cursor by hand, or
  asking the cursor for a token, neither sets nor heeds the
  mark.

  Key definitions include:
    * `Item`
    * `Scanner`
    * `Scanner.start`
    * `Scanner.next?`
    * `Scanner.drain`
    * `Scanner.rest`
    * `tokenize`
-/

namespace TeenyC

------------------------------------------------------------
-- Items
------------------------------------------------------------

/- What a scanner yields at one step. -/
abbrev Item := Except LexError Token

namespace Item

/- The end of input and an error are the last item of a sequence. -/
def isLast : Item → Bool
| .ok token => token.kind == .eof
| .error _ => true

/- The tokens of a sequence of items, or its first error. -/
def collect : List Item → Except LexError (List Token)
| [] => .ok []
| .ok token :: later => (collect later).map (token :: ·)
| .error e :: _ => .error e

end Item

------------------------------------------------------------
-- Scanners
------------------------------------------------------------

/- A cursor, with the mark that the last item has been yielded. -/
structure Scanner where
  cursor : Cursor
  finished : Bool
deriving DecidableEq

namespace Scanner

/- The scanner before a program text. -/
def start (source : String) : Scanner where
  cursor := Cursor.start source
  finished := false

/- Move the cursor by one byte. -/
def advance (s : Scanner) : Scanner :=
  { s with cursor := s.cursor.advance }

/- Read a token from the cursor, without regard to the mark. -/
def getToken (s : Scanner) : Item × Scanner :=
  let (item, cursor) := s.cursor.nextToken
  (item, { s with cursor := cursor })

/- Yield the next item, or none after the last. -/
def next? (s : Scanner) : Option (Item × Scanner) :=
  if s.finished then none
  else
    let (item, cursor) := s.cursor.nextToken
    some (item, { cursor := cursor, finished := Item.isLast item })

/- A bound on the number of items still to come. -/
def itemsLeft (s : Scanner) : Nat :=
  if s.finished then 0 else s.cursor.bytesAhead + 1

/- Every item uses up part of the bound. -/
theorem itemsLeft_next?_lt
    {s later : Scanner}
    {item : Item}
    (hNext : s.next? = some (item, later)) :
    later.itemsLeft < s.itemsLeft := by
  unfold next? at hNext
  split at hNext
  · cases hNext
  · next hMark =>
    simp only [Option.some.injEq, Prod.mk.injEq] at hNext
    obtain ⟨hItem, hLater⟩ := hNext
    subst hItem hLater
    cases hToken : s.cursor.nextToken.1 with
    | error e => simp [itemsLeft, hMark, Item.isLast]
    | ok token =>
        by_cases hKind : token.kind = .eof
        · simp [itemsLeft, hMark, Item.isLast, hKind]
        · have hMove :=
            Cursor.bytesAhead_nextToken_lt hToken hKind
          simp only [itemsLeft, hMark, Item.isLast, hKind,
            beq_iff_eq, if_false, Bool.false_eq_true]
          omega

/- Yield all the items that are left. -/
def drain (s : Scanner) : List Item × Scanner :=
  match _hNext : s.next? with
  | none => ([], s)
  | some (item, later) =>
      let (items, last) := later.drain
      (item :: items, last)
termination_by s.itemsLeft
decreasing_by exact itemsLeft_next?_lt _hNext

/- The tokens that are left, or the error met among them. -/
def rest (s : Scanner) : Except LexError (List Token) × Scanner :=
  let (items, last) := s.drain
  (Item.collect items, last)

end Scanner

/- All the tokens of a program text, or its first lexical error. -/
def tokenize (source : String) : Except LexError (List Token) :=
  (Scanner.start source).rest.1

end TeenyC
