import TeenyC.Proofs.Token.Steps

/-
  A scanner that goes byte by byte.

  It holds the whole text, a position in its bytes, and the byte at
  the position, and decides by single bytes. For the text of a token
  or of a message it cuts a slice, which fails if its bounds are out
  of order, out of the text, or inside a character. A loop that goes
  on past the end of the text fails as well.

  Key definitions include:
    * `Text.slice?`
    * `ByteScanner`
    * `ByteScanner.advance`
    * `ByteScanner.getToken?`
    * `ByteScanner.performAll?`

  Key theorems include:
    * `Text.isSome_slice?_iff`
    * `Text.slice?_append`
-/

namespace TeenyC

------------------------------------------------------------
-- Slices
------------------------------------------------------------

namespace Text

/-
  The part of a text between two places, which must be in order
  and between characters.
-/
def slice?
    (text : String)
    (start stop : Nat) : Option String :=
  if hCut :
      start ≤ stop ∧
        (⟨start⟩ : String.Pos.Raw).IsValid text ∧
          (⟨stop⟩ : String.Pos.Raw).IsValid text then
    some
      (String.extract (text.pos ⟨start⟩ hCut.2.1)
        (text.pos ⟨stop⟩ hCut.2.2))
  else none

variable {text : String}
variable {before middle behind : List Char}

/- A slice is cut in order, and between characters, or fails. -/
theorem isSome_slice?_iff
    {start stop : Nat} :
    (slice? text start stop).isSome ↔
      start ≤ stop ∧
        (⟨start⟩ : String.Pos.Raw).IsValid text ∧
          (⟨stop⟩ : String.Pos.Raw).IsValid text := by
  unfold slice?
  split <;> simp_all

/- A slice between two cuts is the text between them. -/
theorem slice?_append
    (hWhole : before ++ (middle ++ behind) = text.toList) :
    slice? text (byteLength before)
        (byteLength before + byteLength middle) =
      some (String.ofList middle) := by
  have hStart :
      (⟨byteLength before⟩ : String.Pos.Raw).IsValid text :=
    isValid_iff_exists_append.mpr
      ⟨before, middle ++ behind, hWhole, rfl⟩
  have hStop :
      (⟨byteLength before + byteLength middle⟩ :
        String.Pos.Raw).IsValid text :=
    isValid_iff_exists_append.mpr
      ⟨before ++ middle, behind, by simp [← hWhole],
        byteLength_append before middle⟩
  rw [slice?, dif_pos ⟨Nat.le_add_right _ _, hStart, hStop⟩,
    Option.some.injEq, ← String.toByteArray_inj,
    String.toByteArray_extract, String.toByteArray_ofList,
    ← String.utf8Encode_toList, ← hWhole, List.utf8Encode_append,
    List.utf8Encode_append]
  change
    ByteArray.extract _ (byteLength before)
      (byteLength before + byteLength middle) = _
  rw [← size_utf8Encode before, ← size_utf8Encode middle]
  calc
    _ =
        (middle.utf8Encode ++ behind.utf8Encode).extract 0
          middle.utf8Encode.size :=
      ByteArray.extract_append_size_add (i := 0)
    _ = middle.utf8Encode := ByteArray.extract_append_eq_left rfl

/- No slice starts inside a character. -/
theorem slice?_eq_none
    {start stop : Nat}
    (hCut : ¬ (⟨start⟩ : String.Pos.Raw).IsValid text) :
    slice? text start stop = none := by
  rw [← Option.not_isSome_iff_eq_none, isSome_slice?_iff]
  exact fun hAll => hCut hAll.2.1

/- Nothing can be cut off from the end on. -/
theorem slice?_end
    {start : Nat}
    (hEnd : text.utf8ByteSize ≤ start) :
    (slice? text start text.utf8ByteSize).getD "" = "" := by
  by_cases hHere : start = text.utf8ByteSize
  · have hWhole : text.toList ++ ([] ++ []) = text.toList := by
      simp
    have hSlice := slice?_append hWhole
    rw [byteLength_nil, Nat.add_zero, byteLength_toList] at hSlice
    rw [hHere, hSlice]
    rfl
  · have hNone : slice? text start text.utf8ByteSize = none := by
      rw [← Option.not_isSome_iff_eq_none, isSome_slice?_iff]
      exact fun hAll => hHere (Nat.le_antisymm hAll.1 hEnd)
    rw [hNone]
    rfl

end Text

------------------------------------------------------------
-- Byte Scanners
------------------------------------------------------------

/-
  The text with the line break that closes it, the position, the
  byte at the position, the line, and the mark of the last item.
-/
@[ext]
structure ByteScanner where
  buffer : String
  position : Nat
  current : UInt8
  line : Nat
  finished : Bool
deriving DecidableEq

namespace ByteScanner

/- The scanner before a program text, with its first byte. -/
def start? (source : String) : Option ByteScanner := do
  let buffer := source.push '\n'
  let first ← (Text.encode buffer.toList)[0]?
  return {
    buffer := buffer
    position := 0
    current := first
    line := 1
    finished := false }

/- The byte at a place, or zero past the end. -/
def byteAt
    (s : ByteScanner)
    (place : Nat) : UInt8 :=
  Text.byteAt s.buffer.toList place

/- Whether the whole text has been passed. -/
def atEnd (s : ByteScanner) : Bool :=
  s.buffer.utf8ByteSize ≤ s.position

/- Move on by one byte, onto a new line behind a line break. -/
def advance (s : ByteScanner) : ByteScanner :=
  { s with
    position := s.position + 1
    current := s.byteAt (s.position + 1)
    line :=
      if s.current = '\n'.toUInt8 ∧ s.atEnd = false then
        s.line + 1
      else s.line }

/- The byte after the current one. -/
def peek (s : ByteScanner) : UInt8 :=
  s.byteAt (s.position + 1)

/- The current byte, as a character of one byte. -/
def letter (s : ByteScanner) : Char :=
  Char.ofUInt8 s.current

/- The byte after the current one, as a character of one byte. -/
def nextLetter (s : ByteScanner) : Char :=
  Char.ofUInt8 s.peek

/- The whole character at a place, or a NUL where there is none. -/
def charAt
    (s : ByteScanner)
    (place : Nat) : Char :=
  let rest? := Text.slice? s.buffer place s.buffer.utf8ByteSize
  (rest?.bind fun rest => rest.toList.head?).getD '\x00'

/-
  Move on as long as a test holds. Past the end no byte is left that
  could end the loop, so one that comes that far fails.
-/
def advanceWhile
    (test : ByteScanner → Bool)
    (s : ByteScanner) : Option ByteScanner :=
  if test s then
    if s.atEnd then none else s.advance.advanceWhile test
  else some s
termination_by s.buffer.utf8ByteSize - s.position
decreasing_by
  simp only [atEnd, decide_eq_true_eq] at *
  simp only [advance]
  omega

------------------------------------------------------------
-- Tokens
------------------------------------------------------------

/- An error on the current line. -/
def fail
    (s : ByteScanner)
    (cause : LexCause)
    (position : Nat) : Item × ByteScanner :=
  (.error
    { cause := cause
      line := s.line
      position := position }, s)

/-
  A token that goes up to the current byte, from a place and a line
  on. The end of input has no text.
-/
def close?
    (s : ByteScanner)
    (kind : Kind)
    (start line : Nat) : Option (Item × ByteScanner) := do
  let text ←
    if kind = .eof then some ""
    else Text.slice? s.buffer start (s.position + 1)
  return (.ok { kind := kind, text := text, line := line },
    s.advance)

/- An operator that is another one if an equals sign follows. -/
def readOperator?
    (s : ByteScanner)
    (single double : Operator)
    (start line : Nat) : Option (Item × ByteScanner) :=
  if s.peek = '='.toUInt8 then
    s.advance.close? (.operator double) start line
  else s.close? (.operator single) start line

/-
  Move on to the quote that closes a string, or to what no string
  may hold, which is a fault.
-/
def closeString?
    (s : ByteScanner) : Option (Option LexCause × ByteScanner) := do
  let stop ← s.advanceWhile fun s => Lexeme.isStringText s.letter
  if stop.current = '"'.toUInt8 then return (none, stop)
  else if stop.current = 0 then
    return (some .unterminatedString, stop)
  else return (some (.illegalInString stop.letter), stop)

/- A string, from its opening quote on. -/
def readString?
    (s : ByteScanner)
    (line : Nat) : Option (Item × ByteScanner) := do
  let opened := s.advance
  match ← opened.closeString? with
  | (some cause, stop) => return stop.fail cause stop.position
  | (none, stop) =>
      let text ←
        Text.slice? stop.buffer opened.position stop.position
      return (.ok { kind := .string, text := text, line := line },
        stop.advance)

/- The digits behind the point of a number, which must be there. -/
def readFraction?
    (s : ByteScanner)
    (start line : Nat) : Option (Item × ByteScanner) := do
  if s.nextLetter.isDigit then
    let last ← s.advanceWhile fun s => s.nextLetter.isDigit
    last.close? .number start line
  else
    let text ← Text.slice? s.buffer start (s.position + 1)
    return s.fail (.bareFraction text) start

/- A number, from its first digit on. -/
def readNumber?
    (s : ByteScanner)
    (start line : Nat) : Option (Item × ByteScanner) := do
  let last ← s.advanceWhile fun s => s.nextLetter.isDigit
  if last.peek = '.'.toUInt8 then
    last.advance.readFraction? start line
  else last.close? .number start line

/- A word, from its first letter on. -/
def readWord?
    (s : ByteScanner)
    (start line : Nat) : Option (Item × ByteScanner) := do
  let last ← s.advanceWhile fun s => s.nextLetter.isAlphanum
  let text ← Text.slice? last.buffer start (last.position + 1)
  last.close? (Kind.ofWord text) start line

/- What stands at the current byte. -/
def readToken?
    (s : ByteScanner) : Option (Item × ByteScanner) :=
  let start := s.position
  let line := s.line
  match s.letter with
  | '\x00' => s.close? .eof start line
  | '+' => s.close? (.operator .plus) start line
  | '-' => s.close? (.operator .minus) start line
  | '*' => s.close? (.operator .times) start line
  | '/' => s.close? (.operator .divide) start line
  | '=' => s.readOperator? .assign .equal start line
  | '>' => s.readOperator? .greater .greaterEqual start line
  | '<' => s.readOperator? .less .lessEqual start line
  | '!' =>
      if s.peek = '='.toUInt8 then
        s.advance.close? (.operator .notEqual) start line
      else
        some (s.fail (.loneBang (s.charAt (start + 1))) start)
  | '"' => s.readString? line
  | '\n' => s.close? .newline start line
  | letter =>
      if letter.isDigit then s.readNumber? start line
      else if letter.isAlpha then s.readWord? start line
      else some (s.fail (.unknown (s.charAt start)) start)

/- Move on behind blanks. -/
def skipBlanks? (s : ByteScanner) : Option ByteScanner :=
  s.advanceWhile fun s => Lexeme.isBlank s.letter

/- Move on behind a comment, to the line break that ends it. -/
def skipComment? (s : ByteScanner) : Option ByteScanner :=
  if s.current = '#'.toUInt8 then
    s.advanceWhile fun s =>
      s.current != '\n'.toUInt8 && !s.atEnd
  else some s

/- Read a token behind blanks and a comment. -/
def getToken?
    (s : ByteScanner) : Option (Item × ByteScanner) := do
  let s ← s.skipBlanks?
  let s ← s.skipComment?
  s.readToken?

------------------------------------------------------------
-- Steps
------------------------------------------------------------

/- Do one step. -/
def perform?
    (s : ByteScanner) :
    Scanner.Step → Option (Scanner.Answer × ByteScanner)
| .advance => some (.moved, s.advance)
| .peek => some (.byte s.peek, s)
| .getToken => do
    let (item, later) ← s.getToken?
    return (.item item, later)
| .next =>
    if s.finished then some (.ended, s)
    else do
      let (item, later) ← s.getToken?
      return (.item item,
        { later with finished := Item.isLast item })

/- Do one step after the other. -/
def performAll?
    (s : ByteScanner) :
    List Scanner.Step → Option (List Scanner.Answer × ByteScanner)
| [] => some ([], s)
| step :: steps => do
    let (answer, later) ← s.perform? step
    let (answers, last) ← later.performAll? steps
    return (answer :: answers, last)

end ByteScanner

end TeenyC
