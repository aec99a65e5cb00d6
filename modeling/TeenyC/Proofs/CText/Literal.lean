import TeenyC.Proofs.Text.Bytes
import TeenyC.Proofs.Token.Spelled

/-
  String literals of C, and what printf makes of them.

  A literal goes up to the first quote that no backslash stands
  before. Its escapes stand for bytes, and the bytes are the
  format of a printf. The characters that no string of Teeny may
  hold are those that end a literal or a line, begin an escape or
  a conversion, or end a format. What is left means itself.

  Key definitions include:
    * `CText.literal?`
    * `CText.escape?`
    * `CText.decode?`
    * `CText.printed?`
    * `CText.Verbatim`

  Key theorems include:
    * `CText.verbatim_encode`
    * `CText.decode?_verbatim`
    * `CText.printed?_verbatim`
-/

namespace TeenyC

namespace CText

------------------------------------------------------------
-- Literals
------------------------------------------------------------

/-
  The inside of a literal that has been opened, with its escapes,
  and what follows the quote that closes it. A literal does not
  go on over the end of a line.
-/
def literal? :
    List UInt8 → Option (List UInt8 × List UInt8)
| [] => none
| byte :: rest =>
    if byte = '"'.toUInt8 then some ([], rest)
    else if byte = '\n'.toUInt8 then none
    else if byte = '\\'.toUInt8 then
      match rest with
      | [] => none
      | next :: later =>
          if next = '\n'.toUInt8 then none
          else
            (literal? later).map fun (body, after) =>
              (byte :: next :: body, after)
    else
      (literal? rest).map fun (body, after) =>
        (byte :: body, after)

------------------------------------------------------------
-- Escapes
------------------------------------------------------------

/- The letters and marks that are escapes, and their bytes. -/
def simpleEscapes : List (UInt8 × UInt8) :=
  [('\x27', 39), ('"', 34), ('?', 63), ('\\', 92), ('a', 7),
    ('b', 8), ('f', 12), ('n', 10), ('r', 13), ('t', 9),
    ('v', 11)].map fun (letter, byte) => (letter.toUInt8, byte)

/- The value of a digit, if it is one in the base. -/
def digit? (base : Nat) (byte : UInt8) : Option Nat :=
  let number := byte.toNat
  let value :=
    if 48 ≤ number ∧ number ≤ 57 then number - 48
    else if 65 ≤ number ∧ number ≤ 70 then number - 55
    else if 97 ≤ number ∧ number ≤ 102 then number - 87
    else base
  if value < base then some value else none

/- The digits that bytes start with. -/
def digits (base : Nat) : List UInt8 → List Nat
| [] => []
| byte :: rest =>
    match digit? base byte with
    | some value => value :: digits base rest
    | none => []

/- The number that digits stand for. -/
def number (base : Nat) (digits : List Nat) : Nat :=
  digits.foldl (fun value digit => base * value + digit) 0

/- A byte that is written as a number. -/
def byte? (value : Nat) : Option (List UInt8) :=
  if value < 256 then some [UInt8.ofNat value] else none

/-
  The bytes of a character that is written as a number. Only
  three characters below 160 may be.
-/
def character? (value : Nat) : Option (List UInt8) :=
  if value.isValidChar ∧
      (160 ≤ value ∨ value ∈ [36, 64, 96]) then
    some (String.utf8EncodeChar (Char.ofNat value))
  else none

/-
  The bytes that an escape stands for, given its first byte, and
  how many bytes it has besides.
-/
def escape?
    (first : UInt8)
    (rest : List UInt8) : Option (List UInt8 × Nat) :=
  match simpleEscapes.lookup first, digit? 8 first with
  | some byte, _ => some ([byte], 0)
  | none, some digit =>
      let more := digits 8 (rest.take 2)
      (byte? (number 8 (digit :: more))).map (·, more.length)
  | none, none =>
      let long := digits 16 rest
      let character (count : Nat) :=
        if count ≤ long.length then
          (character? (number 16 (long.take count))).map
            (·, count)
        else none
      if first = 'x'.toUInt8 ∧ long ≠ [] then
        (byte? (number 16 long)).map (·, long.length)
      else if first = 'u'.toUInt8 then character 4
      else if first = 'U'.toUInt8 then character 8
      else none

/- The bytes that the inside of a literal stands for. -/
def decode? (bytes : List UInt8) : Option (List UInt8) :=
  match bytes with
  | [] => some []
  | byte :: rest =>
      if byte = '\\'.toUInt8 then
        match rest with
        | [] => none
        | first :: later =>
            match escape? first later with
            | some (meant, count) =>
                (decode? (later.drop count)).map (meant ++ ·)
            | none => none
      else (decode? rest).map (byte :: ·)
termination_by bytes.length

/- An escape is decoded to the bytes it stands for. -/
theorem decode?_escape
    {first : UInt8}
    {rest meant : List UInt8}
    {count : Nat}
    (hEscape : escape? first rest = some (meant, count)) :
    decode? ('\\'.toUInt8 :: first :: rest) =
      (decode? (rest.drop count)).map (meant ++ ·) := by
  rw [decode?]
  simp [hEscape]

------------------------------------------------------------
-- Formats
------------------------------------------------------------

/-
  What printf prints for a format and no arguments. A conversion
  other than that to a percent sign would need an argument.
-/
def printed? : List UInt8 → Option (List UInt8)
| [] => some []
| byte :: rest =>
    if byte = 0 then some []
    else if byte = '%'.toUInt8 then
      match rest with
      | [] => none
      | next :: later =>
          if next = '%'.toUInt8 then
            (printed? later).map (next :: ·)
          else none
    else (printed? rest).map (byte :: ·)

------------------------------------------------------------
-- Bytes that Mean Themselves
------------------------------------------------------------

/- The bytes of none of the characters that no string may hold. -/
def Verbatim (bytes : List UInt8) : Prop :=
  ∀ stop ∈ Lexeme.stringStops, stop.toUInt8 ∉ bytes

/- What may stand in a string has bytes that mean themselves. -/
theorem verbatim_encode
    {text : List Char}
    (hText : ∀ ch ∈ text, Lexeme.isStringText ch = true) :
    Verbatim (Text.encode text) := by
  intro stop hStop hMember
  rcases List.mem_flatMap.mp hMember with ⟨ch, hCh, hByte⟩
  have hAscii :
      Lexeme.stringStops.all (·.toNat ≤ 127) = true := by
    decide
  have hSame :=
    Text.eq_of_mem_utf8EncodeChar
      (by simpa using List.all_eq_true.mp hAscii stop hStop)
      hByte
  have hFree := hText ch hCh
  rw [hSame] at hFree
  simp [Lexeme.isStringText, hStop] at hFree

variable {byte : UInt8}
variable {bytes rest : List UInt8}

/- The first byte is no stop, and the others mean themselves. -/
theorem Verbatim.of_cons
    (hVerbatim : Verbatim (byte :: bytes)) :
    (∀ stop ∈ Lexeme.stringStops, byte ≠ stop.toUInt8) ∧
      Verbatim bytes := by
  constructor
  · intro stop hStop hSame
    apply hVerbatim stop hStop
    rw [hSame]
    exact List.mem_cons_self
  · intro stop hStop hMember
    exact hVerbatim stop hStop (List.mem_cons_of_mem _ hMember)

/- A literal goes on over bytes that mean themselves. -/
theorem literal?_verbatim
    (hVerbatim : Verbatim bytes) :
    literal? (bytes ++ rest) =
      (literal? rest).map fun (body, after) =>
        (bytes ++ body, after) := by
  induction bytes with
  | nil => simp
  | cons byte bytes ih =>
      rcases hVerbatim.of_cons with ⟨hByte, hBytes⟩
      rw [List.cons_append, literal?.eq_def]
      dsimp only
      rw [if_neg (hByte '"' (by decide)),
        if_neg (hByte '\n' (by decide)),
        if_neg (hByte '\\' (by decide)), ih hBytes,
        Option.map_map]
      rfl

/- A literal that is closed is closed whatever follows. -/
theorem literal?_append
    {body after : List UInt8}
    (hLiteral : literal? bytes = some (body, after)) :
    literal? (bytes ++ rest) = some (body, after ++ rest) := by
  fun_induction literal? bytes generalizing body with
  | case1 => cases hLiteral
  | case2 more =>
      cases hLiteral
      rw [List.cons_append, literal?.eq_def]
      simp
  | case3 => cases hLiteral
  | case4 => cases hLiteral
  | case5 => cases hLiteral
  | case6 next later hNext hQuote hBreak ih =>
      rcases Option.map_eq_some_iff.mp hLiteral with
        ⟨⟨inner, final⟩, hInner, hSame⟩
      cases hSame
      rw [List.cons_append, literal?.eq_def]
      simp [hQuote, hBreak, hNext, ih hInner]
  | case7 byte later hQuote hBreak hEscape ih =>
      rcases Option.map_eq_some_iff.mp hLiteral with
        ⟨⟨inner, final⟩, hInner, hSame⟩
      cases hSame
      rw [List.cons_append, literal?.eq_def]
      simp [hQuote, hBreak, hEscape, ih hInner]

/- Bytes that mean themselves are decoded to themselves. -/
theorem decode?_verbatim
    (hVerbatim : Verbatim bytes) :
    decode? (bytes ++ rest) =
      (decode? rest).map (bytes ++ ·) := by
  induction bytes with
  | nil => simp
  | cons byte bytes ih =>
      rcases hVerbatim.of_cons with ⟨hByte, hBytes⟩
      rw [List.cons_append, decode?.eq_def]
      dsimp only
      rw [if_neg (hByte '\\' (by decide)), ih hBytes,
        Option.map_map]
      rfl

/- Bytes that mean themselves are printed as they are. -/
theorem printed?_verbatim
    (hVerbatim : Verbatim bytes) :
    printed? (bytes ++ rest) =
      (printed? rest).map (bytes ++ ·) := by
  induction bytes with
  | nil => simp
  | cons byte bytes ih =>
      rcases hVerbatim.of_cons with ⟨hByte, hBytes⟩
      have hZero : byte ≠ 0 := hByte '\x00' (by decide)
      rw [List.cons_append, printed?.eq_def]
      dsimp only
      rw [if_neg hZero, if_neg (hByte '%' (by decide)),
        ih hBytes, Option.map_map]
      rfl

end CText

end TeenyC
