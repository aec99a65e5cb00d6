import TeenyC.Proofs.Token.InBytes

/-
  A byte scanner never fails.

  Behind a gap each reading by bytes comes to what is read by
  characters: a lexeme is closed at its last byte, a fault is told
  at the same place. So a byte scanner answers every step as the
  scanner of characters does, from the first on.

  Key definitions include:
    * `Lexeme.closing?`
    * `Cursor.ReadInBytes`
    * `Scanner.inBytes`

  Key theorems include:
    * `Cursor.readToken?_inBytes`
    * `Cursor.Within.getToken?_inBytes`
    * `Scanner.performAll?_inBytes`
    * `ByteScanner.never_fails`
-/

namespace TeenyC

------------------------------------------------------------
-- Signs, Faults and Strings
------------------------------------------------------------

namespace Lexeme

/- The characters that begin a token, other than letters and digits. -/
def marks : List Char :=
  ['\x00', '\n', '"', '!', '=', '<', '>', '+', '-', '*', '/']

/- Each of them has one byte. -/
theorem toNat_le_of_mem_marks
    {ch : Char}
    (hMark : ch ∈ marks) :
    ch.toNat ≤ 127 := by
  have hAll : marks.all (·.toNat ≤ 127) = true := by
    decide
  exact of_decide_eq_true (List.all_eq_true.mp hAll ch hMark)

/- No operator begins with another character. -/
theorem operatorAt?_of_not_mem
    {first : Char}
    (hMark : first ∉ marks)
    (rest : List Char) :
    operatorAt? (first :: rest) = none := by
  rw [operatorAt?, List.find?_eq_none]
  intro sign _ hPrefix
  rw [List.isPrefixOf_iff_prefix] at hPrefix
  apply hMark
  cases sign <;>
    · rw [← (List.cons_prefix_cons.mp hPrefix).1]
      decide

/- Any other character begins no token. -/
theorem read_unknown
    {first : Char}
    (hMark : first ∉ marks)
    (hDigit : first.isDigit = false)
    (hAlpha : first.isAlpha = false)
    (rest : List Char) :
    read (first :: rest) =
      .fault (.unknown first) [] (first :: rest) := by
  have hOther {mark : Char} (hMember : mark ∈ marks) :
      first ≠ mark := fun hSame => hMark (hSame ▸ hMember)
  rw [read, if_neg (hOther (by decide)),
    if_neg (hOther (by decide)), if_neg (hOther (by decide)),
    hDigit, hAlpha]
  change readSign first rest = _
  rw [readSign, operatorAt?_of_not_mem hMark]
  exact if_neg (hOther (by decide))

/- An exclamation mark is no token without an equals sign. -/
theorem read_loneBang
    {rest : List Char}
    (hNone : rest.head? ≠ some '=') :
    read ('!' :: rest) =
      .fault (.loneBang (rest.headD '\x00')) [] ('!' :: rest) := by
  cases rest with
  | nil => rfl
  | cons ch more =>
      have hSign :
          operatorAt? ('!' :: ch :: more) =
            bif '=' == ch && true then some .notEqual
            else none :=
        rfl
      have hOther : ('=' == ch && true) = false := by
        rw [Bool.and_true, beq_eq_false_iff_ne]
        rintro rfl
        exact hNone rfl
      change readSign '!' (ch :: more) = _
      rw [readSign, hSign, hOther]
      rfl

/- An operator of one sign is alone unless an equals sign follows. -/
theorem read_single
    {sign : Operator}
    {rest : List Char}
    (hSingle : sign.spelling.toList.length = 1)
    (hNone : rest.head? ≠ some '=') :
    read (sign.spelling.toList ++ rest) =
      .lexeme (.operator sign) sign.spelling.toList rest := by
  apply read_operator
  intro longer ch hHead hLonger
  apply hNone
  rw [Option.mem_def.mp hHead]
  have hPair :
      longer.spelling.toList.length = 2 →
        longer.spelling.toList.getLast? = some '=' := by
    cases longer <;> decide
  have hLast :=
    hPair (by rw [hLonger, List.length_append, hSingle]; rfl)
  rw [hLonger, List.getLast?_concat] at hLast
  exact hLast

/- What keeps a string from being closed behind its text. -/
def closing? : List Char → Option LexCause
| [] => some .unterminatedString
| ch :: _ =>
    if ch = '"' then none
    else if ch = '\x00' then some .unterminatedString
    else some (.illegalInString ch)

/- A string is closed by a quote. -/
theorem closing?_eq_none_iff
    {rest : List Char} :
    closing? rest = none ↔ rest.head? = some '"' := by
  unfold closing?
  split
  · simp
  · next ch more =>
    by_cases hQuote : ch = '"'
    · simp [hQuote]
    · by_cases hNul : ch = '\x00' <;> simp [hQuote, hNul]

/- A string is read up to what closes it, or is at fault. -/
theorem readString_eq (source : List Char) :
    readString source =
      match closing? (source.dropWhile isStringText) with
      | none =>
          .lexeme .string (source.takeWhile isStringText)
            (source.dropWhile isStringText).tail
      | some cause =>
          .fault cause ('"' :: source.takeWhile isStringText)
            (source.dropWhile isStringText) := by
  unfold readString closing?
  cases source.dropWhile isStringText with
  | nil => rfl
  | cons ch more =>
      by_cases hQuote : ch = '"'
      · simp [hQuote]
      · by_cases hNul : ch = '\x00' <;> simp [hQuote, hNul]

end Lexeme

/- From 128 on no byte begins a token. -/
theorem ByteScanner.readToken?_of_large
    {s : ByteScanner}
    (hLarge : 128 ≤ s.current.toNat) :
    s.readToken? =
      some
        (s.fail (.unknown (s.charAt s.position)) s.position) := by
  have hLetter : 128 ≤ s.letter.toNat := hLarge
  unfold readToken?
  dsimp only
  split
  case h_12 =>
    have hOther : s.letter.isAlphanum = false := by
      rw [Bool.eq_false_iff]
      intro hSome
      have hSmall := Lexeme.toNat_le_of_isAlphanum hSome
      omega
    rcases Bool.or_eq_false_iff.mp hOther with ⟨hAlpha, hDigit⟩
    rw [hDigit, hAlpha]
    rfl
  all_goals
    next hHere =>
    rw [hHere] at hLetter
    exact absurd hLetter (by decide)

------------------------------------------------------------
-- Tokens
------------------------------------------------------------

namespace Cursor

variable {buffer : String}
variable {finished : Bool}
variable {c start last : Cursor}
variable {ch : Char}
variable {kind : Kind}
variable {text rest : List Char}

/- A reading by bytes comes to what is read by characters. -/
def ReadInBytes
    (buffer : String)
    (finished : Bool)
    (start : Cursor)
    (result? : Option (Item × ByteScanner)) : Prop :=
  ∃ item next,
    result? = some (item, next.inBytes buffer finished) ∧
      start.TokenRead (item, next)

/- What closes a string, or does not, is told by its byte. -/
theorem closing_inBytes
    (hEntered : c.entered = [])
    (hEnds : Lexeme.Ends Lexeme.isStringText c.ahead) :
    (if c.current = '"'.toUInt8 then
      some (none, c.inBytes buffer finished)
    else if c.current = 0 then
      some (some .unterminatedString, c.inBytes buffer finished)
    else
      some
        (some (.illegalInString c.letter),
          c.inBytes buffer finished)) =
      some (Lexeme.closing? c.ahead, c.inBytes buffer finished) := by
  cases hAhead : c.ahead with
  | nil =>
      rw [current_of_ended hEntered hAhead]
      rfl
  | cons ch rest =>
      have hNarrow :=
        Lexeme.toNat_le_of_not_isStringText
          (hEnds ch (by rw [hAhead]; rfl))
      rw [current_of_narrow hEntered hAhead hNarrow,
        letter_of_narrow hEntered hAhead hNarrow, Lexeme.closing?]
      change
        (if ch.toUInt8 = '"'.toUInt8 then _
          else if ch.toUInt8 = '\x00'.toUInt8 then _ else _) = _
      simp only [
        Text.toUInt8_inj_of_le hNarrow
          (by decide : '"'.toNat ≤ 127),
        Text.toUInt8_inj_of_le hNarrow
          (by decide : '\x00'.toNat ≤ 127)]
      split
      · rfl
      · split <;> rfl

/- A string goes up to what closes it, or to what is at fault. -/
theorem Within.closeString?_inBytes
    (hWithin : c.Within buffer.toList)
    (hEntered : c.entered = []) :
    (c.inBytes buffer finished).closeString? =
      some
        (Lexeme.closing? (c.ahead.dropWhile Lexeme.isStringText),
          (c.pass (c.ahead.takeWhile Lexeme.isStringText)
            (c.ahead.dropWhile Lexeme.isStringText)).inBytes buffer
              finished) := by
  rw [ByteScanner.closeString?,
    hWithin.advanceWhile_follows hEntered follows_isStringText]
  exact
    closing_inBytes rfl
      (Lexeme.ends_dropWhile Lexeme.isStringText c.ahead)

/- Digits are ahead if the letter is one. -/
theorem isDigit_letter
    (hEntered : c.entered = []) :
    c.letter.isDigit =
      !(c.ahead.takeWhile Char.isDigit).isEmpty := by
  cases hAhead : c.ahead with
  | nil =>
      rw [letter_of_ended hEntered hAhead]
      rfl
  | cons ch rest =>
      rw [test_letter (fun _ => Lexeme.toNat_le_of_isDigit) hEntered
        hAhead, List.takeWhile_cons]
      cases ch.isDigit <;> rfl

/- A mark is the next byte where it is the next character. -/
theorem Within.peek_eq_iff
    (hWithin : last.Within buffer.toList)
    (hLast : last.advance = start.pass text rest)
    (mark : Char)
    (hNarrow : mark.toNat ≤ 127)
    (hMark : mark ≠ '\x00') :
    (last.inBytes buffer finished).peek = mark.toUInt8 ↔
      rest.head? = some mark := by
  rw [hWithin.peek_inBytes, peek,
    hWithin.advance.current_eq_iff mark hNarrow hMark, hLast]
  exact and_iff_right rfl

/- The end of input is closed where it is. -/
theorem Within.close?_finish
    (hStart : start.Within buffer.toList)
    (hRead : Lexeme.read start.ahead = .finish) :
    ReadInBytes buffer finished start
      ((start.inBytes buffer finished).close? .eof start.position
        start.line) := by
  refine ⟨_, _, ?_, .finish hRead⟩
  rw [← hStart.advance_inBytes]
  rfl

/- A fault that is noticed at once is told where it is. -/
theorem fault_here
    (hEntered : start.entered = [])
    {cause : LexCause}
    (hRead :
      Lexeme.read start.ahead = .fault cause [] start.ahead) :
    ReadInBytes buffer finished start
      (some
        ((start.inBytes buffer finished).fail cause
          start.position)) := by
  have hToken := TokenRead.fault hRead (List.nil_append _)
  have hPlace :
      faultPosition start start cause = start.position := by
    cases cause <;> rfl
  rw [pass_nil hEntered rfl, hPlace] at hToken
  exact ⟨_, _, rfl, hToken⟩

/- What keeps a string from being closed is named by its place. -/
theorem faultPosition_closing
    {cause : LexCause}
    (hClosing : Lexeme.closing? rest = some cause)
    (start stop : Cursor) :
    faultPosition start stop cause = stop.position := by
  unfold Lexeme.closing? at hClosing
  split at hClosing
  · cases hClosing
    rfl
  · split at hClosing
    · cases hClosing
    · split at hClosing <;>
        · cases hClosing
          rfl

section

variable (hStart : start.Within buffer.toList)
variable (hEntered : start.entered = [])

include hStart hEntered

/- The text up to the last character of a lexeme is the lexeme. -/
theorem slice_through
    (hWhole : text ++ rest = start.ahead)
    (hSome : text ≠ [])
    (hLast : last.advance = start.pass text rest) :
    Text.slice? buffer start.position (last.position + 1) =
      some (String.ofList text) := by
  have hPlace := congrArg Cursor.position hLast
  rw [position_advance] at hPlace
  rw [hPlace]
  apply hStart.slice_eq hEntered hWhole
  rw [← hWhole]
  simp [hSome]

/- A lexeme is closed at its last character. -/
theorem close?_inBytes
    (hRead : Lexeme.read start.ahead = .lexeme kind text rest)
    (hPlain : kind ≠ .string)
    (hWithin : last.Within buffer.toList)
    (hLast : last.advance = start.pass text rest) :
    ReadInBytes buffer finished start
      ((last.inBytes buffer finished).close? kind start.position
        start.line) := by
  have hCovers := Lexeme.read_covers start.ahead
  rw [hRead] at hCovers
  cases hCovers with
  | lexeme hKind hSome hWhole =>
      have hToken := TokenRead.lexeme hRead hKind hWhole
      rw [Kind.spell_of_ne_string hPlain] at hSome hWhole hToken
      refine ⟨_, _, ?_, hToken⟩
      rw [ByteScanner.close?, if_neg hKind]
      change
        (Text.slice? buffer start.position (last.position + 1) >>=
          _) = _
      rw [slice_through hStart hEntered hWhole hSome hLast,
        ← hLast, ← hWithin.advance_inBytes]
      rfl

/- A lexeme of two signs is closed at the second one. -/
theorem close?_second
    (hAhead : start.ahead = ch :: '=' :: rest)
    (hNarrow : ch.toNat ≤ 127)
    (hRead :
      Lexeme.read start.ahead = .lexeme kind [ch, '='] rest)
    (hPlain : kind ≠ .string) :
    ReadInBytes buffer finished start
      ((start.inBytes buffer finished).advance.close? kind
        start.position start.line) := by
  have hOver :
      start.advance.advance = start.pass [ch, '='] rest := by
    rw [advance_of_narrow hEntered hAhead hNarrow,
      advance_of_narrow rfl rfl (by decide), pass_pass]
    rfl
  rw [hStart.advance_inBytes]
  exact
    close?_inBytes hStart hEntered hRead hPlain hStart.advance hOver

/- An operator is closed at its first or its second sign. -/
theorem readOperator?_inBytes
    {single double : Operator}
    (hAhead : start.ahead = ch :: rest)
    (hNarrow : ch.toNat ≤ 127)
    (hSingle :
      rest.head? ≠ some '=' →
        Lexeme.read start.ahead =
          .lexeme (.operator single) [ch] rest)
    (hDouble :
      ∀ more,
        rest = '=' :: more →
          Lexeme.read start.ahead =
            .lexeme (.operator double) [ch, '='] more) :
    ReadInBytes buffer finished start
      ((start.inBytes buffer finished).readOperator? single double
        start.position start.line) := by
  have hMove := advance_of_narrow hEntered hAhead hNarrow
  unfold ByteScanner.readOperator?
  split
  · next hHere =>
    rw [hStart.peek_eq_iff hMove '=' (by decide) (by decide),
      List.head?_eq_some_iff] at hHere
    rcases hHere with ⟨more, hMore⟩
    have hBoth : start.ahead = ch :: '=' :: more := by
      rw [hAhead, hMore]
    exact
      close?_second hStart hEntered hBoth hNarrow
        (hDouble more hMore) (by simp)
  · next hOther =>
    rw [hStart.peek_eq_iff hMove '=' (by decide) (by decide)]
      at hOther
    exact
      close?_inBytes hStart hEntered (hSingle hOther) (by simp)
        hStart hMove

/- A word is closed at its last letter or digit. -/
theorem readWord?_inBytes
    (hAhead : start.ahead = ch :: rest)
    (hAlpha : ch.isAlpha = true) :
    ReadInBytes buffer finished start
      ((start.inBytes buffer finished).readWord? start.position
        start.line) := by
  have hFirst : ch.isAlphanum = true := by
    simp [Char.isAlphanum, hAlpha]
  have hRead := Lexeme.read_of_isAlpha hAlpha rest
  rw [Lexeme.readWord, List.takeWhile_cons_of_pos hFirst,
    List.dropWhile_cons_of_pos hFirst, ← hAhead] at hRead
  rcases
      hStart.advanceWhile_next finished
        (p := Char.isAlphanum) hEntered hAhead
        (Lexeme.toNat_le_of_isAlphanum hFirst)
        (fun _ => Lexeme.toNat_le_of_isAlphanum) rfl with
    ⟨last, hLoop, hWithin, hLast⟩
  have hSlice :=
    slice_through hStart hEntered
      (by rw [hAhead]; simp) (List.cons_ne_nil _ _) hLast
  rw [ByteScanner.readWord?, hLoop]
  change
    ReadInBytes buffer finished start
      (Text.slice? buffer start.position (last.position + 1) >>= _)
  rw [hSlice]
  exact
    close?_inBytes hStart hEntered hRead (Kind.ofWord_ne_string _)
      hWithin hLast

/- A fraction is closed at its last digit, or is at fault. -/
theorem readFraction?_inBytes
    {whole more : List Char}
    (hAhead : start.ahead = whole ++ '.' :: more)
    (hRead :
      Lexeme.read start.ahead =
        if (more.takeWhile Char.isDigit).isEmpty then
          .fault
            (.bareFraction (String.ofList (whole ++ ['.'])))
            whole ('.' :: more)
        else
          .lexeme .number
            (whole ++ '.' :: more.takeWhile Char.isDigit)
            (more.dropWhile Char.isDigit)) :
    ReadInBytes buffer finished start
      (((start.pass whole ('.' :: more)).inBytes buffer
        finished).readFraction? start.position start.line) := by
  have hPoint :
      (start.pass whole ('.' :: more)).Within buffer.toList :=
    hStart.pass hEntered hAhead.symm
  have hMove :
      (start.pass whole ('.' :: more)).advance =
        start.pass (whole ++ ['.']) more := by
    rw [advance_of_narrow rfl rfl (by decide), pass_pass]
  unfold ByteScanner.readFraction?
  rw [hPoint.nextLetter_inBytes, hMove,
    isDigit_letter (c := start.pass (whole ++ ['.']) more) rfl]
  change
    ReadInBytes buffer finished start
      (if (!(more.takeWhile Char.isDigit).isEmpty) = true then _
      else _)
  cases hNone : (more.takeWhile Char.isDigit).isEmpty with
  | true =>
      rw [hNone] at hRead
      have hCut : (whole ++ ['.']) ++ more = start.ahead := by
        rw [hAhead]
        simp
      have hSlice :=
        slice_through hStart hEntered hCut (by simp) hMove
      refine ⟨_, _, ?_, .fault hRead hAhead.symm⟩
      change
        (Text.slice? buffer start.position
          ((start.pass whole ('.' :: more)).position + 1) >>= _) = _
      rw [hSlice]
      rfl
  | false =>
      rw [hNone] at hRead
      rcases
          hPoint.advanceWhile_next finished
            (p := Char.isDigit) rfl rfl (by decide)
            (fun _ => Lexeme.toNat_le_of_isDigit) rfl with
        ⟨last, hLoop, hWithin, hLast⟩
      rw [pass_pass] at hLast
      change
        ReadInBytes buffer finished start
          (ByteScanner.advanceWhile _ _ >>= _)
      rw [hLoop]
      exact
        close?_inBytes hStart hEntered hRead (by simp) hWithin hLast

/- A number is closed at its last digit, or is at fault. -/
theorem readNumber?_inBytes
    (hAhead : start.ahead = ch :: rest)
    (hDigit : ch.isDigit = true) :
    ReadInBytes buffer finished start
      ((start.inBytes buffer finished).readNumber? start.position
        start.line) := by
  have hRead := Lexeme.read_of_isDigit hDigit rest
  rw [← hAhead, Lexeme.readNumber, hAhead,
    List.takeWhile_cons_of_pos hDigit,
    List.dropWhile_cons_of_pos hDigit, ← hAhead] at hRead
  rcases
      hStart.advanceWhile_next finished
        (p := Char.isDigit) hEntered hAhead
        (Lexeme.toNat_le_of_isDigit hDigit)
        (fun _ => Lexeme.toNat_le_of_isDigit) rfl with
    ⟨whole, hLoop, hWithin, hWhole⟩
  have hPoint :
      (whole.inBytes buffer finished).peek = '.'.toUInt8 ↔
        (rest.dropWhile Char.isDigit).head? = some '.' :=
    hWithin.peek_eq_iff hWhole '.' (by decide) (by decide)
  rw [ByteScanner.readNumber?, hLoop]
  change
    ReadInBytes buffer finished start
      (if (whole.inBytes buffer finished).peek = _ then _ else _)
  split
  · next hHere =>
    rcases List.head?_eq_some_iff.mp (hPoint.mp hHere) with
      ⟨more, hMore⟩
    rw [hWithin.advance_inBytes, hWhole]
    rw [hMore] at hRead ⊢
    apply readFraction?_inBytes hStart hEntered _ hRead
    rw [hAhead, List.cons_append, ← hMore,
      List.takeWhile_append_dropWhile]
  · next hOther =>
    apply close?_inBytes hStart hEntered ?_ (by simp) hWithin hWhole
    rw [hRead]
    split
    · next more hMore =>
      exact
        absurd (hPoint.mpr (congrArg List.head? hMore)) hOther
    · rfl

/- A string is closed behind its quote, or is at fault. -/
theorem readString?_inBytes
    (hAhead : start.ahead = '"' :: rest) :
    ReadInBytes buffer finished start
      ((start.inBytes buffer finished).readString? start.line) := by
  have hOpen : start.advance = start.pass ['"'] rest :=
    advance_of_narrow hEntered hAhead (by decide)
  have hOpened : (start.pass ['"'] rest).Within buffer.toList :=
    hStart.pass hEntered hAhead.symm
  have hRead :
      Lexeme.read start.ahead = Lexeme.readString rest := by
    rw [hAhead]
    rfl
  have hWhole :=
    List.takeWhile_append_dropWhile
      (p := Lexeme.isStringText) (l := rest)
  have hClose :
      ((start.pass ['"'] rest).inBytes buffer
          finished).closeString? =
        some
          (Lexeme.closing? (rest.dropWhile Lexeme.isStringText),
            ((start.pass ['"'] rest).pass
              (rest.takeWhile Lexeme.isStringText)
              (rest.dropWhile Lexeme.isStringText)).inBytes buffer
                finished) :=
    hOpened.closeString?_inBytes rfl
  rw [Lexeme.readString_eq] at hRead
  rw [ByteScanner.readString?, hStart.advance_inBytes, hOpen]
  change ReadInBytes buffer finished start (_ >>= _)
  rw [hClose]
  generalize rest.takeWhile Lexeme.isStringText = text
    at hRead hWhole ⊢
  generalize rest.dropWhile Lexeme.isStringText = more
    at hRead hWhole ⊢
  have hCut : '"' :: text ++ more = start.ahead := by
    rw [hAhead, ← hWhole]
    rfl
  have hStop := hOpened.pass rfl hWhole
  cases hClosing : Lexeme.closing? more with
  | some cause =>
      rw [hClosing] at hRead
      have hPlace :
          faultPosition start (start.pass ('"' :: text) more)
              cause =
            (start.pass ('"' :: text) more).position :=
        faultPosition_closing hClosing _ _
      refine ⟨_, _, ?_, .fault hRead hCut⟩
      rw [hPlace, pass_pass]
      rfl
  | none =>
      rw [hClosing] at hRead
      rcases
          List.head?_eq_some_iff.mp
            (Lexeme.closing?_eq_none_iff.mp hClosing) with
        ⟨behind, hBehind⟩
      have hSlice :=
        hOpened.slice_eq rfl hWhole
          (by simp [pass, ← hWhole, hBehind])
      have hSpell :
          Kind.string.spell text ++ more.tail = start.ahead := by
        rw [← hCut, hBehind]
        simp [Kind.spell]
      refine ⟨_, _, ?_, .lexeme hRead (by simp) hSpell⟩
      change
        (Text.slice? buffer (start.pass ['"'] rest).position
          ((start.pass ['"'] rest).position +
            Text.byteLength text) >>= _) = _
      rw [hSlice]
      change
        some (_, ByteScanner.advance (Cursor.inBytes _ _ _)) = _
      rw [hStop.advance_inBytes,
        advance_of_narrow rfl hBehind (by decide), pass_pass,
        pass_pass, hBehind]
      rfl

/- A lone exclamation mark is at fault. -/
theorem readBang?_inBytes
    (hAhead : start.ahead = '!' :: rest) :
    ReadInBytes buffer finished start
      (if (start.inBytes buffer finished).peek = '='.toUInt8 then
        (start.inBytes buffer finished).advance.close?
          (.operator .notEqual) start.position start.line
      else
        some
          ((start.inBytes buffer finished).fail
            (.loneBang
              ((start.inBytes buffer finished).charAt
                (start.position + 1)))
            start.position)) := by
  have hMove := advance_of_narrow hEntered hAhead (by decide)
  split
  · next hHere =>
    rw [hStart.peek_eq_iff hMove '=' (by decide) (by decide),
      List.head?_eq_some_iff] at hHere
    rcases hHere with ⟨more, hMore⟩
    have hBoth : start.ahead = '!' :: '=' :: more := by
      rw [hAhead, hMore]
    exact
      close?_second hStart hEntered hBoth (by decide)
        (by rw [hBoth]; rfl) (by simp)
  · next hOther =>
    rw [hStart.peek_eq_iff hMove '=' (by decide) (by decide)]
      at hOther
    have hChar :=
      hStart.advance.charAt_inBytes
        (s := start.inBytes buffer finished) rfl
    rw [position_advance, hMove] at hChar
    rw [hChar.trans (if_pos rfl)]
    apply fault_here hEntered
    rw [hAhead]
    exact Lexeme.read_loneBang hOther

/- What begins no token is at fault. -/
theorem readUnknown?_inBytes
    (hAhead : start.ahead = ch :: rest)
    (hMark : ch ∉ Lexeme.marks)
    (hDigit : ch.isDigit = false)
    (hAlpha : ch.isAlpha = false) :
    ReadInBytes buffer finished start
      (some
        ((start.inBytes buffer finished).fail
          (.unknown
            ((start.inBytes buffer finished).charAt
              start.position))
          start.position)) := by
  have hChar :=
    hStart.charAt_inBytes
      (s := start.inBytes buffer finished) rfl
  rw [if_pos hEntered, hAhead] at hChar
  rw [hChar]
  apply fault_here hEntered
  rw [hAhead]
  exact Lexeme.read_unknown hMark hDigit hAlpha rest

/- What stands at a cursor behind a gap is read. -/
theorem readToken?_inBytes
    (finished : Bool) :
    ReadInBytes buffer finished start
      (start.inBytes buffer finished).readToken? := by
  cases hAhead : start.ahead with
  | nil =>
      have hLetter :
          (start.inBytes buffer finished).letter = '\x00' :=
        letter_of_ended hEntered hAhead
      rw [ByteScanner.readToken?, hLetter]
      exact hStart.close?_finish (by rw [hAhead]; rfl)
  | cons ch rest =>
      by_cases hNarrow : ch.toNat ≤ 127
      · have hLetter :
            (start.inBytes buffer finished).letter = ch :=
          letter_of_narrow hEntered hAhead hNarrow
        have hSign
            {kind : Kind}
            (hRead :
              Lexeme.read start.ahead = .lexeme kind [ch] rest)
            (hKind : kind ≠ .string) :
            ReadInBytes buffer finished start
              ((start.inBytes buffer finished).close? kind
                start.position start.line) :=
          close?_inBytes hStart hEntered hRead hKind hStart
            (advance_of_narrow hEntered hAhead hNarrow)
        have hSigns
            {single double : Operator}
            (hSingle : single.spelling.toList = [ch])
            (hDouble :
              ∀ more,
                Lexeme.read (ch :: '=' :: more) =
                  .lexeme (.operator double) [ch, '='] more) :
            ReadInBytes buffer finished start
              ((start.inBytes buffer finished).readOperator? single
                double start.position start.line) := by
          apply readOperator?_inBytes hStart hEntered hAhead hNarrow
          · intro hNone
            have hLength : single.spelling.toList.length = 1 :=
              congrArg List.length hSingle
            have hRead := Lexeme.read_single hLength hNone
            rw [hSingle] at hRead
            rw [hAhead]
            exact hRead
          · intro more hMore
            rw [hAhead, hMore]
            exact hDouble more
        rw [ByteScanner.readToken?, hLetter]
        split
        · exact hStart.close?_finish (by rw [hAhead]; rfl)
        · exact hSign (by rw [hAhead]; rfl) (by simp)
        · exact hSign (by rw [hAhead]; rfl) (by simp)
        · exact hSign (by rw [hAhead]; rfl) (by simp)
        · exact hSign (by rw [hAhead]; rfl) (by simp)
        · exact hSigns rfl fun _ => rfl
        · exact hSigns rfl fun _ => rfl
        · exact hSigns rfl fun _ => rfl
        · exact readBang?_inBytes hStart hEntered hAhead
        · exact readString?_inBytes hStart hEntered hAhead
        · exact hSign (by rw [hAhead]; rfl) (by simp)
        · have hMark : ch ∉ Lexeme.marks := by
            simp only [Lexeme.marks, List.mem_cons,
              List.not_mem_nil]
            grind
          split
          · next hDigit =>
            exact readNumber?_inBytes hStart hEntered hAhead hDigit
          · next hDigit =>
            split
            · next hAlpha =>
              exact readWord?_inBytes hStart hEntered hAhead hAlpha
            · next hAlpha =>
              exact
                readUnknown?_inBytes hStart hEntered hAhead hMark
                  (Bool.eq_false_iff.mpr hDigit)
                  (Bool.eq_false_iff.mpr hAlpha)
      · have hLarge := le_current_of_wide hEntered hAhead hNarrow
        have hMark : ch ∉ Lexeme.marks :=
          fun hMember =>
            hNarrow (Lexeme.toNat_le_of_mem_marks hMember)
        have hOther : ch.isAlphanum = false := by
          rw [Bool.eq_false_iff]
          exact fun hSome =>
            hNarrow (Lexeme.toNat_le_of_isAlphanum hSome)
        rcases Bool.or_eq_false_iff.mp hOther with
          ⟨hAlpha, hDigit⟩
        rw [ByteScanner.readToken?_of_large hLarge]
        exact
          readUnknown?_inBytes hStart hEntered hAhead hMark hDigit
            hAlpha

end

/- A token is read by bytes as it is read by characters. -/
theorem Within.getToken?_inBytes
    (hWithin : c.Within buffer.toList) :
    (c.inBytes buffer finished).getToken? =
      some
        (c.nextToken.1, c.nextToken.2.inBytes buffer finished) := by
  have hParts :
      (c.inBytes buffer finished).getToken? =
        (((c.inBytes buffer finished).skipBlanks? >>=
          ByteScanner.skipComment?) >>= ByteScanner.readToken?) :=
    (Option.bind_assoc _ _ _).symm
  rw [hParts]
  by_cases hEntered : c.entered = []
  · rcases
        readToken?_inBytes (hWithin.skipGap hEntered)
          (entered_skipGap c) finished with
      ⟨item, next, hResult, hToken⟩
    rw [hWithin.skipGap_inBytes hEntered,
      (tokenRead_nextToken hEntered).unique hToken]
    exact hResult
  · have hLarge := hWithin.le_current_of_entered hEntered
    have hChar :=
      hWithin.charAt_inBytes (s := c.inBytes buffer finished) rfl
    rw [hWithin.skipGap_of_entered hEntered,
      nextToken_entered hEntered]
    change ByteScanner.readToken? _ = _
    rw [ByteScanner.readToken?_of_large hLarge]
    change
      some
        (ByteScanner.fail _
          (.unknown (ByteScanner.charAt _ c.position)) _) = _
    rw [hChar.trans (if_neg hEntered)]
    rfl

end Cursor

------------------------------------------------------------
-- Steps
------------------------------------------------------------

namespace Scanner

/- A scanner as a place in the bytes of a text. -/
def inBytes
    (s : Scanner)
    (buffer : String) : ByteScanner :=
  s.cursor.inBytes buffer s.finished

variable {buffer : String}
variable {s : Scanner}

/- Every step is the same by bytes. -/
theorem perform?_inBytes
    (hWithin : s.cursor.Within buffer.toList)
    (step : Step) :
    (s.inBytes buffer).perform? step =
      some
        ((s.perform step).1, (s.perform step).2.inBytes buffer) := by
  cases step with
  | advance =>
      change some (Answer.moved, ByteScanner.advance _) = _
      rw [inBytes, hWithin.advance_inBytes]
      rfl
  | peek =>
      change some (Answer.byte (ByteScanner.peek _), _) = _
      rw [inBytes, hWithin.peek_inBytes]
      rfl
  | getToken =>
      change (ByteScanner.getToken? _ >>= _) = _
      rw [inBytes, hWithin.getToken?_inBytes]
      rfl
  | next =>
      rw [perform_next]
      change (if s.finished = true then _ else _) = _
      split
      · rfl
      · rw [inBytes, hWithin.getToken?_inBytes]
        rfl

/- So are all steps together. -/
theorem performAll?_inBytes
    (hWithin : s.cursor.Within buffer.toList)
    (steps : List Step) :
    (s.inBytes buffer).performAll? steps =
      some
        ((s.performAll steps).1,
          (s.performAll steps).2.inBytes buffer) := by
  induction steps generalizing s with
  | nil => rfl
  | cons step steps ih =>
      rw [ByteScanner.performAll?, perform?_inBytes hWithin]
      change (ByteScanner.performAll? _ steps >>= _) = _
      rw [ih (within_perform hWithin step)]
      rfl

end Scanner

/-
  A scanner that goes byte by byte fails on no text and after no
  steps: each of its loops ends, and each slice is cut in order and
  between characters. It answers as the scanner of characters does,
  it stands at the same place, and it holds the byte of that place.
-/
theorem ByteScanner.never_fails
    (source : String)
    (steps : List Scanner.Step) :
    ∃ first last,
      start? source = some first ∧
        first.performAll? steps =
            some (((Scanner.start source).performAll steps).1, last) ∧
          last =
              ((Scanner.start source).performAll steps).2.inBytes
                (source.push '\n') ∧
            last.current = last.byteAt last.position := by
  have hBuffer :
      (source.push '\n').toList = source.toList ++ ['\n'] :=
    String.toList_push '\n'
  have hStart :
      (Scanner.start source).cursor.Within
        (source.push '\n').toList := by
    rw [hBuffer]
    exact Cursor.within_start source
  have hFirst :
      start? source =
        some ((Scanner.start source).inBytes (source.push '\n')) := by
    have hSome : Text.encode (source.push '\n').toList ≠ [] := by
      rw [hBuffer, Text.encode_append]
      exact List.append_ne_nil_of_right_ne_nil _ (by decide)
    rcases List.exists_cons_of_ne_nil hSome with
      ⟨byte, later, hBytes⟩
    have hByte :
        (Scanner.start source).cursor.current = byte := by
      rw [hStart.current_eq, Text.byteAt, hBytes]
      rfl
    unfold start?
    dsimp only
    rw [hBytes]
    change
      some ({ buffer := source.push '\n'
              position := 0
              current := byte
              line := 1
              finished := false } : ByteScanner) = _
    rw [← hByte]
    rfl
  refine
    ⟨_, _, hFirst, Scanner.performAll?_inBytes hStart steps, rfl,
      ?_⟩
  exact (Scanner.within_performAll hStart steps).current_eq

end TeenyC
