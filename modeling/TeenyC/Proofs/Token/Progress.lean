import TeenyC.Proofs.Token.Steps

/-
  The progress of a scanner.

  No step moves a cursor back, and a token moves it on by as many
  bytes as its text has, and by one at least. So a text has few
  items: each before the last takes a byte of the text. Once the
  last item has been told a request tells nothing and moves nothing,
  whatever is done by hand between the requests.

  Key definitions include:
    * `Item.text`
    * `Scanner.Answer.textBytes`
    * `Scanner.Delivers`

  Key theorems include:
    * `Cursor.position_nextToken`
    * `Cursor.position_lt_of_token`
    * `Scanner.position_performAll`
    * `Scanner.finished_performAll`
    * `Scanner.length_drain_le`
    * `Scanner.exists_delivers`
    * `Scanner.Delivers.performAll_next`
    * `Scanner.progress_of_steps`
-/

namespace TeenyC

------------------------------------------------------------
-- Texts of Items
------------------------------------------------------------

/- The text of an item is that of its token. -/
def Item.text : Item → String
| .ok token => token.text
| .error _ => ""

/- The text of an answer is that of the item it tells. -/
def Scanner.Answer.text : Scanner.Answer → String
| .item told => Item.text told
| .moved | .byte _ | .ended => ""

/- The bytes of the texts of all answers. -/
def Scanner.Answer.textBytes : List Scanner.Answer → Nat
| [] => 0
| answer :: later => answer.text.utf8ByteSize + textBytes later

/- A token is written with no fewer bytes than its text has. -/
theorem Kind.byteLength_le_spell
    (kind : Kind)
    (text : List Char) :
    Text.byteLength text ≤ Text.byteLength (kind.spell text) := by
  by_cases hKind : kind = .string
  · rw [hKind]
    simp only [spell, List.cons_append, Text.byteLength_cons,
      Text.byteLength_append]
    omega
  · rw [spell_of_ne_string hKind]

------------------------------------------------------------
-- Cursors Move On
------------------------------------------------------------

/- A byte-wise move is by one byte. -/
theorem Cursor.position_advance (c : Cursor) :
    c.advance.position = c.position + 1 := by
  unfold advance
  split <;> rfl

/- Behind a token the cursor is further on by its text at least. -/
theorem Cursor.TokenRead.position_le
    {start : Cursor}
    {result : Item × Cursor}
    (hRead : start.TokenRead result) :
    start.position + (Item.text result.1).utf8ByteSize ≤
      result.2.position := by
  cases hRead with
  | finish =>
      rw [position_advance]
      exact Nat.le_succ _
  | @lexeme kind text rest =>
      have hText := kind.byteLength_le_spell text
      change
        start.position + (String.ofList text).utf8ByteSize ≤
          start.position + Text.byteLength (kind.spell text)
      rw [← Text.byteLength_toList, String.toList_ofList]
      exact Nat.add_le_add_left hText _
  | fault => exact Nat.le_add_right _ _

/- So a reading moves no cursor back, and a token moves it on. -/
theorem Cursor.position_nextToken (c : Cursor) :
    c.position + (Item.text c.nextToken.1).utf8ByteSize ≤
      c.nextToken.2.position := by
  by_cases hEntered : c.entered = []
  · have hRead := (tokenRead_nextToken hEntered).position_le
    have hGap := position_le_skipGap c
    omega
  · rw [nextToken_entered hEntered]
    exact Nat.le_refl _

/- Any token moves the cursor on, also one whose text is empty. -/
theorem Cursor.position_lt_of_token
    {last next : Cursor}
    {token : Token}
    (hToken : last.nextToken = (.ok token, next)) :
    last.position < next.position := by
  have hEntered : last.entered = [] := by
    by_contra hInside
    rw [nextToken_entered hInside] at hToken
    cases hToken
  have hGap := position_le_skipGap last
  have hRead := tokenRead_nextToken hEntered
  rw [hToken] at hRead
  cases hRead with
  | finish =>
      rw [position_advance]
      exact Nat.lt_succ_of_le hGap
  | @lexeme kind text rest hRead =>
      have hCovers := Lexeme.read_covers last.skipGap.ahead
      rw [hRead] at hCovers
      cases hCovers with
      | lexeme _ hSome _ =>
          have hPos := Text.byteLength_pos hSome
          dsimp only [pass]
          omega

namespace Scanner

variable {s later : Scanner}
variable {item : Item}

/- Nor does a step move back, and a token it tells moves it on. -/
theorem position_perform
    (s : Scanner)
    (step : Step) :
    s.cursor.position + (s.perform step).1.text.utf8ByteSize ≤
      (s.perform step).2.cursor.position := by
  cases step with
  | advance =>
      change s.cursor.position ≤ s.cursor.advance.position
      rw [Cursor.position_advance]
      exact Nat.le_succ _
  | peek => exact Nat.le_refl _
  | getToken => exact s.cursor.position_nextToken
  | next =>
      rw [perform_next]
      split
      · exact Nat.le_refl _
      · exact s.cursor.position_nextToken

/- A step that tells a token moves the cursor on. -/
theorem position_lt_perform
    {step : Step}
    {token : Token}
    (hToken : (s.perform step).1 = .item (.ok token)) :
    s.cursor.position < (s.perform step).2.cursor.position := by
  rcases perform_item hToken with ⟨hItem, hCursor⟩
  rw [hCursor]
  exact Cursor.position_lt_of_token (Prod.ext hItem.symm rfl)

/- The texts of all answers have room in what has been passed. -/
theorem position_performAll
    (s : Scanner)
    (steps : List Step) :
    s.cursor.position + Answer.textBytes (s.performAll steps).1 ≤
      (s.performAll steps).2.cursor.position := by
  induction steps generalizing s with
  | nil => exact Nat.le_refl _
  | cons step steps ih =>
      have hFirst := s.position_perform step
      have hOthers := ih (s.perform step).2
      rw [performAll_cons, Answer.textBytes]
      dsimp only
      omega

------------------------------------------------------------
-- The Mark of the Last Item
------------------------------------------------------------

/- No step takes the mark away. -/
theorem finished_perform
    (hMark : s.finished = true)
    (step : Step) :
    (s.perform step).2.finished = true := by
  cases step with
  | advance => exact hMark
  | peek => exact hMark
  | getToken => exact hMark
  | next => rwa [perform_next, if_pos hMark]

/- Nor do any steps together. -/
theorem finished_performAll
    (hMark : s.finished = true)
    (steps : List Step) :
    (s.performAll steps).2.finished = true := by
  induction steps generalizing s with
  | nil => exact hMark
  | cons step steps ih => exact ih (finished_perform hMark step)

/- Nothing is requested in vain but behind the last item. -/
theorem next?_eq_none_iff :
    s.next? = none ↔ s.finished = true := by
  unfold next?
  cases s.finished <;> simp

/- A request that tells an item sets the mark if it is the last. -/
theorem finished_of_next?
    (hNext : s.next? = some (item, later)) :
    later.finished = Item.isLast item := by
  unfold next? at hNext
  split at hNext
  · cases hNext
  · cases hNext
    rfl

/- What a request does is told by the next item, if there is one. -/
theorem perform_next_of_some
    (hNext : s.next? = some (item, later)) :
    s.perform .next = (.item item, later) := by
  unfold perform
  rw [hNext]

/- Behind the last item a request does nothing. -/
theorem perform_next_of_finished
    (hMark : s.finished = true) :
    s.perform .next = (.ended, s) := by
  rw [perform_next, if_pos hMark]

/- The last item that is requested sets the mark. -/
theorem finished_of_perform_next
    (hItem : s.perform .next = (.item item, later))
    (hLast : Item.isLast item = true) :
    later.finished = true := by
  rw [perform_next] at hItem
  split at hItem
  · cases hItem
  · cases hItem
    exact hLast

------------------------------------------------------------
-- All Items
------------------------------------------------------------

/- Each item that is still to come takes a byte, or is the last. -/
theorem length_drain_le (s : Scanner) :
    s.drain.1.length ≤ s.itemsLeft := by
  induction s using drain.induct with
  | case1 s hNone =>
      rw [drain_of_none hNone]
      exact Nat.zero_le _
  | case2 s item later hNext _ _ _ ih =>
      have hLess := itemsLeft_next?_lt hNext
      rw [drain_of_some hNext, List.length_cons]
      omega

/-
  A scanner delivers tokens other than the end of input and, behind
  them, its last item.
-/
structure Delivers
    (s : Scanner)
    (tokens : List Token)
    (final : Item) : Prop where
  items : s.drain.1 = tokens.map .ok ++ [final]
  kinds : ∀ token ∈ tokens, token.kind ≠ .eof
  isLast : Item.isLast final = true

/- A scanner without the mark delivers some items. -/
theorem exists_delivers
    (hMark : s.finished = false) :
    ∃ tokens final, s.Delivers tokens final := by
  induction s using drain.induct with
  | case1 s hNone =>
      rw [next?_eq_none_iff, hMark] at hNone
      cases hNone
  | case2 s item later hNext _ _ _ ih =>
      have hItems := congrArg Prod.fst (drain_of_some hNext)
      have hLater := finished_of_next? hNext
      cases hLast : Item.isLast item with
      | true =>
          have hNone := next?_eq_none_iff.mpr (hLater.trans hLast)
          rw [drain_of_none hNone] at hItems
          exact ⟨[], item, hItems, by simp, hLast⟩
      | false =>
          rcases ih (hLater.trans hLast) with
            ⟨tokens, final, hMore, hKinds, hFinal⟩
          cases item with
          | error e => cases hLast
          | ok token =>
              have hKind : token.kind ≠ .eof := by
                simpa [Item.isLast] using hLast
              rw [hMore] at hItems
              exact
                ⟨token :: tokens, final, hItems,
                  List.forall_mem_cons.mpr ⟨hKind, hKinds⟩,
                  hFinal⟩

/- Behind the last item requests do nothing. -/
theorem performAll_next_of_finished
    (hMark : s.finished = true)
    (count : Nat) :
    s.performAll (List.replicate count .next) =
      (List.replicate count .ended, s) := by
  induction count with
  | zero => rfl
  | succ count ih =>
      rw [List.replicate_succ, performAll_cons,
        perform_next_of_finished hMark, ih]
      rfl

/-
  As many requests as there are items tell them one by one, and
  further requests tell nothing.
-/
theorem performAll_next
    (s : Scanner)
    (extra : Nat) :
    s.performAll
        (List.replicate (s.drain.1.length + extra) .next) =
      (s.drain.1.map .item ++ List.replicate extra .ended,
        s.drain.2) := by
  induction s using drain.induct with
  | case1 s hNone =>
      have hMark := next?_eq_none_iff.mp hNone
      rw [drain_of_none hNone, List.length_nil, Nat.zero_add,
        performAll_next_of_finished hMark]
      rfl
  | case2 s item later hNext _ _ _ ih =>
      rw [drain_of_some hNext, List.length_cons,
        Nat.add_right_comm, List.replicate_succ, performAll_cons,
        perform_next_of_some hNext, ih]
      rfl

namespace Delivers

variable {tokens : List Token}
variable {final : Item}

/- Few items are delivered. -/
theorem length_le
    (hDelivers : s.Delivers tokens final) :
    tokens.length + 1 ≤ s.itemsLeft := by
  have hFew := s.length_drain_le
  rw [hDelivers.items] at hFew
  simpa using hFew

/- What is left are the tokens up to the last, or an error. -/
theorem rest_eq
    (hDelivers : s.Delivers tokens final) :
    s.rest.1 = final.map fun token => tokens ++ [token] := by
  change Item.collect s.drain.1 = _
  rw [hDelivers.items, Item.collect_append]

/- Requests tell the tokens, then the last item, then nothing. -/
theorem performAll_next
    (hDelivers : s.Delivers tokens final)
    (extra : Nat) :
    s.performAll
        (List.replicate (tokens.length + 1 + extra) .next) =
      (tokens.map (fun token => .item (.ok token)) ++
          .item final :: List.replicate extra .ended,
        s.drain.2) := by
  have hAll := s.performAll_next extra
  rw [hDelivers.items] at hAll
  simpa [Function.comp_def] using hAll

end Delivers

------------------------------------------------------------
-- Steps in Any Order
------------------------------------------------------------

/- The bytes ahead of a fresh scanner, and one for the last item. -/
theorem itemsLeft_start (source : String) :
    (start source).itemsLeft = source.utf8ByteSize + 2 := by
  have hBreak : Text.byteLength ['\n'] = 1 := rfl
  simp [itemsLeft, start, Cursor.start, Cursor.bytesAhead,
    Text.byteLength_toList, hBreak]

/-
  Iterating a scanner delivers tokens and a last item, no more than
  the text has bytes and two. The tokens of a text are all of them
  if the last is no error. From any state on, the texts that steps
  tell have room in the bytes they pass: none moves the cursor back,
  and a token moves it on, by its text at least. Behind the last item
  a request tells nothing and leaves the cursor where it is, whatever
  has been done in between.
-/
theorem progress_of_steps
    (source : String)
    (s : Scanner)
    (steps : List Step) :
    (∃ tokens final,
      (start source).Delivers tokens final ∧
        tokens.length + 1 ≤ source.utf8ByteSize + 2 ∧
          tokenize source =
              final.map (fun token => tokens ++ [token]) ∧
            ∀ extra,
              (start source).performAll
                  (List.replicate (tokens.length + 1 + extra)
                    .next) =
                (tokens.map (fun token => .item (.ok token)) ++
                    .item final :: List.replicate extra .ended,
                  (start source).drain.2)) ∧
      let run := s.performAll steps
      s.cursor.position + Answer.textBytes run.1 ≤
          run.2.cursor.position ∧
        (∀ step,
          let one := run.2.perform step
          run.2.cursor.position ≤ one.2.cursor.position ∧
            ∀ token, one.1 = .item (.ok token) →
              run.2.cursor.position < one.2.cursor.position ∧
                run.2.cursor.position + token.text.utf8ByteSize ≤
                  one.2.cursor.position) ∧
          ∀ item later between,
            run.2.perform .next = (.item item, later) →
              Item.isLast item = true →
                let on := (later.performAll between).2
                on.perform .next = (.ended, on) := by
  refine ⟨?_, s.position_performAll steps, ?_, ?_⟩
  · have hFresh : (start source).finished = false := rfl
    rcases exists_delivers hFresh with ⟨tokens, final, hDelivers⟩
    have hFew := hDelivers.length_le
    rw [itemsLeft_start] at hFew
    exact
      ⟨tokens, final, hDelivers, hFew, hDelivers.rest_eq,
        hDelivers.performAll_next⟩
  · intro step
    have hMove := (s.performAll steps).2.position_perform step
    constructor
    · exact Nat.le_trans (Nat.le_add_right _ _) hMove
    · intro token hToken
      refine ⟨position_lt_perform hToken, ?_⟩
      rwa [hToken] at hMove
  · intro item later between hItem hLast
    have hMark := finished_of_perform_next hItem hLast
    exact
      perform_next_of_finished (finished_performAll hMark between)

/- A NUL is the last item, and reading goes on behind it by hand. -/
theorem progress_of_steps_nul :
    let s := ((start "1\x00@").performAll [.next]).2
    let later := (s.perform .next).2
    let between := later.performAll [.getToken, .advance, .getToken]
    s.perform .next =
        (.item (.ok { kind := .eof, text := "", line := 1 }),
          later) ∧
      between.1 =
          [.item
              (.error
                { cause := .unknown '@', line := 1, position := 2 }),
            .moved,
            .item
              (.ok { kind := .newline, text := "\n", line := 1 })] ∧
        between.2.perform .next = (.ended, between.2) := by
  intro s later between
  have hItem :
      s.perform .next =
        (.item (.ok { kind := .eof, text := "", line := 1 }),
          later) :=
    Prod.ext (by decide +kernel) rfl
  have hRun := progress_of_steps "1\x00@" (start "1\x00@") [.next]
  exact
    ⟨hItem, by decide +kernel, hRun.2.2.2 _ _ _ hItem rfl⟩

/- A text can have as many items as it has bytes, and two more. -/
example :
    (start "1+2").drain.1.length = "1+2".utf8ByteSize + 2 := by
  decide +kernel

end Scanner

end TeenyC
