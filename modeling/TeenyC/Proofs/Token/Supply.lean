import TeenyC.Scanner
import TeenyC.Proofs.Token.Spelled

/-
  The tokens that a cursor supplies, one request after another.

  A cursor may be asked for more tokens after the end of input.
  In a text without NUL it then supplies the end of input again
  and again; the list of all tokens stops at the first.

  Key definitions include:
    * `Cursor.Supplies`
    * `Token.EndsList`
    * `Cursor.Lists`
    * `Cursor.Clean`

  Key theorems include:
    * `Cursor.Supplies.compare`
    * `tokenize_eq_ok_iff`
    * `Cursor.Supplies.nextToken_ok`
-/

namespace TeenyC

------------------------------------------------------------
-- The End of Input
------------------------------------------------------------

/- The end of input stands last in the list, and nowhere else. -/
def Token.EndsList (tokens : List Token) : Prop :=
  ∃ before last,
    tokens = before ++ [last] ∧ last.kind = .eof ∧
      ∀ token ∈ before, token.kind ≠ .eof

/- A token before a list that the end of input ends. -/
theorem Token.endsList_cons_iff
    {token : Token}
    {tokens : List Token}
    (hKind : token.kind ≠ .eof) :
    Token.EndsList (token :: tokens) ↔
      Token.EndsList tokens := by
  constructor
  · intro hEnds
    rcases hEnds with ⟨before, last, hTokens, hLast, hBefore⟩
    rcases before with - | ⟨first, before⟩
    · cases hTokens
      exact absurd hLast hKind
    · obtain ⟨rfl, rfl⟩ := List.cons.inj hTokens
      exact
        ⟨before, last, rfl, hLast, fun other hOther =>
          hBefore other (List.mem_cons_of_mem _ hOther)⟩
  · intro hEnds
    rcases hEnds with ⟨before, last, hTokens, hLast, hBefore⟩
    refine ⟨token :: before, last, by rw [hTokens]; rfl,
      hLast, ?_⟩
    intro other hOther
    rcases List.mem_cons.mp hOther with hFirst | hLater
    · rwa [hFirst]
    · exact hBefore other hLater

/- A list that starts with the end of input is that token. -/
theorem Token.endsList_of_eof
    {token : Token}
    {tokens : List Token}
    (hKind : token.kind = .eof)
    (hEnds : Token.EndsList (token :: tokens)) :
    tokens = [] := by
  rcases hEnds with ⟨before, last, hTokens, _, hBefore⟩
  rcases before with - | ⟨first, before⟩
  · exact (List.cons.inj hTokens).2
  · obtain ⟨rfl, _⟩ := List.cons.inj hTokens
    exact absurd hKind (hBefore token List.mem_cons_self)

namespace Cursor

------------------------------------------------------------
-- Supplies
------------------------------------------------------------

/- The tokens that lead from one cursor to another. -/
inductive Supplies : Cursor → List Token → Cursor → Prop
| nil {c : Cursor} : Supplies c [] c
| cons
    {first second last : Cursor}
    {token : Token}
    {tokens : List Token}
    (hFirst : first.nextToken = (.ok token, second))
    (hMore : Supplies second tokens last) :
    Supplies first (token :: tokens) last

namespace Supplies

/- One supply after another. -/
theorem append
    {first second last : Cursor}
    {tokens more : List Token}
    (hFirst : Supplies first tokens second)
    (hMore : Supplies second more last) :
    Supplies first (tokens ++ more) last := by
  induction hFirst with
  | nil => exact hMore
  | cons hToken _ ih => exact .cons hToken (ih hMore)

/- A supply and one more token. -/
theorem snoc
    {first second last : Cursor}
    {tokens : List Token}
    {token : Token}
    (hFirst : Supplies first tokens second)
    (hLast : second.nextToken = (.ok token, last)) :
    Supplies first (tokens ++ [token]) last :=
  hFirst.append (.cons hLast .nil)

/- A supply of two lists of tokens passes between them. -/
theorem split
    {first last : Cursor}
    {tokens more : List Token}
    (hSupply : Supplies first (tokens ++ more) last) :
    ∃ middle,
      Supplies first tokens middle ∧
        Supplies middle more last := by
  induction tokens generalizing first with
  | nil => exact ⟨first, .nil, hSupply⟩
  | cons token tokens ih =>
      cases hSupply with
      | cons hToken hMore =>
          rcases ih hMore with ⟨middle, hTokens, hRest⟩
          exact ⟨middle, .cons hToken hTokens, hRest⟩

/- Of two supplies of one cursor, one goes on from the other. -/
theorem compare
    {first last other : Cursor}
    {tokens others : List Token}
    (hSupply : Supplies first tokens last)
    (hOther : Supplies first others other) :
    (∃ more,
        others = tokens ++ more ∧ Supplies last more other) ∨
      ∃ more,
        tokens = others ++ more ∧ Supplies other more last := by
  induction hSupply generalizing others with
  | nil => exact .inl ⟨others, rfl, hOther⟩
  | @cons first second last token tokens hToken hMore ih =>
      cases hOther with
      | nil =>
          exact
            .inr ⟨token :: tokens, rfl, .cons hToken hMore⟩
      | @cons _ second' _ token' others hToken' hOthers =>
          rw [hToken] at hToken'
          cases hToken'
          rcases ih hOthers with
            ⟨more, hEq, hRest⟩ | ⟨more, hEq, hRest⟩
          · exact .inl ⟨more, by rw [hEq]; rfl, hRest⟩
          · exact .inr ⟨more, by rw [hEq]; rfl, hRest⟩

/-
  A token that is met before the end of input is one of the
  tokens up to the end.
-/
theorem prefix_of_open
    {first last other : Cursor}
    {tokens before more : List Token}
    {token : Token}
    (hSupply : Supplies first tokens last)
    (hEnds : Token.EndsList tokens)
    (hOther : Supplies first (before ++ token :: more) other)
    (hOpen : ∀ earlier ∈ before, earlier.kind ≠ .eof) :
    before ++ [token] <+: tokens := by
  have hMet : before ++ [token] <+: before ++ token :: more :=
    ⟨more, (List.append_cons _ _ _).symm⟩
  rcases hSupply.compare hOther with
    ⟨later, hLater, _⟩ | ⟨later, hLater, _⟩
  · have hAll : tokens <+: before ++ token :: more :=
      ⟨later, hLater.symm⟩
    apply List.prefix_of_prefix_length_le hMet hAll
    by_contra hShort
    have hBefore : tokens <+: before := by
      apply
        List.prefix_of_prefix_length_le hAll
          (List.prefix_append _ _)
      simp only [List.length_append, List.length_singleton]
        at hShort
      omega
    rcases hEnds with ⟨init, final, hTokens, hKind, _⟩
    refine hOpen final (hBefore.subset ?_) hKind
    simp [hTokens]
  · exact hMet.trans ⟨later, hLater.symm⟩

/- Every token that is supplied has a text that fits its kind. -/
theorem spelled
    {first last : Cursor}
    {tokens : List Token}
    (hSupply : Supplies first tokens last) :
    ∀ token ∈ tokens, token.Spelled := by
  induction hSupply with
  | nil => simp
  | cons hToken _ ih =>
      intro token hMember
      rcases List.mem_cons.mp hMember with hFirst | hLater
      · subst hFirst
        exact spelled_of_nextToken hToken
      · exact ih token hLater

end Supplies

end Cursor

------------------------------------------------------------
-- All Tokens
------------------------------------------------------------

/- The tokens of items are the first token and those after it. -/
theorem Item.collect_cons_iff
    {token : Token}
    {later : List Item}
    {tokens : List Token} :
    Item.collect (.ok token :: later) = .ok tokens ↔
      ∃ more,
        Item.collect later = .ok more ∧ tokens = token :: more := by
  rw [Item.collect]
  cases Item.collect later with
  | error e => simp [Except.map]
  | ok more => simp [Except.map, eq_comm]

/- What is collected ends with the last item, or is its error. -/
theorem Item.collect_append
    (tokens : List Token)
    (final : Item) :
    Item.collect (tokens.map .ok ++ [final]) =
      final.map fun token => tokens ++ [token] := by
  induction tokens with
  | nil => cases final <;> rfl
  | cons token tokens ih =>
      rw [List.map_cons, List.cons_append, Item.collect, ih]
      cases final <;> rfl

namespace Scanner

/- A scanner that has yielded its last item yields no more. -/
theorem drain_of_none
    {s : Scanner}
    (hNext : s.next? = none) :
    s.drain = ([], s) := by
  rw [drain]
  split
  · rfl
  · next item later hStep =>
    rw [hNext] at hStep
    cases hStep

/- A scanner's items are the next one and those after it. -/
theorem drain_of_some
    {s later : Scanner}
    {item : Item}
    (hNext : s.next? = some (item, later)) :
    s.drain = (item :: later.drain.1, later.drain.2) := by
  rw [drain]
  split
  · next hStep =>
    rw [hNext] at hStep
    cases hStep
  · next item' later' hStep =>
    rw [hNext] at hStep
    cases hStep
    rfl

/- The items from a cursor on. -/
theorem drain_of_nextToken
    {c next : Cursor}
    {item : Item}
    (hNext : c.nextToken = (item, next)) :
    (drain { cursor := c, finished := false }).1 =
      item ::
        (drain
          { cursor := next, finished := item.isLast }).1 := by
  have hStep :
      next? { cursor := c, finished := false } =
        some
          (item, { cursor := next, finished := item.isLast }) := by
    simp [next?, hNext]
  rw [drain_of_some hStep]

/- After the last item there is none. -/
theorem drain_finished (c : Cursor) :
    (drain { cursor := c, finished := true }).1 = [] :=
  congrArg Prod.fst (drain_of_none rfl)

variable {c next : Cursor}
variable {token : Token}

/- A fault is the last item. -/
theorem drain_of_fault
    {e : LexError}
    (hNext : c.nextToken = (.error e, next)) :
    (drain { cursor := c, finished := false }).1 =
      [.error e] := by
  rw [drain_of_nextToken hNext, Item.isLast, drain_finished]

/- The end of input is the last item. -/
theorem drain_of_eof
    (hNext : c.nextToken = (.ok token, next))
    (hKind : token.kind = .eof) :
    (drain { cursor := c, finished := false }).1 =
      [.ok token] := by
  have hIsLast : Item.isLast (.ok token) = true := by
    simp [Item.isLast, hKind]
  rw [drain_of_nextToken hNext, hIsLast, drain_finished]

/- Another token comes before the items from the next cursor on. -/
theorem drain_of_open
    (hNext : c.nextToken = (.ok token, next))
    (hKind : token.kind ≠ .eof) :
    (drain { cursor := c, finished := false }).1 =
      .ok token ::
        (drain { cursor := next, finished := false }).1 := by
  have hIsLast : Item.isLast (.ok token) = false := by
    simp [Item.isLast, hKind]
  rw [drain_of_nextToken hNext, hIsLast]

end Scanner

namespace Cursor

variable {c next : Cursor}
variable {token : Token}
variable {tokens : List Token}

/- The tokens that a cursor supplies up to the end of input. -/
def Lists (c : Cursor) (tokens : List Token) : Prop :=
  Token.EndsList tokens ∧ ∃ last, c.Supplies tokens last

/- A list up to the end of input starts with the next token. -/
theorem Lists.exists_cons
    (hLists : c.Lists tokens) :
    ∃ token next more,
      tokens = token :: more ∧
        c.nextToken = (.ok token, next) ∧
          ∃ last, next.Supplies more last := by
  rcases hLists with ⟨hEnds, last, hSupply⟩
  cases hSupply with
  | nil =>
      rcases hEnds with ⟨before, final, hNil, _⟩
      simp at hNil
  | @cons _ second _ token more hToken hMore =>
      exact ⟨token, second, more, rfl, hToken, last, hMore⟩

/- A cursor before a fault lists no tokens. -/
theorem not_lists_of_error
    {e : LexError}
    (hNext : c.nextToken = (.error e, next)) :
    ¬ c.Lists tokens := by
  intro hLists
  rcases hLists.exists_cons with ⟨token, second, _, _, hToken, _⟩
  rw [hNext] at hToken
  cases hToken

/- A cursor before the end of input lists only that. -/
theorem lists_of_eof_iff
    (hNext : c.nextToken = (.ok token, next))
    (hKind : token.kind = .eof) :
    c.Lists tokens ↔ tokens = [token] := by
  constructor
  · intro hLists
    rcases hLists.exists_cons with
      ⟨first, second, more, hTokens, hToken, _⟩
    rw [hNext] at hToken
    cases hToken
    subst hTokens
    rw [Token.endsList_of_eof hKind hLists.1]
  · intro hTokens
    subst hTokens
    constructor
    · exact ⟨[], token, rfl, hKind, by simp⟩
    · exact ⟨next, .cons hNext .nil⟩

/- A cursor lists the next token and what follows it. -/
theorem lists_of_open_iff
    (hNext : c.nextToken = (.ok token, next))
    (hKind : token.kind ≠ .eof) :
    c.Lists tokens ↔
      ∃ more, next.Lists more ∧ tokens = token :: more := by
  constructor
  · intro hLists
    rcases hLists.exists_cons with
      ⟨first, second, more, hTokens, hToken, last, hMore⟩
    rw [hNext] at hToken
    cases hToken
    subst hTokens
    exact
      ⟨more,
        ⟨(Token.endsList_cons_iff hKind).mp hLists.1, last,
          hMore⟩,
        rfl⟩
  · intro hSplit
    rcases hSplit with ⟨more, ⟨hEnds, last, hMore⟩, hTokens⟩
    subst hTokens
    exact
      ⟨(Token.endsList_cons_iff hKind).mpr hEnds, last,
        .cons hNext hMore⟩

/- Any token but the end of input brings the cursor closer to it. -/
theorem bytesAhead_lt_of_open
    (hNext : c.nextToken = (.ok token, next))
    (hKind : token.kind ≠ .eof) :
    next.bytesAhead < c.bytesAhead := by
  have hMove :=
    @Cursor.bytesAhead_nextToken_lt c token (by rw [hNext]) hKind
  rwa [hNext] at hMove

/-
  What a scanner collects is what its cursor lists. Each item
  brings the cursor closer to the end of the text.
-/
theorem collect_drain_iff
    (c : Cursor)
    (tokens : List Token) :
    Item.collect
          (Scanner.drain { cursor := c, finished := false }).1 =
        .ok tokens ↔
      c.Lists tokens := by
  induction hLeft : c.bytesAhead using Nat.strongRecOn
    generalizing c tokens with
  | ind left ih =>
      rcases hNext : c.nextToken with ⟨item, next⟩
      cases item with
      | error e =>
          rw [Scanner.drain_of_fault hNext]
          apply iff_of_false
          · simp [Item.collect]
          · exact not_lists_of_error hNext
      | ok token =>
          by_cases hKind : token.kind = .eof
          · rw [lists_of_eof_iff hNext hKind,
              Scanner.drain_of_eof hNext hKind,
              Item.collect_cons_iff]
            simp [Item.collect]
          · have hLess := bytesAhead_lt_of_open hNext hKind
            rw [hLeft] at hLess
            rw [lists_of_open_iff hNext hKind,
              Scanner.drain_of_open hNext hKind,
              Item.collect_cons_iff]
            apply exists_congr
            intro more
            rw [ih _ hLess next more rfl]

end Cursor

/- The tokens of a text are what its cursor supplies. -/
theorem tokenize_eq_ok_iff
    (source : String)
    (tokens : List Token) :
    tokenize source = .ok tokens ↔
      (Cursor.start source).Lists tokens :=
  Cursor.collect_drain_iff (Cursor.start source) tokens

/- The tokens of a text are well spelled. -/
theorem spelled_of_tokenize
    {source : String}
    {tokens : List Token}
    (hTokens : tokenize source = .ok tokens) :
    ∀ token ∈ tokens, token.Spelled := by
  rcases (tokenize_eq_ok_iff source tokens).mp hTokens with
    ⟨_, last, hSupply⟩
  exact hSupply.spelled

------------------------------------------------------------
-- Texts without NUL
------------------------------------------------------------

/- The end of input stands where nothing follows, or at a NUL. -/
theorem Lexeme.read_eq_finish_iff
    {source : List Char} :
    read source = .finish ↔
      source = [] ∨ source.head? = some '\x00' := by
  constructor
  · intro hRead
    cases source with
    | nil => exact .inl rfl
    | cons first rest =>
        right
        by_contra hOther
        have hFirst : first ≠ '\x00' := by simpa using hOther
        unfold read at hRead
        simp only [hFirst, if_false] at hRead
        split at hRead
        · cases hRead
        · split at hRead
          · unfold readString at hRead
            grind
          · split at hRead
            · unfold readNumber at hRead
              grind
            · split at hRead
              · cases hRead
              · unfold readSign at hRead
                grind
  · intro hEnd
    rcases hEnd with hNil | hHead
    · rw [hNil]
      rfl
    · rcases List.head?_eq_some_iff.mp hHead with ⟨rest, hRest⟩
      rw [hRest]
      rfl

namespace Cursor

/- A cursor between characters, with no NUL ahead. -/
def Clean (c : Cursor) : Prop :=
  c.entered = [] ∧ '\x00' ∉ c.ahead

/- A text without NUL has a clean start. -/
theorem clean_start
    {source : String}
    (hNul : '\x00' ∉ source.toList) :
    (start source).Clean := by
  refine ⟨rfl, ?_⟩
  simpa [start] using hNul

/- What follows a gap is part of the whole. -/
theorem mem_of_mem_afterGap
    {source : List Char}
    {ch : Char}
    (hMember : ch ∈ Lexeme.afterGap source) :
    ch ∈ source := by
  rw [← Lexeme.gap_append_afterGap source]
  exact List.mem_append_right _ hMember

/- In a clean text the end of input stands after all characters. -/
theorem eq_nil_of_finish
    {source : List Char}
    (hNul : '\x00' ∉ source)
    (hRead : Lexeme.read source = .finish) :
    source = [] := by
  rcases Lexeme.read_eq_finish_iff.mp hRead with hNil | hHead
  · exact hNil
  · exact absurd (List.mem_of_head? hHead) hNul

/- A clean cursor stays clean over a token. -/
theorem Clean.nextToken
    {c next : Cursor}
    {token : Token}
    (hClean : c.Clean)
    (hNext : c.nextToken = (.ok token, next)) :
    next.Clean ∧
      (token.kind = .eof → next.ahead = []) := by
  obtain ⟨hEntered, hNul⟩ := hClean
  have hGap : '\x00' ∉ Lexeme.afterGap c.ahead :=
    fun hMember => hNul (mem_of_mem_afterGap hMember)
  have hCovers := Lexeme.read_covers (Lexeme.afterGap c.ahead)
  unfold Cursor.nextToken at hNext
  rw [hEntered] at hNext
  dsimp only [pass] at hNext
  cases hRead : Lexeme.read (Lexeme.afterGap c.ahead) with
  | finish =>
      rw [hRead, eq_nil_of_finish hGap hRead] at hNext
      cases hNext
      exact ⟨⟨rfl, by simp [advance]⟩, fun _ => rfl⟩
  | lexeme kind text rest =>
      rw [hRead] at hNext hCovers
      cases hNext
      cases hCovers with
      | lexeme hKind _ hWhole =>
          refine ⟨⟨rfl, ?_⟩, fun hEof => absurd hEof hKind⟩
          intro hMember
          rw [← hWhole] at hGap
          exact hGap (List.mem_append_right _ hMember)
  | fault cause passed rest =>
      rw [hRead] at hNext
      cases hNext

/- After the last character there is only the end of input. -/
theorem nextToken_of_ahead_nil
    {c : Cursor}
    (hClean : c.Clean)
    (hAhead : c.ahead = []) :
    ∃ token next,
      c.nextToken = (.ok token, next) ∧ token.kind = .eof ∧
        next.Clean ∧ next.ahead = [] := by
  have hToken :
      c.nextToken =
        (.ok { kind := .eof, text := "", line := c.line },
          { c with position := c.position + 1 }) := by
    rcases c with ⟨ahead, entered, position, line⟩
    obtain ⟨hEntered, _⟩ := hClean
    subst hAhead hEntered
    rfl
  refine ⟨_, _, hToken, rfl, ?_, hAhead⟩
  exact ⟨hClean.1, hClean.2⟩

/- A clean cursor stays clean over any tokens. -/
theorem Clean.supplies
    {first last : Cursor}
    {tokens : List Token}
    (hClean : first.Clean)
    (hSupply : first.Supplies tokens last) :
    last.Clean ∧
      ((first.ahead = [] ∨
          ∃ token ∈ tokens, token.kind = .eof) →
        last.ahead = []) := by
  induction hSupply with
  | nil => exact ⟨hClean, fun hEnd => by simpa using hEnd⟩
  | @cons first second last token tokens hToken _ ih =>
      have hSecond := hClean.nextToken hToken
      have hLast := ih hSecond.1
      refine ⟨hLast.1, ?_⟩
      intro hEnd
      apply hLast.2
      rcases hEnd with hAhead | ⟨other, hOther, hKind⟩
      · left
        rcases nextToken_of_ahead_nil hClean hAhead with
          ⟨token', next, hToken', _, _, hNil⟩
        rw [hToken] at hToken'
        cases hToken'
        exact hNil
      · rcases List.mem_cons.mp hOther with hFirst | hLater
        · left
          rw [hFirst] at hKind
          exact hSecond.2 hKind
        · exact .inr ⟨other, hLater, hKind⟩

/-
  A clean cursor whose tokens can all be read can be asked for
  one more token at any time.
-/
theorem Supplies.nextToken_ok
    {first last other : Cursor}
    {tokens others : List Token}
    (hClean : first.Clean)
    (hSupply : first.Supplies tokens last)
    (hEnds : Token.EndsList tokens)
    (hOther : first.Supplies others other) :
    ∃ token next, other.nextToken = (.ok token, next) := by
  rcases hOther.compare hSupply with
    ⟨more, hTokens, hRest⟩ | ⟨more, hOthers, hRest⟩
  · cases hRest with
    | nil =>
        rcases hEnds with ⟨before, final, hFinal, hKind, _⟩
        have hLast := hClean.supplies hSupply
        rcases nextToken_of_ahead_nil hLast.1
            (hLast.2 (.inr ⟨final, by simp [hFinal], hKind⟩))
          with ⟨token, next, hNext, _⟩
        exact ⟨token, next, hNext⟩
    | cons hNext _ => exact ⟨_, _, hNext⟩
  · rcases hEnds with ⟨before, final, hFinal, hKind, _⟩
    have hLast := hClean.supplies hOther
    have hEof : ∃ token ∈ others, token.kind = .eof :=
      ⟨final, by simp [hOthers, hFinal], hKind⟩
    rcases nextToken_of_ahead_nil hLast.1
        (hLast.2 (.inr hEof)) with
      ⟨token, next, hNext, _⟩
    exact ⟨token, next, hNext⟩

end Cursor

end TeenyC
