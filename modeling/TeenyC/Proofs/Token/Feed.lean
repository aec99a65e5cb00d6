import Mathlib.Data.List.Induction
import TeenyC.Proofs.Token.Progress

/-
  What a cursor gives when it is asked for tokens again and again.

  A request that meets a fault gives no token, and the next one is
  made where the fault was noticed. So a cursor goes on after
  faults as it does after tokens. The place that it has come to
  tells the tokens that it has given.

  Key definitions include:
    * `Cursor.feed`
    * `Cursor.Feeds`
    * `Token.introduced`

  Key theorems include:
    * `Cursor.Feeds.token`
    * `Cursor.Feeds.fault`
    * `Cursor.Feeds.unique`
    * `Token.introduced_snoc`
-/

namespace TeenyC

namespace Cursor

------------------------------------------------------------
-- Requests
------------------------------------------------------------

/- The tokens of a number of requests, and the place after them. -/
def feed (c : Cursor) : Nat → List Token × Cursor
| 0 => ([], c)
| requests + 1 =>
    match (c.feed requests).2.nextToken with
    | (.ok token, next) =>
        ((c.feed requests).1 ++ [token], next)
    | (.error _, next) => ((c.feed requests).1, next)

/- Some number of requests gives the tokens and ends at the place. -/
def Feeds
    (start : Cursor)
    (tokens : List Token)
    (last : Cursor) : Prop :=
  ∃ requests, start.feed requests = (tokens, last)

variable {start last next : Cursor}
variable {tokens others : List Token}

/- A token that is read is given. -/
theorem Feeds.token
    {token : Token}
    (hFeeds : start.Feeds tokens last)
    (hToken : last.nextToken = (.ok token, next)) :
    start.Feeds (tokens ++ [token]) next := by
  rcases hFeeds with ⟨requests, hFeed⟩
  refine ⟨requests + 1, ?_⟩
  rw [feed, hFeed, hToken]

/- At a fault nothing is given. -/
theorem Feeds.fault
    {e : LexError}
    (hFeeds : start.Feeds tokens last)
    (hFault : last.nextToken = (.error e, next)) :
    start.Feeds tokens next := by
  rcases hFeeds with ⟨requests, hFeed⟩
  refine ⟨requests + 1, ?_⟩
  rw [feed, hFeed, hFault]

------------------------------------------------------------
-- Places
------------------------------------------------------------

/- A fault moves no cursor back. -/
theorem position_le_of_fault
    {e : LexError}
    (hFault : last.nextToken = (.error e, next)) :
    last.position ≤ next.position := by
  have hMove := last.position_nextToken
  rw [hFault] at hMove
  exact Nat.le_trans (Nat.le_add_right _ _) hMove

/-
  Further requests give further tokens, if any, and move on by at
  least as many bytes.
-/
theorem exists_feed_add
    (start : Cursor)
    (requests more : Nat) :
    ∃ later,
      (start.feed (requests + more)).1 =
          (start.feed requests).1 ++ later ∧
        (start.feed requests).2.position + later.length ≤
          (start.feed (requests + more)).2.position := by
  induction more with
  | zero => exact ⟨[], by simp⟩
  | succ more ih =>
      rcases ih with ⟨later, hTokens, hPosition⟩
      rw [← Nat.add_assoc, feed]
      split
      · next token next hToken =>
        have hLess := position_lt_of_token hToken
        refine ⟨later ++ [token], by simp [hTokens], ?_⟩
        simp only [List.length_append, List.length_cons,
          List.length_nil]
        omega
      · next e next hFault =>
        have hLe := position_le_of_fault hFault
        exact ⟨later, hTokens, by dsimp only; omega⟩

/- A place tells the tokens that have been given up to it. -/
theorem Feeds.unique
    (hFeeds : start.Feeds tokens last)
    (hOthers : start.Feeds others last) :
    tokens = others := by
  -- Of two numbers of requests that lead to one place, the larger
  -- gives no more.
  have hSame
      {requests more : Nat}
      {given later : List Token}
      (hFeed : start.feed requests = (given, last))
      (hMore : start.feed (requests + more) = (later, last)) :
      given = later := by
    rcases exists_feed_add start requests more with
      ⟨rest, hTokens, hPosition⟩
    simp only [hFeed, hMore] at hTokens hPosition
    have hNone : rest = [] :=
      List.eq_nil_of_length_eq_zero (by omega)
    rw [hTokens, hNone, List.append_nil]
  rcases hFeeds with ⟨requests, hFeed⟩
  rcases hOthers with ⟨count, hOther⟩
  rcases Nat.le_total requests count with hLe | hLe
  · rcases Nat.exists_eq_add_of_le hLe with ⟨more, rfl⟩
    exact hSame hFeed hOther
  · rcases Nat.exists_eq_add_of_le hLe with ⟨more, rfl⟩
    exact (hSame hOther hFeed).symm

end Cursor

------------------------------------------------------------
-- Names among Tokens
------------------------------------------------------------

/- The words that declare a variable. -/
def Keyword.assigns (word : Keyword) : Bool :=
  word == .letKw || word == .input

/- The words that a name follows. -/
def Keyword.isNaming (word : Keyword) : Bool :=
  word.assigns || word == .label || word == .goto

/- The kinds of the words that a name follows. -/
def Kind.isNaming : Kind → Bool
| .keyword word => word.isNaming
| .eof | .newline | .number | .ident | .string | .operator _ =>
    false

namespace Token

variable {introduces : Keyword → Bool}

/- The name that a token is, after a word that introduces one. -/
def introduced?
    (introduces : Keyword → Bool)
    (before token : Token) : Option String :=
  match before.kind, token.kind with
  | .keyword word, .ident =>
      if introduces word then some token.text else none
  | _, _ => none

/- The names after words that introduce one, in their order. -/
def introduced
    (introduces : Keyword → Bool) : List Token → List String
| before :: token :: rest =>
    (introduced? introduces before token).toList ++
      introduced introduces (token :: rest)
| [_] | [] => []

/- A further token may be a further name. -/
theorem introduced_snoc
    (tokens : List Token)
    (before token : Token) :
    introduced introduces (tokens ++ [before] ++ [token]) =
      introduced introduces (tokens ++ [before]) ++
        (introduced? introduces before token).toList := by
  induction tokens with
  | nil => simp [introduced]
  | cons first tokens ih =>
      cases tokens with
      | nil => simp [introduced]
      | cons second tokens =>
          simp only [List.cons_append, introduced] at ih ⊢
          rw [ih, List.append_assoc]

/-
  A token that is no identifier, or does not follow a word that a
  name follows, is no further name.
-/
theorem introduced_snoc_plain
    {tokens : List Token}
    {token : Token}
    (hNaming : ∀ word, introduces word = true → word.isNaming = true)
    (hPlain :
      token.kind ≠ .ident ∨
        ∀ last ∈ tokens.getLast?, last.kind.isNaming = false) :
    introduced introduces (tokens ++ [token]) =
      introduced introduces tokens := by
  rcases List.eq_nil_or_concat tokens with
    hNil | ⟨before, last, hTokens⟩
  · subst hNil
    rfl
  · rw [List.concat_eq_append] at hTokens
    subst hTokens
    have hNone : introduced? introduces last token = none := by
      unfold introduced?
      split
      · next word hWord hIdent =>
        have hLast : word.isNaming = false := by
          have hEnd :=
            hPlain.resolve_left (not_not.mpr hIdent) last (by simp)
          rwa [hWord] at hEnd
        apply if_neg
        intro hIntroduces
        rw [hNaming word hIntroduces] at hLast
        cases hLast
      · rfl
    rw [introduced_snoc, hNone, Option.toList_none,
      List.append_nil]

end Token

end TeenyC
