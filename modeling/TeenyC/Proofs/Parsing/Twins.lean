import TeenyC.Proofs.Parsing.Orderly
import TeenyC.Proofs.Token.Behind

/-
  Two runs of the grammar on texts that differ behind a NUL.

  Twin sessions differ in nothing but what stands behind the end
  of input. A rule keeps twins as long as it stays before the
  end. Reading one token behind it can part them, if that token
  is a fault; at the end of input no rule moves on.

  Key definitions include:
    * `Session.Twins`
    * `Production.Rests`
    * `Production.Paired`
    * `Production.Guarded`

  Key theorems include:
    * `Production.Guarded.bind`
    * `Production.guarded_advance`
    * `Production.guarded_loop`
    * `Production.Orderly.guarded`
-/

namespace TeenyC

------------------------------------------------------------
-- Twin Sessions
------------------------------------------------------------

namespace Session

/-
  Twin sessions stand before the end of input with twin cursors,
  one token before it, or at it. There what is ahead is no
  longer alike.
-/
inductive Twins
    (left right : Cursor)
    (s : Session) : Session → Prop
| before
    {cursor : Cursor}
    (hCursor : Cursor.Twins left right s.cursor cursor) :
    Twins left right s (s.look cursor s.ahead)
| behind
    (hCursor : s.cursor = left)
    (hAhead : s.ahead.kind = .eof) :
    Twins left right s (s.look right s.ahead)
| ended
    {cursor : Cursor}
    {ahead : Token}
    (hCurrent : s.current.kind = .eof) :
    Twins left right s (s.look cursor ahead)

variable {left right : Cursor}
variable {s t : Session}

/- A blind change keeps twins. -/
theorem Twins.update
    {f : Session → Session}
    (hBlind : Blind f)
    (hTwins : s.Twins left right t) :
    (f s).Twins left right (f t) := by
  obtain ⟨hCursor, hAhead⟩ := hBlind.kept s
  cases hTwins with
  | before hTwins =>
      rw [hBlind.look, ← hAhead]
      exact .before (by rwa [hCursor])
  | behind hLeft hEof =>
      rw [hBlind.look, ← hAhead]
      exact .behind (hCursor.trans hLeft) (by rwa [hAhead])
  | ended hEof =>
      rw [hBlind.look]
      exact .ended (by rwa [hBlind.current])

end Session

namespace Production

variable {α β : Type}

------------------------------------------------------------
-- Results at the End of Input
------------------------------------------------------------

/- A result at the end of input, or of another fault than a token's. -/
def Rests : Except Diagnostic α × Session → Prop
| (.ok _, s) => s.current.kind = .eof
| (.error d, _) => ∀ e, d ≠ .lexical e

/-
  A result that is settled behind the end of input: the fault
  of the token there, or if it can be read, rest.
-/
def Ends
    (cursor : Cursor)
    (r : Except Diagnostic α × Session) : Prop :=
  match cursor.fault? with
  | some e => r.1 = .error (.lexical e)
  | none => Rests r

/-
  The results of two runs from twins: twins again, the same
  diagnostic, or two results that were settled behind the end of
  input, where some token cannot be read.
-/
inductive Paired (left right : Cursor) :
    Except Diagnostic α × Session →
      Except Diagnostic α × Session → Prop
| same
    {a : α}
    {s t : Session}
    (hTwins : s.Twins left right t) :
    Paired left right (.ok a, s) (.ok a, t)
| failed
    {d : Diagnostic}
    {s t : Session} :
    Paired left right (.error d, s) (.error d, t)
| parted
    {r q : Except Diagnostic α × Session}
    (hFault : left.fault? ≠ none ∨ right.fault? ≠ none)
    (hLeft : Ends left r)
    (hRight : Ends right q) :
    Paired left right r q

/-
  A rule is guarded under a condition when at the end of input
  it comes to rest, and when it runs on twins alike.
-/
structure Guarded
    (p : Production α)
    (condition : Session → Prop) : Prop where
  rests : ∀ s, condition s → s.current.kind = .eof →
    Rests (p.run s)
  pairs : ∀ left right s t, condition s →
    s.Twins left right t → Paired left right (p.run s) (p.run t)

variable {left right : Cursor}
variable {s t : Session}
variable {condition : Session → Prop}

------------------------------------------------------------
-- Sequencing
------------------------------------------------------------

/- A sequence rests after a first rule that rests. -/
theorem rests_bind
    {first : Production α}
    {second : α → Production β}
    (hFirst : Rests (first.run s))
    (hSecond : ∀ a t, t.current.kind = .eof →
      Rests ((second a).run t)) :
    Rests ((first >>= second).run s) := by
  rw [run_bind]
  rcases hRun : first.run s with ⟨item, t⟩
  rw [hRun] at hFirst
  cases item with
  | ok a => exact hSecond a t hFirst
  | error d => exact hFirst

/- A sequence ends as its first rule does. -/
theorem ends_bind
    {cursor : Cursor}
    {first : Production α}
    {second : α → Production β}
    (hFirst : Ends cursor (first.run s))
    (hSecond : ∀ a t, t.current.kind = .eof →
      Rests ((second a).run t)) :
    Ends cursor ((first >>= second).run s) := by
  unfold Ends at hFirst ⊢
  split
  · next e hFault =>
    rw [hFault] at hFirst
    rcases hRun : first.run s with ⟨item, t⟩
    rw [hRun] at hFirst
    change item = _ at hFirst
    rw [run_bind, hRun, hFirst]
  · next hFault =>
    rw [hFault] at hFirst
    exact rests_bind hFirst hSecond

/-
  Two runs of a sequence are paired if those of the first rule
  are, and those of the second from there.
-/
theorem paired_bind
    {first : Production α}
    {second : α → Production β}
    (hFirst : Paired left right (first.run s) (first.run t))
    (hRests : ∀ a u, u.current.kind = .eof →
      Rests ((second a).run u))
    (hSecond : ∀ a u v, first.run s = (.ok a, u) →
      u.Twins left right v →
        Paired left right ((second a).run u) ((second a).run v)) :
    Paired left right ((first >>= second).run s)
      ((first >>= second).run t) := by
  rcases hLeft : first.run s with ⟨item, u⟩
  rcases hRight : first.run t with ⟨other, v⟩
  rw [hLeft, hRight] at hFirst
  cases hFirst with
  | same hTwins =>
      rw [run_bind, run_bind, hLeft, hRight]
      exact hSecond _ _ _ hLeft hTwins
  | failed =>
      rw [run_bind, run_bind, hLeft, hRight]
      exact .failed
  | parted hFault hFirst hOther =>
      rw [← hLeft] at hFirst
      rw [← hRight] at hOther
      exact
        .parted hFault (ends_bind hFirst hRests)
          (ends_bind hOther hRests)

namespace Guarded

/- A stronger condition keeps a rule guarded. -/
theorem mono
    {p : Production α}
    {weak : Session → Prop}
    (hGuarded : p.Guarded weak)
    (hWeak : ∀ s, condition s → weak s) :
    p.Guarded condition where
  rests s hCondition := hGuarded.rests s (hWeak s hCondition)
  pairs left right s t hCondition :=
    hGuarded.pairs left right s t (hWeak s hCondition)

/- One guarded rule after another. -/
theorem bind
    {first : Production α}
    {second : α → Production β}
    (hFirst : first.Guarded condition)
    (hSecond : ∀ a, (second a).Guarded fun _ => True) :
    (first >>= second).Guarded condition where
  rests s hCondition hEof :=
    rests_bind (hFirst.rests s hCondition hEof)
      fun a t => (hSecond a).rests t trivial
  pairs left right s t hCondition hTwins :=
    paired_bind (hFirst.pairs left right s t hCondition hTwins)
      (fun a u => (hSecond a).rests u trivial)
      fun a u v _ => (hSecond a).pairs left right u v trivial

/- A blind change before a guarded rule keeps the token at hand. -/
theorem update_bind
    {token : Token}
    {f : Session → Session}
    {hLeft : ∀ s, (f s).left = s.left}
    {second : Unit → Production α}
    (hBlind : Session.Blind f)
    (hSecond : (second ()).Guarded fun s => s.current = token) :
    (update f hLeft >>= second).Guarded
      fun s => s.current = token where
  rests s hToken hEof :=
    hSecond.rests (f s) ((hBlind.current s).trans hToken)
      (by rwa [hBlind.current])
  pairs left right s t hToken hTwins :=
    hSecond.pairs left right (f s) (f t)
      ((hBlind.current s).trans hToken) (hTwins.update hBlind)

/- A choice that is blind is guarded if what it chooses is. -/
theorem withSession
    {choose : Session → Production α}
    (hBlind : ∀ s cursor ahead,
      choose (s.look cursor ahead) = choose s)
    (hChoice : ∀ s, condition s →
      (choose s).Guarded fun t => t.current = s.current) :
    (withSession choose).Guarded condition where
  rests s hCondition := (hChoice s hCondition).rests s rfl
  pairs left right s t hCondition hTwins := by
    have hSame : choose t = choose s := by
      cases hTwins <;> apply hBlind
    change Paired left right ((choose s).run s) ((choose t).run t)
    rw [hSame]
    exact (hChoice s hCondition).pairs left right s t rfl hTwins

/- A rule is guarded where it is so at each current token. -/
theorem of_current
    {p : Production α}
    (hTokens : ∀ s, condition s →
      p.Guarded fun t => t.current = s.current) :
    p.Guarded condition where
  rests s hCondition := (hTokens s hCondition).rests s rfl
  pairs left right s t hCondition :=
    (hTokens s hCondition).pairs left right s t rfl

end Guarded

------------------------------------------------------------
-- Single Steps
------------------------------------------------------------

/- A rule that reads and writes nothing is guarded. -/
theorem guarded_pure (a : α) :
    (Pure.pure a : Production α).Guarded condition where
  rests _ _ hEof := hEof
  pairs _ _ _ _ _ hTwins := .same hTwins

/- A rule that fails, but not for a token, is guarded. -/
theorem guarded_fail
    {d : Diagnostic}
    (hOther : ∀ e, d ≠ .lexical e) :
    (fail d : Production α).Guarded condition where
  rests _ _ _ := hOther
  pairs _ _ _ _ _ _ := .failed

/- A blind change is guarded. -/
theorem guarded_update
    {f : Session → Session}
    {hLeft : ∀ s, (f s).left = s.left}
    (hBlind : Session.Blind f) :
    (update f hLeft).Guarded condition where
  rests s _ hEof := by
    change (f s).current.kind = .eof
    rwa [hBlind.current]
  pairs _ _ _ _ _ hTwins := .same (hTwins.update hBlind)

/- Before the last token two moves lead to twins, or both fail. -/
theorem paired_advance_before
    {cursor : Cursor}
    (hCursor : Cursor.Twins left right s.cursor cursor) :
    Paired left right s.advance
      (s.look cursor s.ahead).advance := by
  unfold Session.advance Session.look
  cases hCursor with
  | token hLeft hRight hMore =>
      simp only [hLeft, hRight]
      exact .same (.before hMore)
  | finish hLeft hRight hKind =>
      simp only [hLeft, hRight]
      exact .same (.behind rfl hKind)
  | fault hLeft hRight =>
      simp only [hLeft, hRight]
      exact .failed

/- A session that is to read the end of input ends there. -/
theorem ends_advance
    (hAhead : s.ahead.kind = .eof) :
    Ends s.cursor s.advance := by
  unfold Ends Cursor.fault? Session.advance
  rcases s.cursor.nextToken with ⟨item, next⟩
  cases item with
  | ok token => exact hAhead
  | error e => rfl

/- At the last token two moves may part. -/
theorem paired_advance_behind
    (hAhead : s.ahead.kind = .eof) :
    Paired s.cursor right s.advance
      (s.look right s.ahead).advance := by
  by_cases hLeft : s.cursor.fault? = none
  · by_cases hRight : right.fault? = none
    · unfold Cursor.fault? at hLeft hRight
      unfold Session.advance
      rcases hNext : s.cursor.nextToken with ⟨item, next⟩
      rcases hOther : right.nextToken with ⟨other, last⟩
      rw [hNext] at hLeft
      rw [hOther] at hRight
      cases item with
      | error e => cases hLeft
      | ok token =>
          cases other with
          | error e => cases hRight
          | ok token =>
              simp only [Session.look, hOther]
              exact .same (.ended hAhead)
    · exact
        .parted (.inr hRight) (ends_advance hAhead)
          (@ends_advance (s.look right s.ahead) hAhead)
  · exact
      .parted (.inl hLeft) (ends_advance hAhead)
        (@ends_advance (s.look right s.ahead) hAhead)

/- To move on before the end of input is guarded. -/
theorem guarded_advance :
    advance.Guarded fun s => s.current.kind ≠ .eof where
  rests s hOpen hEof := absurd hEof hOpen
  pairs left right s t hOpen hTwins := by
    cases hTwins with
    | before hCursor => exact paired_advance_before hCursor
    | behind hCursor hAhead =>
        subst hCursor
        exact paired_advance_behind hAhead
    | ended hEof => exact absurd hEof hOpen

/- To move on from a token that is known is guarded. -/
theorem guarded_advance_of_kind
    {token : Token}
    (hKind : token.kind ≠ .eof) :
    advance.Guarded fun s => s.current = token :=
  guarded_advance.mono fun _ hToken => hToken ▸ hKind

------------------------------------------------------------
-- Loops
------------------------------------------------------------

/- A loop rests if each of its rounds does. -/
theorem rests_loop
    {goesOn : β → Session → Bool}
    {body : β → Production β}
    {hBody : ∀ b, (body b).Consumes (goesOn b · = true)}
    (hRound : ∀ b, (body b).Guarded (goesOn b · = true))
    (b : β)
    (hEof : s.current.kind = .eof) :
    Rests ((loop goesOn body hBody b).run s) := by
  change Rests (loopRun goesOn body hBody b s)
  fun_induction loopRun goesOn body hBody b s with
  | case1 b s hOn c t hRun ih =>
      have hRests := (hRound b).rests s hOn hEof
      rw [hRun] at hRests
      exact ih hRests
  | case2 b s hOn d t hRun =>
      have hRests := (hRound b).rests s hOn hEof
      rwa [hRun] at hRests
  | case3 b s hOff => exact hEof

/-
  A loop runs on twins alike if its rounds do, and if it goes on
  by what twins share. The induction is on what is left to read.
-/
theorem paired_loop
    {goesOn : β → Session → Bool}
    {body : β → Production β}
    {hBody : ∀ b, (body b).Consumes (goesOn b · = true)}
    (hBlind : ∀ b s cursor ahead,
      goesOn b (s.look cursor ahead) = goesOn b s)
    (hRound : ∀ b, (body b).Guarded (goesOn b · = true))
    (b : β)
    (hTwins : s.Twins left right t) :
    Paired left right ((loop goesOn body hBody b).run s)
      ((loop goesOn body hBody b).run t) := by
  induction hSize : s.left using Nat.strongRecOn
    generalizing b s t with
  | ind size ih =>
      have hSame : goesOn b t = goesOn b s := by
        cases hTwins <;> apply hBlind
      rw [run_loop, run_loop, hSame]
      by_cases hOn : goesOn b s = true
      · rw [if_pos hOn, if_pos hOn]
        apply paired_bind
        · exact (hRound b).pairs left right s t hOn hTwins
        · exact fun c u => rests_loop hRound c
        · intro c u v hRun hMore
          have hLess := hBody b s c u hOn hRun
          exact ih _ (hSize ▸ hLess) c hMore rfl
      · rw [if_neg hOn, if_neg hOn]
        exact .same hTwins

/- A loop of guarded rounds is guarded. -/
theorem guarded_loop
    {goesOn : β → Session → Bool}
    {body : β → Production β}
    {hBody : ∀ b, (body b).Consumes (goesOn b · = true)}
    (hBlind : ∀ b s cursor ahead,
      goesOn b (s.look cursor ahead) = goesOn b s)
    (hRound : ∀ b, (body b).Guarded (goesOn b · = true))
    (b : β) :
    (loop goesOn body hBody b).Guarded condition where
  rests _ _ := rests_loop hRound b
  pairs _ _ _ _ _ := paired_loop hBlind hRound b

------------------------------------------------------------
-- Orderly Rules
------------------------------------------------------------

/-
  An orderly rule is guarded: it moves on from no end of input,
  writes by nothing that stands behind it, and takes no choice
  by it.
-/
theorem Orderly.guarded
    {p : Production α}
    {token : Token}
    (hOrderly : p.Orderly token) :
    p.Guarded fun s => s.current = token := by
  induction hOrderly with
  | pure a => exact guarded_pure a
  | fail hOther => exact guarded_fail hOther
  | update hBlind => exact guarded_update hBlind
  | advance hOpen => exact guarded_advance_of_kind hOpen
  | bind _ _ hFirst hSecond =>
      exact
        hFirst.bind fun a =>
          .of_current fun s _ => hSecond a s.current
  | update_bind hBlind _ hSecond =>
      exact hSecond.update_bind hBlind
  | withSession hBlind _ hChoice =>
      apply Guarded.withSession hBlind
      intro s hToken
      rw [hToken]
      exact hChoice s hToken
  | loop hBlind _ b hRound =>
      exact
        guarded_loop hBlind (fun b => .of_current (hRound b)) b

end Production

end TeenyC
