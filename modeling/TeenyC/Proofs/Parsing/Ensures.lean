import TeenyC.Grammar.Program
import TeenyC.Proofs.Parsing.Noted

/-
  What productions ensure, whether they succeed or fail.

  A production that is stopped by a diagnostic leaves the session
  as it was at that place. What is ensured has two parts: one for
  the session after a success, and one for the session after a
  failure anywhere in the production.

  Key definitions include:
    * `Production.Ensures`
    * `Production.Settles`

  Key theorems include:
    * `Production.ensures_bind`
    * `Production.ensures_loop`
    * `Production.ensures_pass`
    * `Grammar.ensures_naming`
-/

namespace TeenyC

namespace Production

variable {α β : Type}

/-
  Run on a session, the production succeeds with the one
  condition or fails with the other.
-/
def Ensures
    (p : Production α)
    (s : Session)
    (done : α → Session → Prop)
    (stuck : Session → Prop) : Prop :=
  match p.run s with
  | (.ok a, t) => done a t
  | (.error _, t) => stuck t

variable {s : Session}
variable {done : α → Session → Prop}
variable {stuck : Session → Prop}

------------------------------------------------------------
-- Rules
------------------------------------------------------------

/- What follows from what is ensured is ensured. -/
theorem Ensures.mono
    {p : Production α}
    {weaker : α → Session → Prop}
    (hEnsures : p.Ensures s done stuck)
    (hDone : ∀ a t, done a t → weaker a t) :
    p.Ensures s weaker stuck := by
  unfold Ensures at hEnsures ⊢
  split
  · next a t hRun =>
    rw [hRun] at hEnsures
    exact hDone a t hEnsures
  · next d t hRun =>
    rwa [hRun] at hEnsures

/- A rule that reads and writes nothing ensures what holds. -/
theorem ensures_pure
    {a : α}
    (hDone : done a s) :
    (pure a : Production α).Ensures s done stuck := hDone

/- A diagnostic leaves the session as it is. -/
theorem ensures_fail
    {d : Diagnostic}
    (hStuck : stuck s) :
    (fail d : Production α).Ensures s done stuck := hStuck

/- The second rule starts with what the first ensures. -/
theorem ensures_bind
    {first : Production α}
    {second : α → Production β}
    {done : β → Session → Prop}
    {between : α → Session → Prop}
    (hFirst : first.Ensures s between stuck)
    (hSecond :
      ∀ a t, between a t → (second a).Ensures t done stuck) :
    (first >>= second).Ensures s done stuck := by
  unfold Ensures at hFirst ⊢
  rw [run_bind]
  cases hRun : first.run s with
  | mk result t =>
      rw [hRun] at hFirst
      cases result with
      | ok a => exact hSecond a t hFirst
      | error d => exact hFirst

/- A change of the session ensures what holds after it. -/
theorem ensures_update
    {f : Session → Session}
    {hLeft : ∀ s, (f s).left = s.left}
    {done : Unit → Session → Prop}
    (hDone : done () (f s)) :
    (update f hLeft).Ensures s done stuck := hDone

/- A rule after a change starts with the changed session. -/
theorem ensures_update_bind
    {f : Session → Session}
    {hLeft : ∀ s, (f s).left = s.left}
    {second : Unit → Production α}
    (hSecond : (second ()).Ensures (f s) done stuck) :
    (update f hLeft >>= second).Ensures s done stuck := hSecond

/- A choice by the session ensures what the chosen rule does. -/
theorem ensures_withSession
    {choose : Session → Production α}
    (hChoice : (choose s).Ensures s done stuck) :
    (withSession choose).Ensures s done stuck := hChoice

/- A choice by the current token ensures what is chosen does. -/
theorem ensures_withCurrent
    {choose : Token → Production α}
    (hChoice : (choose s.current).Ensures s done stuck) :
    (withCurrent choose).Ensures s done stuck := hChoice

/- A loop ensures what each round keeps. -/
theorem ensures_loop
    {goesOn : β → Session → Bool}
    {body : β → Production β}
    {hBody : ∀ b, (body b).Consumes (goesOn b · = true)}
    {kept : Session → Prop}
    (hRound :
      ∀ b s, goesOn b s = true → kept s →
        (body b).Ensures s (fun _ t => kept t) stuck)
    (b : β)
    (hKept : kept s) :
    (loop goesOn body hBody b).Ensures s (fun _ t => kept t)
      stuck := by
  unfold Ensures
  change
    match loopRun goesOn body hBody b s with
    | (.ok _, t) => kept t
    | (.error _, t) => stuck t
  fun_induction loopRun goesOn body hBody b s with
  | case1 b s hOn c t hRun ih =>
      have hNext := hRound b s hOn hKept
      rw [Ensures, hRun] at hNext
      exact ih hNext
  | case2 b s hOn d t hRun =>
      have hNext := hRound b s hOn hKept
      rwa [Ensures, hRun] at hNext
  | case3 b s hOff => exact hKept

------------------------------------------------------------
-- Tokens
------------------------------------------------------------

variable {start : Cursor}
variable {base : Session}
variable {earlier passed : List Token}

/-
  From a session where no name may follow the rule leads to such
  a session, or fails where all names are noted.
-/
def Settles
    (p : Production α)
    (start : Cursor)
    (base : Session) : Prop :=
  ∀ s, s.Settled start base →
    p.Ensures s (fun _ t => t.Settled start base)
      (·.Noted start base)

/- To move on passes the current token, or passes none. -/
theorem ensures_advance
    {done : Unit → Session → Prop}
    (hNotes : s.Notes start base earlier passed)
    (hDone :
      ∀ t, t.Notes start base earlier (passed ++ [s.current]) →
        done () t)
    (hStuck :
      ∀ t, t.Notes start base earlier passed → stuck t) :
    advance.Ensures s done stuck := by
  have hRun : advance.run s = s.advance := rfl
  rw [Ensures, hRun]
  cases hMove : s.advance with
  | mk result t =>
      cases result with
      | ok a => exact hDone t (hNotes.advance_ok hMove)
      | error d => exact hStuck t (hNotes.advance_error hMove)

/- A token is passed that is no further name, nor followed by one. -/
theorem ensures_pass_plain
    (hNotes : s.Notes start base passed passed)
    (hPlain :
      s.current.kind ≠ .ident ∨
        ∀ last ∈ passed.getLast?, last.kind.isNaming = false)
    (hNaming : s.current.kind.isNaming = false) :
    advance.Ensures s (fun _ t => t.Settled start base)
      (·.Noted start base) := by
  apply ensures_advance hNotes
  · intro t hPassed
    have hRecords := hPassed.records.snoc hPlain
    refine ⟨_, { hPassed with records := hRecords }, ?_⟩
    intro last hLast
    have hSame : s.current = last := by simpa using hLast
    rwa [← hSame]
  · exact fun t hStays => ⟨passed, hStays⟩

/- A token that is no name can be passed anywhere. -/
theorem ensures_pass
    (hNoted : s.Noted start base)
    (hName : s.current.kind ≠ .ident)
    (hNaming : s.current.kind.isNaming = false) :
    advance.Ensures s (fun _ t => t.Settled start base)
      (·.Noted start base) := by
  rcases hNoted with ⟨passed, hNotes⟩
  exact ensures_pass_plain hNotes (.inl hName) hNaming

/- Where no name may follow, an identifier can be passed too. -/
theorem settles_pass
    (hSettled : s.Settled start base)
    (hNaming : s.current.kind.isNaming = false) :
    advance.Ensures s (fun _ t => t.Settled start base)
      (·.Noted start base) := by
  rcases hSettled with ⟨passed, hNotes, hLast⟩
  exact ensures_pass_plain hNotes (.inr hLast) hNaming

end Production

namespace Grammar

open Production

variable {α : Type}
variable {start : Cursor}
variable {base s : Session}

/- A token of a kind that no name follows is read. -/
theorem settles_expect
    {kind : Kind}
    (hNaming : kind.isNaming = false) :
    (expect kind).Settles start base := by
  intro s hSettled
  apply ensures_withCurrent
  split
  · next hKind =>
    exact settles_pass hSettled (by rwa [hKind])
  · exact ensures_fail hSettled.noted

/- The name after a word is met, before anything is noted. -/
theorem ensures_expectIdent
    {word : Keyword}
    {before : List Token}
    {keyword : Token}
    (hWord : keyword.kind = .keyword word)
    (hNotes :
      s.Notes start base (before ++ [keyword])
        (before ++ [keyword])) :
    expectIdent.Ensures s
      (fun token t => t.Meets start base word token)
      (·.Noted start base) := by
  apply ensures_withCurrent
  have hMet :
      (expect .ident).Ensures s
        (fun _ t => t.Meets start base word s.current)
        (·.Noted start base) := by
    apply ensures_withCurrent
    split
    · next hIdent =>
      apply ensures_advance hNotes
      · intro t hBoth
        refine ⟨before, keyword, hWord, hIdent, ?_⟩
        simpa using hBoth
      · exact fun t hStays => ⟨_, hStays⟩
    · exact ensures_fail ⟨_, hNotes⟩
  apply ensures_bind hMet
  exact fun _ t hMeets => ensures_pure hMeets

/- A word that a name follows is passed with the name. -/
theorem ensures_naming
    {word : Keyword}
    {note : Token → Production α}
    {done : α → Session → Prop}
    (hNoted : s.Noted start base)
    (hWord : s.current.kind = .keyword word)
    (hNote :
      ∀ token t, t.Meets start base word token →
        (note token).Ensures t done (·.Noted start base)) :
    (do
      advance
      let token ← expectIdent
      note token : Production α).Ensures s done
        (·.Noted start base) := by
  rcases hNoted with ⟨passed, hNotes⟩
  have hKeyword :
      advance.Ensures s
        (fun _ t =>
          t.Notes start base (passed ++ [s.current])
            (passed ++ [s.current]))
        (·.Noted start base) := by
    apply ensures_advance hNotes
    · intro t hPassed
      exact
        { hPassed with
          records :=
            hPassed.records.snoc (.inl (by simp [hWord])) }
    · exact fun t hStays => ⟨passed, hStays⟩
  apply ensures_bind hKeyword
  intro _ t hPassed
  exact ensures_bind (ensures_expectIdent hWord hPassed) hNote

end Grammar

end TeenyC
