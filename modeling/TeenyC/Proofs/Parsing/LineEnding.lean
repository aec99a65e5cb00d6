import TeenyC.Proofs.Parsing.Opened
import TeenyC.Proofs.Token.LineEnding

/-
  Line endings do not matter to a compilation.

  Two sessions that differ in their cursors only run alike as
  long as the cursors answer alike: rules that move on in good
  order do nothing by the cursor but ask it for tokens. So a
  program compiles to the same text, or fails for the same
  reason, or at a fault on the same line, whether its lines end
  with carriage returns or not.

  Key definitions include:
    * `Session.Alike`
    * `Diagnostic.Level`
    * `Production.Alike`

  Key theorems include:
    * `Production.Orderly.alike`
    * `sameOr_compile`
    * `line_endings_do_not_matter`
-/

namespace TeenyC

------------------------------------------------------------
-- Sessions that Run Alike
------------------------------------------------------------

variable {Related : Cursor → Cursor → Prop}

/- Sessions that differ in nothing but cursors that are related. -/
inductive Session.Alike
    (Related : Cursor → Cursor → Prop)
    (s : Session) : Session → Prop
| look
    {cursor : Cursor}
    (hRelated : Related s.cursor cursor) :
    Alike Related s (s.look cursor s.ahead)

/- A blind change keeps sessions alike. -/
theorem Session.Alike.update
    {s t : Session}
    {f : Session → Session}
    (hBlind : Session.Blind f)
    (hAlike : s.Alike Related t) :
    (f s).Alike Related (f t) := by
  obtain ⟨hCursor, hAhead⟩ := hBlind.kept s
  cases hAlike with
  | look hRelated =>
      rw [hBlind.look, ← hAhead]
      exact .look (by rwa [hCursor])

/- Faults of tokens on one line, or else the same diagnostic. -/
inductive Diagnostic.Level : Diagnostic → Diagnostic → Prop
| same
    {d : Diagnostic}
    (hOther : ∀ e, d ≠ .lexical e) :
    Level d d
| lexical
    {e f : LexError}
    (hLevel : e.Level f) :
    Level (.lexical e) (.lexical f)

namespace Production

/-
  The results of two runs that are alike: the same value with
  sessions that are alike again, or diagnostics that are level.
-/
inductive Alike
    {α : Type}
    (Related : Cursor → Cursor → Prop) :
    Except Diagnostic α × Session →
      Except Diagnostic α × Session → Prop
| ok
    {a : α}
    {s t : Session}
    (hSessions : s.Alike Related t) :
    Alike Related (.ok a, s) (.ok a, t)
| error
    {d e : Diagnostic}
    {s t : Session}
    (hLevel : d.Level e) :
    Alike Related (.error d, s) (.error e, t)

variable {α β : Type}
variable {s t : Session}

/- A sequence runs alike if both of its rules do. -/
theorem alike_bind
    {first : Production α}
    {second : α → Production β}
    (hFirst : Alike Related (first.run s) (first.run t))
    (hSecond : ∀ a u v, first.run s = (.ok a, u) →
      u.Alike Related v →
        Alike Related ((second a).run u) ((second a).run v)) :
    Alike Related ((first >>= second).run s)
      ((first >>= second).run t) := by
  rw [run_bind, run_bind]
  rcases hLeft : first.run s with ⟨item, u⟩
  rcases hRight : first.run t with ⟨other, v⟩
  rw [hLeft, hRight] at hFirst
  cases hFirst with
  | ok hSessions => exact hSecond _ _ _ hLeft hSessions
  | error hLevel => exact .error hLevel

/-
  A loop runs alike if its rounds do, and if it goes on by what
  the sessions share. The induction is on what is left to read.
-/
theorem alike_loop
    {goesOn : β → Session → Bool}
    {body : β → Production β}
    {hBody : ∀ b, (body b).Consumes (goesOn b · = true)}
    (hBlind : ∀ b s cursor ahead,
      goesOn b (s.look cursor ahead) = goesOn b s)
    (hRound : ∀ b s t, goesOn b s = true → s.Alike Related t →
      Alike Related ((body b).run s) ((body b).run t))
    (b : β)
    (hAlike : s.Alike Related t) :
    Alike Related ((loop goesOn body hBody b).run s)
      ((loop goesOn body hBody b).run t) := by
  induction hSize : s.left using Nat.strongRecOn
    generalizing b s t with
  | ind size ih =>
      have hSame : goesOn b t = goesOn b s := by
        cases hAlike
        apply hBlind
      rw [run_loop, run_loop, hSame]
      by_cases hOn : goesOn b s = true
      · rw [if_pos hOn, if_pos hOn]
        apply alike_bind (hRound b s t hOn hAlike)
        intro c u v hRun hMore
        exact ih _ (hSize ▸ hBody b s c u hOn hRun) c hMore rfl
      · rw [if_neg hOn, if_neg hOn]
        exact .ok hAlike

section Answers

variable
  (hStep : ∀ c d, Related c d →
    Item.Alike Related c.nextToken d.nextToken)
include hStep

/- Sessions move on alike if their cursors answer alike. -/
theorem alike_advance (hAlike : s.Alike Related t) :
    Alike Related s.advance t.advance := by
  cases hAlike with
  | @look cursor hRelated =>
      have hItems := hStep s.cursor cursor hRelated
      unfold Session.advance Session.look
      dsimp only
      generalize s.cursor.nextToken = answer at hItems ⊢
      generalize cursor.nextToken = other at hItems ⊢
      cases hItems with
      | token hMore => exact .ok (.look hMore)
      | fault hLevel => exact .error (.lexical hLevel)

/- An orderly rule runs alike if the cursors answer alike. -/
theorem Orderly.alike
    {p : Production α}
    {token : Token}
    (hOrderly : p.Orderly token)
    (hToken : s.current = token)
    (hAlike : s.Alike Related t) :
    Alike Related (p.run s) (p.run t) := by
  induction hOrderly generalizing s t with
  | pure a => exact .ok hAlike
  | fail hOther => exact .error (.same hOther)
  | update hBlind => exact .ok (hAlike.update hBlind)
  | advance => exact alike_advance hStep hAlike
  | bind _ _ hFirst hSecond =>
      apply alike_bind (hFirst hToken hAlike)
      intro a u v _ hMore
      exact hSecond a u.current rfl hMore
  | update_bind hBlind _ hSecond =>
      exact
        hSecond ((hBlind.current s).trans hToken)
          (hAlike.update hBlind)
  | @withSession _ _ choose hBlind _ hChoice =>
      have hSame : choose t = choose s := by
        cases hAlike
        apply hBlind
      change Alike Related ((choose s).run s) ((choose t).run t)
      rw [hSame]
      exact hChoice s hToken hToken hAlike
  | loop hBlind _ b hRound =>
      exact
        alike_loop hBlind
          (fun b s t hOn => hRound b s hOn rfl) b hAlike

end Answers

/- Runs that are alike have verdicts that are the same or level. -/
theorem Alike.verdict
    {r q : Except Diagnostic Unit × Session}
    (hAlike : Alike Related r q) :
    SameOr Diagnostic.Level (verdict r) (verdict q) := by
  cases hAlike with
  | ok hSessions =>
      cases hSessions
      exact .ok _
  | error hLevel => exact .error hLevel

end Production

------------------------------------------------------------
-- Compilations
------------------------------------------------------------

/-
  Programs whose cursors go on answering alike compile to the
  same text, or fail alike.
-/
theorem sameOr_compile
    (hStep : ∀ c d, Related c d →
      Item.Alike Related c.nextToken d.nextToken)
    {first second : String}
    (hStart :
      Related (Cursor.start first) (Cursor.start second)) :
    SameOr Diagnostic.Level (compile first) (compile second) := by
  have hFirst := hStep _ _ hStart
  rcases hNext : (Cursor.start first).nextToken with ⟨item, c⟩
  rcases hOther : (Cursor.start second).nextToken with ⟨other, d⟩
  rw [hNext, hOther] at hFirst
  cases hFirst with
  | fault hLevel =>
      rw [compile_of_error hNext, compile_of_error hOther]
      exact .error (.lexical hLevel)
  | @token token _ _ hMore =>
      have hSessions :
          (Session.opening token c).Alike Related
            (Session.opening token d) := .look hMore
      have hOpen :
          (Session.opening token c).current.kind ≠ .eof := by
        simp [Session.opening]
      rw [compile_of_ok hNext, compile_of_ok hOther]
      exact
        ((Grammar.orderly_opened hOpen).alike hStep rfl
          hSessions).verdict

/-
  Carriage returns before the line breaks do not matter. A scan
  has the same tokens, or both scans fail on the same line. A
  compilation has the same text, or fails with the same
  diagnostic, but for the fault of a token, which is one on the
  same line.
-/
theorem line_endings_do_not_matter (source : String) :
    (∀ tokens,
        tokenize (withReturns source) = .ok tokens ↔
          tokenize source = .ok tokens) ∧
      (∀ e, tokenize source = .error e →
        ∃ f, tokenize (withReturns source) = .error f ∧
          f.line = e.line) ∧
      (∀ text, compile source = .ok text →
        compile (withReturns source) = .ok text) ∧
      (∀ d, compile source = .error d →
        (∀ e, d ≠ .lexical e) →
          compile (withReturns source) = .error d) ∧
      ∀ e, compile source = .error (.lexical e) →
        ∃ f, compile (withReturns source) = .error (.lexical f) ∧
          f.line = e.line := by
  have hTokens := sameOr_tokenize_withReturns source
  have hCompile : SameOr Diagnostic.Level _ _ :=
    sameOr_compile (fun _ _ hSame => hSame.nextToken)
      (Cursor.sameLines_start source)
  refine ⟨hTokens.eq_ok_iff, ?_, ?_, ?_, ?_⟩
  · intro e hError
    obtain ⟨f, hFault, hLevel⟩ := hTokens.exists_error hError
    exact ⟨f, hFault, hLevel.symm⟩
  · intro text hText
    exact (hCompile.eq_ok_iff text).mpr hText
  · intro d hError hOther
    obtain ⟨e, hFailed, hLevel⟩ := hCompile.exists_error hError
    cases hLevel with
    | same => exact hFailed
    | lexical => exact absurd rfl (hOther _)
  · intro e hError
    obtain ⟨d, hFailed, hLevel⟩ := hCompile.exists_error hError
    cases hLevel with
    | same hOther => exact absurd rfl (hOther e)
    | lexical hLevel => exact ⟨_, hFailed, hLevel.symm⟩

end TeenyC
