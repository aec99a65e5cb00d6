import TeenyC.Proofs.Parsing.Achieves

/-
  What the rules for single tokens and for the end of a line
  achieve.

  Key theorems include:
    * `Production.achieves_advance`
    * `Grammar.achieves_expect`
    * `Grammar.achieves_expectIdent`
    * `Grammar.achieves_endOfLine`
-/

namespace TeenyC

open TeenyC.Tree

------------------------------------------------------------
-- Moving On
------------------------------------------------------------

/- A leaf before the end without a name to note. -/
def Leaf.IsQuiet : Leaf → Prop
| .finish | .target _ | .label _ | .jump _ => False
| .newline | .number _ | .literal _ | .keyword _ | .sign _
| .operand _ => True

/- A session notes nothing for a quiet leaf. -/
theorem Session.record_of_isQuiet
    {placed : Placed}
    (hQuiet : placed.leaf.IsQuiet)
    (s : Session) :
    s.record placed = s := by
  rcases placed with ⟨leaf, line⟩
  cases leaf <;> first | rfl | exact hQuiet.elim

/- Moving on changes no names. -/
theorem Session.permits_of_advance
    {s t : Session}
    {result : Except Diagnostic Unit}
    (hMove : s.advance = (result, t))
    (leaf : Leaf) :
    t.Permits leaf ↔ s.Permits leaf := by
  unfold Session.advance at hMove
  split at hMove <;> cases hMove <;> cases leaf <;> exact Iff.rfl

section

variable {start : Cursor}
variable {draft next : Draft}
variable {leaf : Leaf}
variable {text : String}
variable {events : List Event}
variable {s : Session}

namespace Production

/- Moving on from a token leaves its part to be noted. -/
theorem achieves_advance_awaits
    (hStands : s.Stands start draft text events)
    (hRead : draft.read s.current.word = .ok (leaf, next))
    (hLeaf : leaf ≠ .finish) :
    advance.Achieves start s fun _ t =>
      t.Awaits start { leaf := leaf, line := s.current.line }
          next text events ∧
        (s.Permits leaf → t.Permits leaf) := by
  unfold Achieves
  rw [show advance.run s = s.advance from rfl]
  split
  · next a t hMove =>
    exact ⟨hStands.advance hRead hLeaf hMove,
      (Session.permits_of_advance hMove leaf).mpr⟩
  · next d t hMove =>
    rcases hStands with ⟨history, passed, hFollows, _⟩
    unfold Session.advance at hMove
    split at hMove
    · cases hMove
    · next hFault =>
      cases hMove
      exact .lexical hFollows.supplied hFault

/- Moving on from a token without a name to note. -/
theorem achieves_advance
    (hStands : s.Stands start draft text events)
    (hRead : draft.read s.current.word = .ok (leaf, next))
    (hQuiet : leaf.IsQuiet)
    (hPermits : s.Permits leaf) :
    advance.Achieves start s fun _ t =>
      t.Stands start next text events := by
  have hLeaf : leaf ≠ .finish := by
    intro hSame
    subst hSame
    exact hQuiet
  apply (achieves_advance_awaits hStands hRead hLeaf).mono
  intro _ t hPost
  rcases hPost with ⟨hAwaits, hKept⟩
  have hNoted := hAwaits.record (hKept hPermits)
  rwa [Session.record_of_isQuiet hQuiet] at hNoted

end Production

namespace Grammar

open Production

------------------------------------------------------------
-- Required Tokens
------------------------------------------------------------

/- A token of the required kind is read, and any other refused. -/
theorem achieves_expect
    {kind : Kind}
    (hStands : s.Stands start draft text events)
    (hRead :
      draft.read s.current.word =
        if s.current.kind = kind then .ok (leaf, next)
        else .error (.expected kind))
    (hQuiet : leaf.IsQuiet)
    (hPermits : s.Permits leaf) :
    (expect kind).Achieves start s fun _ t =>
      t.Stands start next text events := by
  apply achieves_withCurrent
  by_cases hKind : s.current.kind = kind
  · rw [if_pos hKind] at hRead ⊢
    exact achieves_advance hStands hRead hQuiet hPermits
  · rw [if_neg hKind] at hRead ⊢
    exact achieves_fail (hStands.refused hRead)

/- A name is read where one must follow. -/
theorem achieves_expectIdent
    {role : Naming}
    (hStands :
      s.Stands start (draft.move (.naming role)) text events) :
    expectIdent.Achieves start s fun token t =>
      t.Awaits start
        { leaf := role.leaf token.text, line := token.line }
        (draft.move (role.next token.text)) text events := by
  apply achieves_withCurrent
  apply achieves_bind
  apply achieves_withCurrent
  have hRead :
      (draft.move (.naming role)).read s.current.word =
        if s.current.kind = .ident then
          .ok
            (role.leaf s.current.text,
              draft.move (role.next s.current.text))
        else .error (.expected .ident) := rfl
  by_cases hKind : s.current.kind = .ident
  · rw [if_pos hKind] at hRead ⊢
    have hLeaf : role.leaf s.current.text ≠ .finish := by
      cases role <;> simp [Naming.leaf]
    apply (achieves_advance_awaits hStands hRead hLeaf).mono
    intro _ t hPost
    rcases hPost with ⟨hAwaits, _⟩
    exact achieves_pure hAwaits
  · rw [if_neg hKind] at hRead ⊢
    exact achieves_fail (hStands.refused hRead)

------------------------------------------------------------
-- Line Breaks
------------------------------------------------------------

/- At the margin line breaks are passed, all there are. -/
theorem achieves_skipNewlines
    (hStands : s.Stands start draft text events)
    (hSpot : draft.spot = .margin) :
    skipNewlines.Achieves start s fun _ t =>
      t.Stands start draft text events ∧
        t.current.kind ≠ .newline := by
  refine Achieves.mono
    (achieves_loop
      (fun _ t => t.Stands start draft text events)
      ?_ () s hStands) ?_
  · intro _ t hOn hAt
    have hKind : t.current.kind = .newline := by
      simpa [atNewline] using hOn
    have hRead :
        draft.read t.current.word = .ok (.newline, draft) := by
      simp [Draft.read, hSpot, Draft.readMargin, Token.word,
        hKind]
    exact achieves_advance hAt hRead trivial trivial
  · intro _ t hPost
    rcases hPost with ⟨hAt, hOff⟩
    refine ⟨hAt, ?_⟩
    simpa [atNewline] using hOff

/- A line ends where its end is required. -/
theorem achieves_endOfLine
    (hStands : s.Stands start draft text events)
    (hRead :
      draft.read s.current.word =
        Draft.readLineEnd next s.current.kind)
    (hSpot : next.spot = .margin) :
    endOfLine.Achieves start s fun _ t =>
      t.Stands start next text (events ++ [.newline]) ∧
        t.current.kind ≠ .newline := by
  apply achieves_report_bind
  apply achieves_bind
  apply
    (achieves_expect (hStands.report _) hRead trivial
      trivial).mono
  intro _ t hAt
  exact achieves_skipNewlines hAt hSpot

end Grammar

end

end TeenyC
