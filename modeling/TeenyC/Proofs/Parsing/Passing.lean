import TeenyC.Proofs.Parsing.Orderly
import TeenyC.Proofs.Token.Feed

/-
  How a program is read: token by token, round by round.

  A run of a rule is taken apart into its steps. Each move from a
  token leaves a mark, whether it succeeds or not, and so does
  each completed round of a loop. A rule that moves on in good
  order tries no move at the end of input. So a round that moved
  on from nothing would leave all that is left to read, and there
  is none, and no run makes more moves than there are bytes ahead
  and two tokens at hand.

  Key definitions include:
    * `Mark`
    * `Mark.Steady`
    * `Production.Performs`
    * `Grammar.CompletesRound`
    * `Grammar.ReadsStatement`

  Key theorems include:
    * `Production.Performs.left_add_le`
    * `Production.Performs.feeds`
    * `Production.Orderly.performs`
    * `Grammar.CompletesRound.passed_ne_nil`
    * `Grammar.program_moves_on`
-/

namespace TeenyC

------------------------------------------------------------
-- Marks
------------------------------------------------------------

/-
  What is to be seen of a run: a token that it moved on from, a
  token that it tried to move on from in vain, and behind each
  completed round of a loop the tokens that the round passed.
-/
inductive Mark where
| moved (token : Token)
| stuck (token : Token)
| round (passed : List Token)
deriving DecidableEq

namespace Mark

/- The token that has been moved on from. -/
def passed? : Mark → Option Token
| .moved token => some token
| .stuck _ | .round _ => none

/- The tokens that have been moved on from, in their order. -/
def passed (marks : List Mark) : List Token :=
  marks.filterMap passed?

/-
  No move is tried from the end of input, and no round passes
  nothing.
-/
def Steady : Mark → Prop
| .moved token | .stuck token => token.kind ≠ .eof
| .round passed => passed ≠ []

variable {marks more : List Mark}

/- The tokens of two runs are those of the one, then the other. -/
theorem passed_append :
    passed (marks ++ more) = passed marks ++ passed more :=
  List.filterMap_append

/- The mark of a round is no token of its own. -/
theorem passed_round
    (tokens : List Token) :
    passed (marks ++ .round tokens :: more) =
      passed marks ++ passed more :=
  List.filterMap_append

end Mark

namespace Production

------------------------------------------------------------
-- Runs
------------------------------------------------------------

/-
  The runs of a rule, step by step: from a session, over the
  marks they leave, to their result. What is no move is blind to
  the cursor and to the token ahead.
-/
inductive Performs :
    {α : Type} → Production α → Session → List Mark →
      Except Diagnostic α × Session → Prop
| pure
    {α : Type}
    (a : α)
    (s : Session) :
    Performs (Pure.pure a) s [] (.ok a, s)
| fail
    {α : Type}
    (d : Diagnostic)
    (s : Session) :
    Performs (Production.fail d : Production α) s [] (.error d, s)
| update
    {f : Session → Session}
    {hLeft : ∀ s, (f s).left = s.left}
    (hBlind : Session.Blind f)
    (s : Session) :
    Performs (Production.update f hLeft) s [] (.ok (), f s)
| moved
    {s t : Session}
    (hMove : s.advance = (.ok (), t)) :
    Performs Production.advance s [.moved s.current] (.ok (), t)
| stuck
    {s t : Session}
    {d : Diagnostic}
    (hMove : s.advance = (.error d, t)) :
    Performs Production.advance s [.stuck s.current] (.error d, t)
| choice
    {α : Type}
    {choose : Session → Production α}
    {s : Session}
    {marks : List Mark}
    {r : Except Diagnostic α × Session}
    (hChoice : Performs (choose s) s marks r) :
    Performs (withSession choose) s marks r
| bind
    {α β : Type}
    {first : Production α}
    {second : α → Production β}
    {s t : Session}
    {a : α}
    {marks more : List Mark}
    {r : Except Diagnostic β × Session}
    (hFirst : Performs first s marks (.ok a, t))
    (hSecond : Performs (second a) t more r) :
    Performs (first >>= second) s (marks ++ more) r
| broken
    {α β : Type}
    {first : Production α}
    {second : α → Production β}
    {s t : Session}
    {d : Diagnostic}
    {marks : List Mark}
    (hFirst : Performs first s marks (.error d, t)) :
    Performs (first >>= second) s marks (.error d, t)
| finished
    {β : Type}
    {goesOn : β → Session → Bool}
    {body : β → Production β}
    {hBody : ∀ b, (body b).Consumes (goesOn b · = true)}
    {b : β}
    {s : Session}
    (hOff : goesOn b s = false) :
    Performs (loop goesOn body hBody b) s [] (.ok b, s)
| round
    {β : Type}
    {goesOn : β → Session → Bool}
    {body : β → Production β}
    {hBody : ∀ b, (body b).Consumes (goesOn b · = true)}
    {b c : β}
    {s t : Session}
    {marks more : List Mark}
    {r : Except Diagnostic β × Session}
    (hOn : goesOn b s = true)
    (hRound : Performs (body b) s marks (.ok c, t))
    (hMore : Performs (loop goesOn body hBody c) t more r) :
    Performs (loop goesOn body hBody b) s
      (marks ++ .round (Mark.passed marks) :: more) r
| halt
    {β : Type}
    {goesOn : β → Session → Bool}
    {body : β → Production β}
    {hBody : ∀ b, (body b).Consumes (goesOn b · = true)}
    {b : β}
    {s t : Session}
    {d : Diagnostic}
    {marks : List Mark}
    (hOn : goesOn b s = true)
    (hRound : Performs (body b) s marks (.error d, t)) :
    Performs (loop goesOn body hBody b) s marks (.error d, t)

variable {α : Type}
variable {p : Production α}
variable {s : Session}
variable {marks : List Mark}
variable {r : Except Diagnostic α × Session}

namespace Performs

/- The steps of a run lead to the result of the rule. -/
theorem run_eq (hRun : Performs p s marks r) : p.run s = r := by
  induction hRun with
  | pure | fail | update => rfl
  | moved hMove | stuck hMove => exact hMove
  | choice _ hChoice => exact hChoice
  | bind _ _ hFirst hSecond =>
      rw [run_bind, hFirst]
      exact hSecond
  | broken _ hFirst => rw [run_bind, hFirst]
  | finished hOff => rw [run_loop, hOff, if_neg Bool.false_ne_true]
  | round hOn _ _ hRound hMore =>
      rw [run_loop, if_pos hOn, run_bind, hRound]
      exact hMore
  | halt hOn _ hRound =>
      rw [run_loop, if_pos hOn, run_bind, hRound]

------------------------------------------------------------
-- What Is Left to Read
------------------------------------------------------------

/- A run that succeeds without a move leaves all that is left. -/
theorem left_eq
    (hRun : Performs p s marks r)
    (hNone : Mark.passed marks = [])
    {a : α}
    (hOk : r.1 = .ok a) :
    r.2.left = s.left := by
  induction hRun with
  | pure => rfl
  | @update f hLeft hBlind s => exact hLeft s
  | choice _ hChoice => exact hChoice hNone hOk
  | bind _ _ hFirst hSecond =>
      rw [Mark.passed_append, List.append_eq_nil_iff] at hNone
      exact (hSecond hNone.2 hOk).trans (hFirst hNone.1 rfl)
  | finished => rfl
  | round _ _ _ hRound hMore =>
      rw [Mark.passed_round, List.append_eq_nil_iff] at hNone
      exact (hMore hNone.2 hOk).trans (hRound hNone.1 rfl)
  | moved => cases hNone
  | fail | stuck | broken | halt => cases hOk

/- Each token that a run passes is one less to read. -/
theorem left_add_le
    (hRun : Performs p s marks r)
    (hSteady : ∀ mark ∈ marks, mark.Steady) :
    r.2.left + (Mark.passed marks).length ≤ s.left := by
  induction hRun with
  | pure | fail | finished => exact Nat.le_refl _
  | @update f hLeft hBlind s => exact Nat.le_of_eq (hLeft s)
  | @moved s t hMove =>
      have hOpen : s.current.kind ≠ .eof :=
        hSteady _ (List.mem_singleton.mpr rfl)
      have hLess := Session.left_advance_lt hOpen
      rw [hMove] at hLess
      exact hLess rfl
  | @stuck s t d hMove =>
      have hLess := Session.left_advance_le s
      rwa [hMove] at hLess
  | choice _ hChoice => exact hChoice hSteady
  | bind _ _ hFirst hSecond =>
      rw [List.forall_mem_append] at hSteady
      have hFirst := hFirst hSteady.1
      have hSecond := hSecond hSteady.2
      rw [Mark.passed_append, List.length_append]
      dsimp only at hFirst
      omega
  | broken _ hFirst => exact hFirst hSteady
  | round _ _ _ hRound hMore =>
      rw [List.forall_mem_append, List.forall_mem_cons] at hSteady
      have hRound := hRound hSteady.1
      have hMore := hMore hSteady.2.2
      rw [Mark.passed_round, List.length_append]
      dsimp only at hRound
      omega
  | halt _ _ hRound => exact hRound hSteady

------------------------------------------------------------
-- What the Cursor Gives
------------------------------------------------------------

/-
  A run passes the current token, the one ahead and what the
  cursor gives in between, but for the last two of these.
-/
theorem feeds
    (hRun : Performs p s marks r)
    {start : Cursor}
    {given : List Token}
    (hFeeds : start.Feeds given s.cursor) :
    ∃ supplied,
      start.Feeds (given ++ supplied) r.2.cursor ∧
        s.current :: s.ahead :: supplied =
          Mark.passed marks ++ [r.2.current, r.2.ahead] := by
  induction hRun generalizing given with
  | pure | fail | finished =>
      exact ⟨[], by rwa [List.append_nil], rfl⟩
  | @update f hLeft hBlind s =>
      obtain ⟨hCursor, hAhead⟩ := hBlind.kept s
      refine ⟨[], ?_, ?_⟩
      · rwa [List.append_nil, hCursor]
      · rw [hBlind.current, hAhead]
        rfl
  | @moved s t hMove =>
      unfold Session.advance at hMove
      split at hMove
      · next token next hToken =>
        cases hMove
        exact ⟨[token], hFeeds.token hToken, rfl⟩
      · cases hMove
  | @stuck s t d hMove =>
      unfold Session.advance at hMove
      split at hMove
      · cases hMove
      · next e next hFault =>
        cases hMove
        refine ⟨[], ?_, rfl⟩
        rw [List.append_nil]
        exact hFeeds.fault hFault
  | choice _ hChoice => exact hChoice hFeeds
  | bind _ _ hFirst hSecond =>
      obtain ⟨early, hEarly, hPassed⟩ := hFirst hFeeds
      obtain ⟨late, hLate, hMore⟩ := hSecond hEarly
      refine ⟨early ++ late, by rwa [← List.append_assoc], ?_⟩
      rw [Mark.passed_append, List.append_assoc, ← hMore]
      simpa using congrArg (· ++ late) hPassed
  | broken _ hFirst => exact hFirst hFeeds
  | round _ _ _ hRound hMore =>
      obtain ⟨early, hEarly, hPassed⟩ := hRound hFeeds
      obtain ⟨late, hLate, hRest⟩ := hMore hEarly
      refine ⟨early ++ late, by rwa [← List.append_assoc], ?_⟩
      rw [Mark.passed_round, List.append_assoc, ← hRest]
      simpa using congrArg (· ++ late) hPassed
  | halt _ _ hRound => exact hRound hFeeds

end Performs

------------------------------------------------------------
-- Orderly Rules
------------------------------------------------------------

/- A round that uses up a token moves on from one. -/
theorem Performs.passed_ne_nil
    {condition : Session → Prop}
    {a : α}
    {t : Session}
    (hRun : Performs p s marks (.ok a, t))
    (hConsumes : p.Consumes condition)
    (hCondition : condition s) :
    Mark.passed marks ≠ [] := by
  intro hNone
  have hLess := hConsumes s a t hCondition hRun.run_eq
  have hSame := hRun.left_eq hNone rfl
  dsimp only at hSame
  omega

/- A loop is performed steadily if its rounds are. -/
theorem performs_loop
    {β : Type}
    {goesOn : β → Session → Bool}
    {body : β → Production β}
    {hBody : ∀ b, (body b).Consumes (goesOn b · = true)}
    (hRound : ∀ b s, goesOn b s = true →
      ∃ marks, Performs (body b) s marks ((body b).run s) ∧
        ∀ mark ∈ marks, mark.Steady)
    (b : β)
    (s : Session) :
    ∃ marks,
      Performs (loop goesOn body hBody b) s marks
          ((loop goesOn body hBody b).run s) ∧
        ∀ mark ∈ marks, mark.Steady := by
  induction hSize : s.left using Nat.strongRecOn
    generalizing b s with
  | ind size ih =>
      rw [run_loop]
      cases hOn : goesOn b s with
      | false => exact ⟨[], .finished hOn, by simp⟩
      | true =>
          obtain ⟨marks, hPerforms, hSteady⟩ := hRound b s hOn
          rw [if_pos rfl, run_bind]
          rcases hRun : (body b).run s with ⟨item, t⟩
          rw [hRun] at hPerforms
          cases item with
          | error d => exact ⟨marks, .halt hOn hPerforms, hSteady⟩
          | ok c =>
              have hLess := hBody b s c t hOn hRun
              obtain ⟨more, hMore, hRest⟩ :=
                ih _ (hSize ▸ hLess) c t rfl
              refine ⟨_, .round hOn hPerforms hMore, ?_⟩
              rw [List.forall_mem_append, List.forall_mem_cons]
              exact
                ⟨hSteady,
                  hPerforms.passed_ne_nil (hBody b) hOn, hRest⟩

/- An orderly rule is performed steadily. -/
theorem Orderly.performs
    {token : Token}
    (hOrderly : p.Orderly token)
    (hToken : s.current = token) :
    ∃ marks,
      Performs p s marks (p.run s) ∧
        ∀ mark ∈ marks, mark.Steady := by
  induction hOrderly generalizing s with
  | pure a => exact ⟨[], .pure a s, by simp⟩
  | fail => exact ⟨[], .fail _ s, by simp⟩
  | update hBlind => exact ⟨[], .update hBlind s, by simp⟩
  | advance hOpen =>
      subst hToken
      change
        ∃ marks, Performs Production.advance s marks s.advance ∧ _
      rcases hMove : s.advance with ⟨item, t⟩
      cases item with
      | ok a =>
          refine ⟨_, .moved hMove, ?_⟩
          rw [List.forall_mem_singleton]
          exact hOpen
      | error d =>
          refine ⟨_, .stuck hMove, ?_⟩
          rw [List.forall_mem_singleton]
          exact hOpen
  | @bind _ _ _ first second _ _ hFirst hSecond =>
      obtain ⟨marks, hPerforms, hSteady⟩ := hFirst hToken
      rw [run_bind]
      rcases hRun : first.run s with ⟨item, t⟩
      rw [hRun] at hPerforms
      cases item with
      | error d => exact ⟨marks, .broken hPerforms, hSteady⟩
      | ok a =>
          obtain ⟨more, hMore, hRest⟩ :=
            hSecond a t.current (s := t) rfl
          refine ⟨_, .bind hPerforms hMore, ?_⟩
          rw [List.forall_mem_append]
          exact ⟨hSteady, hRest⟩
  | @update_bind _ _ f _ _ hBlind _ hSecond =>
      obtain ⟨marks, hPerforms, hSteady⟩ :=
        hSecond (s := f s) ((hBlind.current s).trans hToken)
      exact ⟨_, .bind (.update hBlind s) hPerforms, hSteady⟩
  | withSession _ _ hChoice =>
      obtain ⟨marks, hPerforms, hSteady⟩ :=
        hChoice s hToken hToken
      exact ⟨marks, .choice hPerforms, hSteady⟩
  | loop _ _ b hRound =>
      exact performs_loop (fun b s hOn => hRound b s hOn rfl) b s

end Production

namespace Grammar

open Production

------------------------------------------------------------
-- Rounds of Loops
------------------------------------------------------------

/-
  A round of one of the loops of the grammar is completed: the
  loop goes on, and what it repeats succeeds. There is one loop
  over line breaks, one over the operators of each level with
  their operands, and one over lines.
-/
inductive CompletesRound : Session → List Mark → Session → Prop
| newline
    {s t : Session}
    {marks : List Mark}
    (hOn : atNewline s = true)
    (hRound : Performs advance s marks (.ok (), t)) :
    CompletesRound s marks t
| link
    {joins : Kind → Bool}
    {operand : Production Unit}
    {s t : Session}
    {marks : List Mark}
    (hEof : joins .eof = false)
    (hOn : joins s.current.kind = true)
    (hRound : Performs (link operand) s marks (.ok (), t)) :
    CompletesRound s marks t
| line
    {blocks next : List Block}
    {s t : Session}
    {marks : List Mark}
    (hOn : hasLine blocks s = true)
    (hRound : Performs (line blocks) s marks (.ok next, t)) :
    CompletesRound s marks t

/- A round passes a token, in whatever steps it is performed. -/
theorem CompletesRound.passed_ne_nil
    {s t : Session}
    {marks : List Mark}
    (hCompletes : CompletesRound s marks t) :
    Mark.passed marks ≠ [] := by
  cases hCompletes with
  | newline hOn hRound =>
      exact hRound.passed_ne_nil consumes_advance_atNewline hOn
  | @link _ operand _ _ _ hEof hOn hRound =>
      exact
        hRound.passed_ne_nil (consumes_link hEof operand) hOn
  | @line blocks _ _ _ _ hOn hRound =>
      exact hRound.passed_ne_nil (consumes_line blocks) hOn

------------------------------------------------------------
-- Statements with What They Hold
------------------------------------------------------------

/-
  The lines that are read while more blocks are open than
  `outer`, back to where these alone are open. Each is a round of
  `lines`, so the statements of a block are stretches of rounds.
-/
inductive ReadsBack (outer : List Block) :
    List Block → Session → List Mark → Session → Prop
| back
    (s : Session) :
    ReadsBack outer outer s [] s
| line
    {inner next : List Block}
    {s t u : Session}
    {marks more : List Mark}
    (hInner : inner ≠ [])
    (hLine :
      Performs (line (inner ++ outer)) s marks (.ok next, t))
    (hMore : ReadsBack outer next t more u) :
    ReadsBack outer (inner ++ outer) s (marks ++ more) u

/-
  A statement is read to its end where some blocks are open: its
  first line, and if that opens a block, what the block holds and
  the line that closes it.
-/
inductive ReadsStatement (outer : List Block) :
    Session → List Mark → Session → Prop
| lines
    {next : List Block}
    {s t u : Session}
    {marks more : List Mark}
    (hOn : hasLine outer s = true)
    (hLine : Performs (line outer) s marks (.ok next, t))
    (hBack : ReadsBack outer next t more u) :
    ReadsStatement outer s (marks ++ more) u

/- A statement passes a token in its first line. -/
theorem ReadsStatement.passed_ne_nil
    {outer : List Block}
    {s t : Session}
    {marks : List Mark}
    (hReads : ReadsStatement outer s marks t) :
    Mark.passed marks ≠ [] := by
  cases hReads with
  | lines hOn hLine _ =>
      have hRound := CompletesRound.line hOn hLine
      rw [Mark.passed_append]
      exact
        List.append_ne_nil_of_left_ne_nil hRound.passed_ne_nil _

------------------------------------------------------------
-- Programs
------------------------------------------------------------

/-
  A call to read a program comes to its end from any session. It
  tries to move on only from tokens that are not the end of
  input. Each completed round of each loop passes a token, from
  any session and in any steps, and so does each statement, be it
  of the program or of a block. The tokens that the call passes
  are those at hand and what the cursor gives, but for the two
  that are at hand in the end. They are at most two more than the
  bytes ahead.
-/
theorem program_moves_on (s : Session) :
    ∃ marks supplied,
      Performs program s marks (program.run s) ∧
        (∀ mark ∈ marks, mark.Steady) ∧
        (∀ t others u,
          CompletesRound t others u → Mark.passed others ≠ []) ∧
        (∀ outer t others u,
          ReadsStatement outer t others u →
            Mark.passed others ≠ []) ∧
        s.cursor.Feeds supplied (program.run s).2.cursor ∧
        s.current :: s.ahead :: supplied =
          Mark.passed marks ++
            [(program.run s).2.current,
              (program.run s).2.ahead] ∧
        (Mark.passed marks).length ≤ s.cursor.bytesAhead + 2 := by
  obtain ⟨marks, hPerforms, hSteady⟩ :=
    (orderly_program s.current).performs (s := s) rfl
  have hNone : s.cursor.Feeds [] s.cursor := ⟨0, rfl⟩
  obtain ⟨supplied, hFeeds, hPassed⟩ := hPerforms.feeds hNone
  refine
    ⟨marks, supplied, hPerforms, hSteady,
      fun _ _ _ hCompletes => hCompletes.passed_ne_nil,
      fun _ _ _ _ hReads => hReads.passed_ne_nil, hFeeds,
      hPassed, ?_⟩
  have hLeft := hPerforms.left_add_le hSteady
  have hWeight (token : Token) : Session.weight token ≤ 1 := by
    unfold Session.weight
    split <;> omega
  have hCurrent := hWeight s.current
  have hAhead := hWeight s.ahead
  unfold Session.left at hLeft
  omega

end Grammar

end TeenyC
