import TeenyC.Grammar.Terminal
import TeenyC.Proofs.Parsing.Standing

/-
  What productions achieve.

  A production achieves a condition if it either succeeds with
  the condition, or fails with a diagnostic that what has been
  read deserves.

  Key definitions include:
    * `Refused`
    * `Production.Achieves`

  Key theorems include:
    * `Production.achieves_bind`
    * `Production.achieves_loop`
    * `Production.achieves_advance`
-/

namespace TeenyC

open TeenyC.Tree

------------------------------------------------------------
-- Refusals
------------------------------------------------------------

/- What is wrong with a name that is not allowed. -/
def Leaf.offence : Leaf → NamingCause
| .label _ => .labelTwice
| _ => .unassigned

/-
  A diagnostic is deserved by the first token that cannot be
  read, that goes on from no draft, or that plays a part it is
  not allowed to play, and in a program without such a token by
  the first jump to no label. A token that can be read is met
  only after the token behind it has been read too.
-/
inductive Refused (start : Cursor) : Diagnostic → Prop
| lexical
    {tokens : List Token}
    {c next : Cursor}
    {e : LexError}
    (hSupplied : start.Supplies tokens c)
    (hFault : c.nextToken = (.error e, next)) :
    Refused start (.lexical e)
| grammar
    {history : History}
    {token ahead : Token}
    {more : List Token}
    {last : Cursor}
    {draft : Draft}
    {cause : GrammarCause}
    (hSupplied :
      start.Supplies (history.tokens ++ token :: ahead :: more)
        last)
    (hPath : Draft.start.Path history.leaves draft)
    (hUnfinished : .finish ∉ history.leaves)
    (hNamed : Leaf.WellNamed history.leaves)
    (hRead : draft.read token.word = .error cause) :
    Refused start (.grammar { cause := cause, found := token })
| naming
    {history : History}
    {placed : Placed}
    {ahead : Token}
    {more : List Token}
    {last : Cursor}
    {draft : Draft}
    (hSupplied :
      start.Supplies
        (history.tokens ++ placed.token :: ahead :: more) last)
    (hPath :
      Draft.start.Path (history.leaves ++ [placed.leaf]) draft)
    (hUnfinished : .finish ∉ history.leaves)
    (hNamed : Leaf.WellNamed history.leaves)
    (hOffends : ¬ placed.leaf.Allowed history.leaves) :
    Refused start
      (.naming
        { cause := placed.leaf.offence
          name := placed.leaf.text
          line := placed.line })
| stray
    {history : History}
    {program : Statements}
    {jump : Jump}
    (hReads : start.Reads history program)
    (hStray : history.stray? = some jump) :
    Refused start
      (.naming
        { cause := .labelMissing
          name := jump.label
          line := jump.line })

namespace Session

variable {start : Cursor}
variable {placed : Placed}
variable {draft next : Draft}
variable {leaf : Leaf}
variable {text : String}
variable {events : List Event}
variable {s : Session}

/- A token that the draft cannot read is refused. -/
theorem Stands.refused
    {cause : GrammarCause}
    (hStands : s.Stands start draft text events)
    (hRead : draft.read s.current.word = .error cause) :
    Refused start
      (.grammar { cause := cause, found := s.current }) := by
  rcases hStands with
    ⟨history, passed, hFollows, hAlike, hKnows, _⟩
  exact
    .grammar hFollows.supplied hFollows.path
      hFollows.unfinished hKnows.named (hAlike.trans hRead)

/- A name that the session does not permit is refused. -/
theorem Stands.refused_name
    (hStands : s.Stands start draft text events)
    (hRead : draft.read s.current.word = .ok (leaf, next))
    (hOffends : ¬ s.Permits leaf) :
    Refused start
      (.naming
        { cause := leaf.offence
          name := leaf.text
          line := s.current.line }) := by
  rcases hStands with
    ⟨history, passed, hFollows, hAlike, hKnows, _⟩
  rw [← hAlike] at hRead
  have hWord := Draft.word_of_read hFollows.spelled hRead
  have hSupplied := hFollows.supplied
  rw [← Placed.token_eq hWord] at hSupplied
  rw [hKnows.permits_iff] at hOffends
  rw [← hWord] at hRead
  exact
    .naming hSupplied (hFollows.path.snoc hRead)
      hFollows.unfinished hKnows.named hOffends

/- A name that the session has passed may be refused, too. -/
theorem Awaits.refused
    (hAwaits : s.Awaits start placed draft text events)
    (hOffends : ¬ s.Permits placed.leaf) :
    Refused start
      (.naming
        { cause := placed.leaf.offence
          name := placed.leaf.text
          line := placed.line }) := by
  rcases hAwaits with ⟨history, hFollows, hKnows, _⟩
  have hSupplied := hFollows.supplied
  have hPath := hFollows.path
  rw [History.tokens_snoc, List.append_assoc] at hSupplied
  rw [History.leaves_snoc] at hPath
  rw [hKnows.permits_iff] at hOffends
  have hUnfinished : .finish ∉ history.leaves := by
    intro hMember
    apply hFollows.unfinished
    rw [History.leaves_snoc]
    exact List.mem_append_left _ hMember
  exact
    .naming hSupplied hPath hUnfinished hKnows.named hOffends

end Session

------------------------------------------------------------
-- Achievements
------------------------------------------------------------

/- The production succeeds as it should, or is right to fail. -/
def Production.Achieves
    {α : Type}
    (p : Production α)
    (start : Cursor)
    (s : Session)
    (post : α → Session → Prop) : Prop :=
  match p.run s with
  | (.ok a, t) => post a t
  | (.error d, _) => Refused start d

namespace Production

variable {α β : Type}
variable {start : Cursor}
variable {s : Session}
variable {post : α → Session → Prop}

/- A weaker condition is achieved as well. -/
theorem Achieves.mono
    {p : Production α}
    {weak : α → Session → Prop}
    (hAchieves : p.Achieves start s post)
    (hWeak : ∀ a t, post a t → weak a t) :
    p.Achieves start s weak := by
  unfold Achieves at hAchieves ⊢
  split
  · next a t hRun =>
    rw [hRun] at hAchieves
    exact hWeak a t hAchieves
  · next d t hRun =>
    rwa [hRun] at hAchieves

/- A value is yielded where the condition holds. -/
theorem achieves_pure
    {a : α}
    (hPost : post a s) :
    (Pure.pure a : Production α).Achieves start s post :=
  hPost

/- A rule after another starts from what the first achieves. -/
theorem achieves_bind
    {first : Production α}
    {second : α → Production β}
    {last : β → Session → Prop}
    (hFirst :
      first.Achieves start s fun a t =>
        (second a).Achieves start t last) :
    (first >>= second).Achieves start s last := by
  unfold Achieves at hFirst ⊢
  rw [run_bind]
  split at hFirst
  · next a t hRun => simpa [hRun] using hFirst
  · next d t hRun => simpa [hRun] using hFirst

/- A rule that is right to fail achieves anything. -/
theorem achieves_fail
    {d : Diagnostic}
    (hRefused : Refused start d) :
    (fail d : Production α).Achieves start s post :=
  hRefused

/- A choice achieves what the chosen rule achieves. -/
theorem achieves_withSession
    {choose : Session → Production α}
    (hChosen : (choose s).Achieves start s post) :
    (withSession choose).Achieves start s post :=
  hChosen

/- A choice by the token achieves what the chosen rule does. -/
theorem achieves_withCurrent
    {choose : Token → Production α}
    (hChosen : (choose s.current).Achieves start s post) :
    (withCurrent choose).Achieves start s post :=
  hChosen

/- A rule may start by changing the session. -/
theorem achieves_update_bind
    {f : Session → Session}
    {hLeft : ∀ s, (f s).left = s.left}
    {rest : Unit → Production α}
    (hRest : (rest ()).Achieves start (f s) post) :
    (update f hLeft >>= rest).Achieves start s post :=
  hRest

/- A rule may start by emitting text. -/
theorem achieves_emit_bind
    {text : String}
    {rest : Unit → Production α}
    (hRest : (rest ()).Achieves start (s.write text []) post) :
    (emit text >>= rest).Achieves start s post := by
  rw [← Session.emit_eq_write] at hRest
  exact hRest

/- A rule may start by emitting a line. -/
theorem achieves_emitLine_bind
    {text : String}
    {rest : Unit → Production α}
    (hRest :
      (rest ()).Achieves start (s.write (codeLine text) [])
        post) :
    (emitLine text >>= rest).Achieves start s post := by
  rw [← Session.emitLine_eq_write] at hRest
  exact hRest

/- A rule may start with a report. -/
theorem achieves_report_bind
    {event : Event}
    {rest : Unit → Production α}
    (hRest : (rest ()).Achieves start (s.write "" [event]) post) :
    (report event >>= rest).Achieves start s post := by
  rw [← Session.report_eq_write] at hRest
  exact hRest

/- A line is emitted where the condition holds of it. -/
theorem achieves_emitLine
    {text : String}
    {last : Unit → Session → Prop}
    (hLast : last () (s.write (codeLine text) [])) :
    (emitLine text).Achieves start s last := by
  rw [← Session.emitLine_eq_write] at hLast
  exact hLast

/-
  A loop keeps what each of its rounds keeps, and stops where no
  round is called for.
-/
theorem achieves_loop
    {goesOn : β → Session → Bool}
    {body : β → Production β}
    {hBody : ∀ b, (body b).Consumes (goesOn b · = true)}
    (invariant : β → Session → Prop)
    (hRound :
      ∀ b s, goesOn b s = true → invariant b s →
        (body b).Achieves start s invariant)
    (b : β)
    (s : Session)
    (hInvariant : invariant b s) :
    (loop goesOn body hBody b).Achieves start s fun c t =>
      invariant c t ∧ goesOn c t = false := by
  change match loopRun goesOn body hBody b s with
    | (.ok a, t) => _
    | (.error d, _) => _
  fun_induction loopRun goesOn body hBody b s with
  | case1 b s hOn c t hRun ih =>
      have hKept := hRound b s hOn hInvariant
      unfold Achieves at hKept
      rw [hRun] at hKept
      exact ih hKept
  | case2 b s hOn d t hRun =>
      have hKept := hRound b s hOn hInvariant
      unfold Achieves at hKept
      rwa [hRun] at hKept
  | case3 b s hOff =>
      exact ⟨hInvariant, by simpa using hOff⟩

end Production

end TeenyC
