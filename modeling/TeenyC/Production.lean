import TeenyC.Session

/-
  Productions: the rules of the grammar as actions on a session.

  A production reads tokens and writes text, and yields a value
  or a diagnostic; what it did before a diagnostic is kept. It
  never adds to what is left to read, and the law stands in the
  type, so that a loop over productions ends because each round
  uses up a token.

  Key definitions include:
    * `Production`
    * `Production.bind`
    * `Production.update`
    * `Production.advance`
    * `Production.withCurrent`
    * `Production.Consumes`
    * `Production.loop`
-/

namespace TeenyC

/- A rule of the grammar, run on a session. -/
structure Production (α : Type) where
  run : Session → Except Diagnostic α × Session
  left_le : ∀ s, (run s).2.left ≤ s.left

namespace Production

variable {α β : Type}

------------------------------------------------------------
-- Sequencing
------------------------------------------------------------

/- Read and write nothing. -/
def pure (a : α) : Production α where
  run s := (.ok a, s)
  left_le _ := Nat.le_refl _

/- Run the second rule after the first unless the first fails. -/
def bindRun
    (first : Production α)
    (second : α → Production β)
    (s : Session) : Except Diagnostic β × Session :=
  match first.run s with
  | (.ok a, t) => (second a).run t
  | (.error d, t) => (.error d, t)

/- What is left only shrinks from rule to rule. -/
theorem left_bindRun_le
    (first : Production α)
    (second : α → Production β)
    (s : Session) :
    (bindRun first second s).2.left ≤ s.left := by
  have hFirst := first.left_le s
  unfold bindRun
  split
  · next a t hRun =>
    rw [hRun] at hFirst
    exact Nat.le_trans ((second a).left_le t) hFirst
  · next d t hRun =>
    rw [hRun] at hFirst
    exact hFirst

/- One rule after another. -/
def bind
    (first : Production α)
    (second : α → Production β) : Production β where
  run := bindRun first second
  left_le := left_bindRun_le first second

instance : Monad Production where
  pure := Production.pure
  bind := Production.bind

/- A rule that reads and writes nothing leaves the session. -/
@[simp]
theorem run_pure
    (a : α)
    (s : Session) :
    (Pure.pure a : Production α).run s = (.ok a, s) := rfl

/- Sequencing is running one rule after the other. -/
theorem run_bind
    (first : Production α)
    (second : α → Production β)
    (s : Session) :
    (first >>= second).run s =
      match first.run s with
      | (.ok a, t) => (second a).run t
      | (.error d, t) => (.error d, t) := rfl

------------------------------------------------------------
-- Single Steps
------------------------------------------------------------

/- Change what does not bear on reading. -/
def update
    (f : Session → Session)
    (hLeft : ∀ s, (f s).left = s.left) : Production Unit where
  run s := (.ok (), f s)
  left_le s := Nat.le_of_eq (hLeft s)

/- Fail with a diagnostic. -/
def fail (d : Diagnostic) : Production α where
  run s := (.error d, s)
  left_le _ := Nat.le_refl _

/- Move on by one token. -/
def advance : Production Unit where
  run := Session.advance
  left_le := Session.left_advance_le

/- Choose the rule by the state of the session. -/
def withSession (choose : Session → Production α) : Production α where
  run s := (choose s).run s
  left_le s := (choose s).left_le s

/- Choose the rule by the current token. -/
def withCurrent (choose : Token → Production α) : Production α :=
  withSession fun s => choose s.current

/- Add text to the body. -/
def emit (text : String) : Production Unit :=
  update (Session.emit text) fun _ => rfl

/- Add a line to the body. -/
def emitLine (text : String) : Production Unit :=
  update (Session.emitLine text) fun _ => rfl

/- Add a line to the header. -/
def headerLine (text : String) : Production Unit :=
  update (Session.headerLine text) fun _ => rfl

/- Make a report. -/
def report (event : Event) : Production Unit :=
  update (Session.report event) fun _ => rfl

/- Declare a variable. -/
def declare (name : String) : Production Unit :=
  update (Session.declare name) fun s => by
    unfold Session.declare
    split <;> rfl

/- Add a label. -/
def addLabel (name : String) : Production Unit :=
  update (Session.addLabel name) fun _ => rfl

/- Add a jump. -/
def addJump (jump : Jump) : Production Unit :=
  update (Session.addJump jump) fun _ => rfl

------------------------------------------------------------
-- Consumption
------------------------------------------------------------

/-
  A rule consumes under a condition when it cannot succeed
  there without using up a token.
-/
def Consumes
    (p : Production α)
    (condition : Session → Prop) : Prop :=
  ∀ s a t, condition s → p.run s = (.ok a, t) → t.left < s.left

/- Moving on from a token consumes it. -/
theorem consumes_advance :
    advance.Consumes fun s => s.current.kind ≠ .eof := by
  intro s a t hKind hRun
  have hLt := @Session.left_advance_lt s hKind
  change s.advance = (.ok a, t) at hRun
  rw [hRun] at hLt
  exact hLt rfl

/- A sequence consumes when its first rule does. -/
theorem Consumes.bind
    {first : Production α}
    {condition : Session → Prop}
    (hFirst : first.Consumes condition)
    (second : α → Production β) :
    (first >>= second).Consumes condition := by
  intro s b t hCondition hRun
  rw [run_bind] at hRun
  split at hRun
  · next a u hOk =>
    have hLt := hFirst s a u hCondition hOk
    have hLe := (second a).left_le u
    rw [hRun] at hLe
    exact Nat.lt_of_le_of_lt hLe hLt
  · cases hRun

/- A change before a rule that consumes does not matter. -/
theorem Consumes.update_bind
    {second : Production α}
    {condition : Session → Prop}
    (hSecond : second.Consumes condition)
    {f : Session → Session}
    (hLeft : ∀ s, (f s).left = s.left)
    (hKept : ∀ s, condition s → condition (f s)) :
    (update f hLeft >>= fun _ => second).Consumes condition := by
  intro s a t hCondition hRun
  have hLt := hSecond (f s) a t (hKept s hCondition) hRun
  rwa [hLeft s] at hLt

/- A choice consumes when every rule it may choose does. -/
theorem Consumes.withCurrent
    {choose : Token → Production α}
    {condition : Session → Prop}
    (hChoice :
      ∀ token,
        (choose token).Consumes fun s =>
          condition s ∧ s.current = token) :
    (withCurrent choose).Consumes condition := by
  intro s a t hCondition hRun
  exact hChoice s.current s a t ⟨hCondition, rfl⟩ hRun

/- A stronger condition keeps a rule consuming. -/
theorem Consumes.mono
    {p : Production α}
    {weak strong : Session → Prop}
    (hConsumes : p.Consumes weak)
    (hImplies : ∀ s, strong s → weak s) :
    p.Consumes strong := by
  intro s a t hStrong hRun
  exact hConsumes s a t (hImplies s hStrong) hRun

/- A rule that fails consumes under any condition. -/
theorem consumes_fail
    (d : Diagnostic)
    (condition : Session → Prop) :
    (fail d : Production α).Consumes condition := by
  intro s a t _ hRun
  cases hRun

------------------------------------------------------------
-- Loops
------------------------------------------------------------

/- Run rounds of a rule as long as the session calls for one. -/
def loopRun
    (goesOn : β → Session → Bool)
    (body : β → Production β)
    (hBody : ∀ b, (body b).Consumes (goesOn b · = true))
    (b : β)
    (s : Session) : Except Diagnostic β × Session :=
  if _hOn : goesOn b s = true then
    match _hRun : (body b).run s with
    | (.ok c, t) => loopRun goesOn body hBody c t
    | (.error d, t) => (.error d, t)
  else (.ok b, s)
termination_by s.left
decreasing_by exact hBody b s c t _hOn _hRun

/- A loop never adds to what is left. -/
theorem left_loopRun_le
    (goesOn : β → Session → Bool)
    (body : β → Production β)
    (hBody : ∀ b, (body b).Consumes (goesOn b · = true))
    (b : β)
    (s : Session) :
    (loopRun goesOn body hBody b s).2.left ≤ s.left := by
  fun_induction loopRun goesOn body hBody b s with
  | case1 b s hOn c t hRun ih =>
      have hLt := hBody b s c t hOn hRun
      omega
  | case2 b s hOn d t hRun =>
      have hLe := (body b).left_le s
      rwa [hRun] at hLe
  | case3 b s hOff => exact Nat.le_refl _

/- Rounds of a rule, each handing its value to the next. -/
def loop
    (goesOn : β → Session → Bool)
    (body : β → Production β)
    (hBody : ∀ b, (body b).Consumes (goesOn b · = true))
    (b : β) : Production β where
  run := loopRun goesOn body hBody b
  left_le := left_loopRun_le goesOn body hBody b

/- A loop is no round, or one round and the loop again. -/
theorem run_loop
    (goesOn : β → Session → Bool)
    (body : β → Production β)
    (hBody : ∀ b, (body b).Consumes (goesOn b · = true))
    (b : β)
    (s : Session) :
    (loop goesOn body hBody b).run s =
      if goesOn b s = true then
        (body b >>= loop goesOn body hBody).run s
      else (.ok b, s) := by
  change loopRun goesOn body hBody b s = _
  rw [loopRun, run_bind]
  by_cases hOn : goesOn b s = true
  · simp only [hOn, dif_pos, if_true]
    split <;> simp_all [loop]
  · simp only [hOn, dif_neg, not_false_eq_true, if_false,
      Bool.false_eq_true]

end Production

end TeenyC
