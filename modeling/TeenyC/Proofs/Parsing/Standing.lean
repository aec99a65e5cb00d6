import TeenyC.Proofs.Parsing.History

/-
  Where a session stands.

  A session stands at a draft when it follows a history to the
  draft, knows the names of the history, and has written a given
  text and made given reports. After a name it may have moved on
  before it notes the name, and awaits to do so.

  Key definitions include:
    * `Session.Knows`
    * `Session.Permits`
    * `Session.record`
    * `Session.Wrote`
    * `Session.Stands`
    * `Session.Awaits`

  Key theorems include:
    * `Session.Knows.permits_iff`
    * `Session.Knows.record`
    * `Session.Awaits.record`
-/

namespace TeenyC

open TeenyC.Tree

------------------------------------------------------------
-- Names
------------------------------------------------------------

/- The names in a session are those of the history. -/
structure Session.Knows
    (history : History)
    (s : Session) : Prop where
  named : Leaf.WellNamed history.leaves
  vars : s.vars = (Leaf.targets history.leaves).eraseDups
  labels : s.labels = Leaf.labels history.leaves
  jumps : s.jumps = history.jumps
  header :
    s.artifact.header =
      Statements.preamble ++
        String.join (s.vars.map Statements.declaration)

/- A session that knows the names allows a leaf. -/
def Session.Permits (s : Session) : Leaf → Prop
| .operand name => name ∈ s.vars
| .label name => name ∉ s.labels
| _ => True

/- The session with the name of a leaf noted. -/
def Session.record
    (placed : Placed)
    (s : Session) : Session :=
  match placed.leaf with
  | .target name => s.declare name
  | .label name => s.addLabel name
  | .jump name => s.addJump { label := name, line := placed.line }
  | _ => s

namespace Session

variable {start : Cursor}
variable {history : History}
variable {placed : Placed}
variable {s : Session}

/- Names that are listed without repetition, and one more. -/
theorem eraseDups_snoc
    (names : List String)
    (name : String) :
    (names ++ [name]).eraseDups =
      if name ∈ names then names.eraseDups
      else names.eraseDups ++ [name] := by
  rw [List.eraseDups_append]
  by_cases hMember : name ∈ names
  · simp [hMember, List.removeAll]
  · simp [hMember, List.removeAll, List.eraseDups_cons]

/- The session permits what the history allows. -/
theorem Knows.permits_iff
    (hKnows : s.Knows history)
    (leaf : Leaf) :
    s.Permits leaf ↔ leaf.Allowed history.leaves := by
  cases leaf with
  | operand name =>
      change name ∈ s.vars ↔ .target name ∈ history.leaves
      rw [hKnows.vars, List.mem_eraseDups,
        Leaf.mem_targets_iff]
  | label name =>
      change name ∉ s.labels ↔ .label name ∉ history.leaves
      rw [hKnows.labels, Leaf.mem_labels_iff]
  | _ => exact Iff.rfl

/- A session that declares a target knows it. -/
theorem Knows.declare
    {name : String}
    (hKnows : s.Knows history)
    (hLeaf : placed.leaf = .target name)
    (hNamed : Leaf.WellNamed (History.leaves (history ++ [placed]))) :
    (s.declare name).Knows (history ++ [placed]) := by
  have hTargets :
      Leaf.targets (History.leaves (history ++ [placed])) =
        Leaf.targets history.leaves ++ [name] := by
    simp [hLeaf, Leaf.target?]
  have hLabels :
      Leaf.labels (History.leaves (history ++ [placed])) =
        Leaf.labels history.leaves := by
    simp [hLeaf, Leaf.label?]
  have hJumps :
      History.jumps (history ++ [placed]) = history.jumps := by
    simp [hLeaf, Placed.jump?, Leaf.jump?]
  have hKnown :
      name ∈ s.vars ↔ name ∈ Leaf.targets history.leaves := by
    rw [hKnows.vars, List.mem_eraseDups]
  unfold Session.declare
  by_cases hMember : name ∈ s.vars
  · rw [if_pos (List.contains_iff_mem.mpr hMember)]
    refine ⟨hNamed, ?_, ?_, ?_, hKnows.header⟩
    · rw [hTargets, eraseDups_snoc, if_pos (hKnown.mp hMember)]
      exact hKnows.vars
    · rw [hLabels, hKnows.labels]
    · rw [hJumps, hKnows.jumps]
  · rw [if_neg (fun hIn => hMember (List.contains_iff_mem.mp hIn))]
    refine ⟨hNamed, ?_, ?_, ?_, ?_⟩
    · rw [hTargets, eraseDups_snoc,
        if_neg (fun hIn => hMember (hKnown.mpr hIn)),
        ← hKnows.vars]
    · rw [hLabels, ← hKnows.labels]
    · rw [hJumps, ← hKnows.jumps]
    · simp [Artifact.headerLine, hKnows.header,
        Statements.declaration, codeLine, String.append_assoc]

/- A session that adds a label knows it. -/
theorem Knows.addLabel
    {name : String}
    (hKnows : s.Knows history)
    (hLeaf : placed.leaf = .label name)
    (hNamed : Leaf.WellNamed (History.leaves (history ++ [placed]))) :
    (s.addLabel name).Knows (history ++ [placed]) where
  named := hNamed
  vars := by simp [hLeaf, Leaf.target?, Session.addLabel, hKnows.vars]
  labels := by
    simp [hLeaf, Leaf.label?, Session.addLabel, hKnows.labels]
  jumps := by
    simp [hLeaf, Placed.jump?, Leaf.jump?, Session.addLabel,
      hKnows.jumps]
  header := hKnows.header

/- A session that adds a jump knows it. -/
theorem Knows.addJump
    {name : String}
    (hKnows : s.Knows history)
    (hLeaf : placed.leaf = .jump name)
    (hNamed : Leaf.WellNamed (History.leaves (history ++ [placed]))) :
    (s.addJump { label := name, line := placed.line }).Knows
      (history ++ [placed]) where
  named := hNamed
  vars := by simp [hLeaf, Leaf.target?, Session.addJump, hKnows.vars]
  labels := by
    simp [hLeaf, Leaf.label?, Session.addJump, hKnows.labels]
  jumps := by
    simp [hLeaf, Placed.jump?, Leaf.jump?, Session.addJump,
      hKnows.jumps]
  header := hKnows.header

/- A session that notes a permitted leaf knows it. -/
theorem Knows.record
    (hKnows : s.Knows history)
    (hPermits : s.Permits placed.leaf) :
    (s.record placed).Knows (history ++ [placed]) := by
  have hNamed :
      Leaf.WellNamed (History.leaves (history ++ [placed])) := by
    rw [History.leaves_snoc, Leaf.wellNamed_snoc_iff]
    exact ⟨hKnows.named, (hKnows.permits_iff _).mp hPermits⟩
  rcases placed with ⟨leaf, line⟩
  cases leaf with
  | target name => exact hKnows.declare rfl hNamed
  | label name => exact hKnows.addLabel rfl hNamed
  | jump name => exact hKnows.addJump rfl hNamed
  | _ =>
      refine ⟨hNamed, ?_, ?_, ?_, hKnows.header⟩
      · simp [Session.record, Leaf.target?, hKnows.vars]
      · simp [Session.record, Leaf.label?, hKnows.labels]
      · simp [Session.record, Placed.jump?, Leaf.jump?,
          hKnows.jumps]

------------------------------------------------------------
-- Standing at a Draft
------------------------------------------------------------

/- The body that has been written and the reports made. -/
structure Wrote
    (text : String)
    (events : List Event)
    (s : Session) : Prop where
  body : s.artifact.body = text
  events : s.events.toList = events

/-
  The session stands at a draft. The leaves may have led to
  another draft that reads the token at hand in the same way.
-/
def Stands
    (start : Cursor)
    (draft : Draft)
    (text : String)
    (events : List Event)
    (s : Session) : Prop :=
  ∃ history passed,
    s.Follows start history passed ∧
      passed.read s.current.word = draft.read s.current.word ∧
        s.Knows history ∧ s.Wrote text events

/- The session has passed a leaf that it has yet to note. -/
def Awaits
    (start : Cursor)
    (placed : Placed)
    (draft : Draft)
    (text : String)
    (events : List Event)
    (s : Session) : Prop :=
  ∃ history,
    s.Follows start (history ++ [placed]) draft ∧
      s.Knows history ∧ s.Wrote text events

/- The session with more text and more reports. -/
def write
    (text : String)
    (events : List Event)
    (s : Session) : Session :=
  { s with
    artifact := s.artifact.emit text
    events := s.events ++ events.toArray }

/- Writing keeps the token at hand. -/
@[simp]
theorem write_current
    (text : String)
    (events : List Event)
    (s : Session) :
    (s.write text events).current = s.current := rfl

/- To emit is to write text. -/
theorem emit_eq_write
    (text : String)
    (s : Session) :
    s.emit text = s.write text [] := by
  simp [emit, write]

/- To emit a line is to write it with its break. -/
theorem emitLine_eq_write
    (text : String)
    (s : Session) :
    s.emitLine text = s.write (codeLine text) [] := by
  simp [emitLine, write, Artifact.emitLine, Artifact.emit,
    codeLine, String.append_assoc]

/- To report is to write a report. -/
theorem report_eq_write
    (event : Event)
    (s : Session) :
    s.report event = s.write "" [event] := by
  simp [report, write, Artifact.emit]

variable {draft next : Draft}
variable {text more : String}
variable {events later : List Event}

/- Text that is written comes after what has been written. -/
theorem Wrote.emit
    (hWrote : s.Wrote text events)
    (more : String) :
    (s.write more []).Wrote (text ++ more) events := by
  constructor
  · simp [Session.write, Artifact.emit, hWrote.body]
  · simp [Session.write, hWrote.events]

/- A report that is made comes after those made before. -/
theorem Wrote.report
    (hWrote : s.Wrote text events)
    (event : Event) :
    (s.write "" [event]).Wrote text (events ++ [event]) := by
  constructor
  · simp [Session.write, Artifact.emit, hWrote.body]
  · simp [Session.write, hWrote.events]

/- Writing changes no names. -/
theorem Knows.write
    (hKnows : s.Knows history) :
    (s.write more later).Knows history :=
  { hKnows with }

/- Writing moves past no token. -/
theorem Follows.write
    (hFollows : s.Follows start history draft) :
    (s.write more later).Follows start history draft :=
  { hFollows with }

/- A session that writes text stands where it stood. -/
theorem Stands.emit
    (hStands : s.Stands start draft text events)
    (more : String) :
    (s.write more []).Stands start draft (text ++ more)
      events := by
  rcases hStands with
    ⟨history, passed, hFollows, hRead, hKnows, hWrote⟩
  exact
    ⟨history, passed, hFollows.write, hRead, hKnows.write,
      hWrote.emit more⟩

/- A session that makes a report stands where it stood. -/
theorem Stands.report
    (hStands : s.Stands start draft text events)
    (event : Event) :
    (s.write "" [event]).Stands start draft text
      (events ++ [event]) := by
  rcases hStands with
    ⟨history, passed, hFollows, hRead, hKnows, hWrote⟩
  exact
    ⟨history, passed, hFollows.write, hRead, hKnows.write,
      hWrote.report event⟩

/- A session that writes text still awaits to note its leaf. -/
theorem Awaits.emit
    (hAwaits : s.Awaits start placed draft text events)
    (more : String) :
    (s.write more []).Awaits start placed draft (text ++ more)
      events := by
  rcases hAwaits with ⟨history, hFollows, hKnows, hWrote⟩
  exact
    ⟨history, hFollows.write, hKnows.write, hWrote.emit more⟩

/- A session stands at every draft that reads alike. -/
theorem Stands.turn
    (hStands : s.Stands start draft text events)
    (hRead :
      draft.read s.current.word = next.read s.current.word) :
    s.Stands start next text events := by
  rcases hStands with
    ⟨history, passed, hFollows, hAlike, hKnows, hWrote⟩
  exact
    ⟨history, passed, hFollows, hAlike.trans hRead, hKnows,
      hWrote⟩

/- The token at hand is a leaf whose text its kind settles. -/
theorem Stands.fixed_word
    (hStands : s.Stands start draft text events)
    (leaf : Leaf)
    (hKind : s.current.kind = leaf.kind)
    (hFixed : leaf.IsFixed) :
    leaf.word = s.current.word := by
  rcases hStands with ⟨history, passed, hFollows, _⟩
  have hPlays : leaf.Plays s.current.word :=
    ⟨hKind.symm, .inl hFixed⟩
  exact hPlays.word_eq hFollows.spelled

/- To note a name is not to read, and not to write. -/
theorem record_kept
    (placed : Placed)
    (s : Session) :
    (s.record placed).cursor = s.cursor ∧
      (s.record placed).current = s.current ∧
        (s.record placed).ahead = s.ahead ∧
          (s.record placed).artifact.body = s.artifact.body ∧
            (s.record placed).events = s.events := by
  unfold record
  split
  · unfold declare
    split <;> exact ⟨rfl, rfl, rfl, rfl, rfl⟩
  all_goals exact ⟨rfl, rfl, rfl, rfl, rfl⟩

/- A session that notes its leaf stands after it. -/
theorem Awaits.record
    (hAwaits : s.Awaits start placed draft text events)
    (hPermits : s.Permits placed.leaf) :
    (s.record placed).Stands start draft text events := by
  rcases hAwaits with ⟨history, hFollows, hKnows, hWrote⟩
  obtain ⟨hCursor, hCurrent, hAhead, hBody, hEvents⟩ :=
    record_kept placed s
  refine
    ⟨history ++ [placed], draft,
      ⟨?_, hFollows.path, hFollows.unfinished⟩, rfl,
      hKnows.record hPermits, ?_⟩
  · rw [hCursor, hCurrent, hAhead]
    exact hFollows.supplied
  · exact ⟨hBody.trans hWrote.body, hEvents ▸ hWrote.events⟩

/- A session that moves on awaits to note what it passed. -/
theorem Stands.advance
    {leaf : Leaf}
    {t : Session}
    (hStands : s.Stands start draft text events)
    (hRead : draft.read s.current.word = .ok (leaf, next))
    (hLeaf : leaf ≠ .finish)
    (hMove : s.advance = (.ok (), t)) :
    t.Awaits start { leaf := leaf, line := s.current.line } next
      text events := by
  rcases hStands with
    ⟨history, passed, hFollows, hAlike, hKnows, hWrote⟩
  refine
    ⟨history,
      hFollows.advance (hAlike.trans hRead) hLeaf hMove, ?_⟩
  unfold Session.advance at hMove
  split at hMove
  · cases hMove
    exact ⟨{ hKnows with }, { hWrote with }⟩
  · cases hMove

end Session

end TeenyC
