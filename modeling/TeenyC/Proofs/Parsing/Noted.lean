import TeenyC.Production
import TeenyC.Proofs.CText.Line
import TeenyC.Proofs.Parsing.Standing
import TeenyC.Proofs.Token.Feed

/-
  What a session has noted of the tokens that it has passed.

  A session may be stopped by a diagnostic anywhere, and go on
  from there later. At every such place its variables, labels and
  jumps are the names that the passed tokens introduce, and it
  has only added to what it held before. It is a name behind only
  between passing a name and noting it, where nothing fails.

  Key definitions include:
    * `Session.Records`
    * `Session.Grows`
    * `Session.Notes`
    * `Session.Noted`
    * `Session.Settled`
    * `Session.Meets`

  Key theorems include:
    * `Session.Records.snoc`
    * `Session.Notes.advance_ok`
    * `Session.Meets.settled`
    * `Session.Meets.declare`
-/

namespace TeenyC

open TeenyC.CText

namespace Session

------------------------------------------------------------
-- Records
------------------------------------------------------------

/- The names of a session are those that tokens introduce. -/
structure Records
    (tokens : List Token)
    (s : Session) : Prop where
  jumps :
    s.jumps.map Jump.label = Token.introduced (· == .goto) tokens
  labels :
    s.labels = (Token.introduced (· == .label) tokens).eraseDups
  vars :
    s.vars = (Token.introduced Keyword.assigns tokens).eraseDups

/-
  A session has only added to what another held. Each variable
  that is new has a line of its own in the header.
-/
structure Grows (base s : Session) : Prop where
  declared :
    ∃ names,
      s.vars = base.vars ++ names ∧
        s.artifact.header =
          base.artifact.header ++
            Line.join (names.map .declare)
  labels : base.labels <+: s.labels
  body : ∃ more, s.artifact.body = base.artifact.body ++ more

/-
  A session that has passed tokens from a start on, the names of
  the first of them noted, and has grown from a base.
-/
structure Notes
    (s : Session)
    (start : Cursor)
    (base : Session)
    (noted passed : List Token) : Prop where
  feeds :
    start.Feeds (passed ++ [s.current, s.ahead]) s.cursor
  records : s.Records noted
  grows : base.Grows s

/- A session that has noted the names of all it has passed. -/
def Noted
    (s : Session)
    (start : Cursor)
    (base : Session) : Prop :=
  ∃ passed, s.Notes start base passed passed

/- A session that has noted all names, and no name may follow. -/
def Settled
    (s : Session)
    (start : Cursor)
    (base : Session) : Prop :=
  ∃ passed,
    s.Notes start base passed passed ∧
      ∀ last ∈ passed.getLast?, last.kind.isNaming = false

/- A session that is behind by a name that it passed after a word. -/
def Meets
    (s : Session)
    (start : Cursor)
    (base : Session)
    (word : Keyword)
    (name : Token) : Prop :=
  ∃ before keyword,
    keyword.kind = .keyword word ∧ name.kind = .ident ∧
      s.Notes start base (before ++ [keyword])
        (before ++ [keyword, name])

variable {start : Cursor}
variable {base s t : Session}
variable {earlier passed : List Token}
variable {token : Token}

/- Names that can be noted are noted where no name may follow. -/
theorem Settled.noted
    (hSettled : s.Settled start base) :
    s.Noted start base := by
  rcases hSettled with ⟨passed, hNotes, _⟩
  exact ⟨passed, hNotes⟩

/- A session has grown from itself. -/
theorem Grows.refl (s : Session) : s.Grows s where
  declared := ⟨[], by simp⟩
  labels := List.prefix_refl _
  body := ⟨"", by simp⟩

------------------------------------------------------------
-- Passing Tokens
------------------------------------------------------------

/- A token that is no name leaves the records as they are. -/
theorem Records.snoc
    (hRecords : s.Records passed)
    (hPlain :
      token.kind ≠ .ident ∨
        ∀ last ∈ passed.getLast?, last.kind.isNaming = false) :
    s.Records (passed ++ [token]) := by
  have hSame
      {introduces : Keyword → Bool}
      (hNaming :
        ∀ word, introduces word = true → word.isNaming = true) :
      Token.introduced introduces (passed ++ [token]) =
        Token.introduced introduces passed :=
    Token.introduced_snoc_plain hNaming hPlain
  constructor
  · rw [hSame (by simp [Keyword.isNaming])]
    exact hRecords.jumps
  · rw [hSame (by simp [Keyword.isNaming])]
    exact hRecords.labels
  · rw [hSame (by simp +contextual [Keyword.isNaming])]
    exact hRecords.vars

/- What is noted stays so if only tokens and reports change. -/
theorem Notes.moved
    (hNotes : s.Notes start base earlier passed)
    {more : List Token}
    (hFeeds : start.Feeds (more ++ [t.current, t.ahead]) t.cursor)
    (hArtifact : t.artifact = s.artifact)
    (hVars : t.vars = s.vars)
    (hLabels : t.labels = s.labels)
    (hJumps : t.jumps = s.jumps) :
    t.Notes start base earlier more := by
  rcases hNotes with ⟨_, ⟨jumps, labels, vars⟩, ⟨declared, kept, body⟩⟩
  rw [← hJumps] at jumps
  rw [← hLabels] at labels kept
  rw [← hVars] at vars
  rw [← hVars, ← hArtifact] at declared
  rw [← hArtifact] at body
  exact ⟨hFeeds, ⟨jumps, labels, vars⟩, ⟨declared, kept, body⟩⟩

/- To move on is to pass the current token. -/
theorem Notes.advance_ok
    (hNotes : s.Notes start base earlier passed)
    (hMoved : s.advance = (.ok (), t)) :
    t.Notes start base earlier (passed ++ [s.current]) := by
  unfold advance at hMoved
  split at hMoved
  · next token cursor hToken =>
    cases hMoved
    have hFeeds := hNotes.feeds.token hToken
    exact hNotes.moved (by simpa using hFeeds) rfl rfl rfl rfl
  · cases hMoved

/- Where no token can be read, none is passed. -/
theorem Notes.advance_error
    {d : Diagnostic}
    (hNotes : s.Notes start base earlier passed)
    (hStuck : s.advance = (.error d, t)) :
    t.Notes start base earlier passed := by
  unfold advance at hStuck
  split at hStuck
  · cases hStuck
  · next e cursor hFault =>
    cases hStuck
    have hFeeds := hNotes.feeds.fault hFault
    exact hNotes.moved hFeeds rfl rfl rfl rfl

------------------------------------------------------------
-- Writing
------------------------------------------------------------

/- Text that is added to the body keeps the growth. -/
theorem Grows.emit
    (hGrows : base.Grows s)
    (text : String) :
    base.Grows (s.emit text) where
  declared := hGrows.declared
  labels := hGrows.labels
  body := by
    rcases hGrows.body with ⟨more, hBody⟩
    refine ⟨more ++ text, ?_⟩
    rw [← String.append_assoc, ← hBody]
    rfl

/- What is noted stays so when text is added to the body. -/
theorem Notes.emit
    (hNotes : s.Notes start base earlier passed)
    (text : String) :
    (s.emit text).Notes start base earlier passed where
  feeds := hNotes.feeds
  records := ⟨hNotes.records.1, hNotes.records.2, hNotes.records.3⟩
  grows := hNotes.grows.emit text

/- A change that leaves noted what is noted. -/
def Quiet (f : Session → Session) : Prop :=
  ∀ s start base earlier passed,
    s.Notes start base earlier passed →
      (f s).Notes start base earlier passed

/- To emit text is quiet. -/
theorem quiet_emit (text : String) : Quiet (emit text) :=
  fun _ _ _ _ _ hNotes => hNotes.emit text

/- To emit a line is quiet. -/
theorem quiet_emitLine (text : String) :
    Quiet (emitLine text) := by
  intro s start base earlier passed hNotes
  have hBoth := (hNotes.emit text).emit "\n"
  exact hBoth

/- To make a report is quiet. -/
theorem quiet_report (event : Event) : Quiet (report event) :=
  fun _ _ _ _ _ hNotes =>
    hNotes.moved hNotes.feeds rfl rfl rfl rfl

variable {f : Session → Session}

/- Names stay noted in a quiet change. -/
theorem Noted.quiet
    (hNoted : s.Noted start base)
    (hQuiet : Quiet f) :
    (f s).Noted start base := by
  rcases hNoted with ⟨passed, hNotes⟩
  exact ⟨passed, hQuiet _ _ _ _ _ hNotes⟩

/- No name may follow after a quiet change, if none may before. -/
theorem Settled.quiet
    (hSettled : s.Settled start base)
    (hQuiet : Quiet f) :
    (f s).Settled start base := by
  rcases hSettled with ⟨passed, hNotes, hLast⟩
  exact ⟨passed, hQuiet _ _ _ _ _ hNotes, hLast⟩

variable {word : Keyword}

/- A name that is met stays so in a quiet change. -/
theorem Meets.quiet
    (hMeets : s.Meets start base word token)
    (hQuiet : Quiet f) :
    (f s).Meets start base word token := by
  rcases hMeets with ⟨before, keyword, hWord, hName, hNotes⟩
  exact
    ⟨before, keyword, hWord, hName, hQuiet _ _ _ _ _ hNotes⟩

------------------------------------------------------------
-- Noting Names
------------------------------------------------------------

section Names

variable {before : List Token}
variable {keyword name : Token}
variable {introduces : Keyword → Bool}

/- A name that is passed after a word is introduced by it. -/
theorem introduced_of_kinds
    (hWord : keyword.kind = .keyword word)
    (hName : name.kind = .ident) :
    Token.introduced introduces (before ++ [keyword, name]) =
      Token.introduced introduces (before ++ [keyword]) ++
        if introduces word then [name.text] else [] := by
  rw [List.append_cons, Token.introduced_snoc, Token.introduced?,
    hWord, hName]
  by_cases hIntroduces : introduces word = true <;>
    simp [hIntroduces]

/- A name that is introduced is listed last, if it is new. -/
theorem eraseDups_introduced
    (hWord : keyword.kind = .keyword word)
    (hName : name.kind = .ident)
    {known : List String}
    (hKnown :
      known =
        (Token.introduced introduces
          (before ++ [keyword])).eraseDups) :
    (Token.introduced introduces
        (before ++ [keyword, name])).eraseDups =
      if introduces word ∧ name.text ∉ known
      then known ++ [name.text]
      else known := by
  rw [introduced_of_kinds hWord hName]
  by_cases hIntroduces : introduces word = true
  · simp [hIntroduces, hKnown, eraseDups_snoc]
  · simp [hIntroduces, hKnown]

/-
  A name that is met is noted when it is listed with the jumps
  after a `GOTO`, and with the labels or the variables if it is
  introduced as one and is new.
-/
theorem Meets.settled
    (hMeets : s.Meets start base word token)
    (hCursor : t.cursor = s.cursor)
    (hCurrent : t.current = s.current)
    (hAhead : t.ahead = s.ahead)
    (hJumps :
      t.jumps.map Jump.label =
        s.jumps.map Jump.label ++
          if word == .goto then [token.text] else [])
    (hLabels :
      t.labels =
        if word == .label ∧ token.text ∉ s.labels
        then s.labels ++ [token.text]
        else s.labels)
    (hVars :
      t.vars =
        if word.assigns ∧ token.text ∉ s.vars
        then s.vars ++ [token.text]
        else s.vars)
    (hGrows : base.Grows s → base.Grows t) :
    t.Settled start base := by
  rcases hMeets with ⟨before, keyword, hWord, hName, hNotes⟩
  have hRecords := hNotes.records
  have hFeeds := hNotes.feeds
  rw [← hCursor, ← hCurrent, ← hAhead] at hFeeds
  refine ⟨_, ⟨hFeeds, ?_, hGrows hNotes.grows⟩, ?_⟩
  · constructor
    case jumps =>
      rw [hJumps, hRecords.jumps,
        introduced_of_kinds hWord hName]
    case labels =>
      rw [hLabels,
        eraseDups_introduced hWord hName hRecords.labels]
    case vars =>
      rw [hVars, eraseDups_introduced hWord hName hRecords.vars]
  · intro last hLast
    have hSame : token = last := by simpa using hLast
    rw [← hSame, hName]
    rfl

end Names

/- A jump that is met is noted. -/
theorem Meets.addJump
    (hMeets : s.Meets start base .goto token)
    (line : Nat) :
    (s.addJump { label := token.text, line := line }).Settled
      start base := by
  refine
    hMeets.settled rfl rfl rfl
      ?hJumps ?hLabels ?hVars ?hGrows
  case hJumps => simp [Session.addJump]
  case hLabels => rfl
  case hVars => rfl
  case hGrows =>
    exact fun hGrows =>
      ⟨hGrows.declared, hGrows.labels, hGrows.body⟩

/- A label that is met and not known is noted. -/
theorem Meets.addLabel
    (hMeets : s.Meets start base .label token)
    (hNew : token.text ∉ s.labels) :
    (s.addLabel token.text).Settled start base := by
  refine
    hMeets.settled rfl rfl rfl
      ?hJumps ?hLabels ?hVars ?hGrows
  case hJumps => simp [Session.addLabel]
  case hLabels => simp [Session.addLabel, hNew]
  case hVars => rfl
  case hGrows =>
    intro hGrows
    have hLonger := List.prefix_append s.labels [token.text]
    exact
      ⟨hGrows.declared, hGrows.labels.trans hLonger, hGrows.body⟩

/- A label that is met and known has been noted. -/
theorem Meets.known_label
    (hMeets : s.Meets start base .label token)
    (hKnown : token.text ∈ s.labels) :
    s.Settled start base := by
  refine
    hMeets.settled rfl rfl rfl
      ?hJumps ?hLabels ?hVars ?hGrows
  case hJumps => simp
  case hLabels => simp [hKnown]
  case hVars => rfl
  case hGrows => exact id

/- A variable that is declared has a header line if it is new. -/
theorem Grows.declare
    (hGrows : base.Grows s)
    (name : String) :
    base.Grows (s.declare name) := by
  unfold Session.declare
  split
  · exact hGrows
  · rcases hGrows with ⟨⟨names, hVars, hHeader⟩, hLabels, hBody⟩
    refine ⟨⟨names ++ [name], ?_, ?_⟩, hLabels, ?_⟩
    · simp only [hVars, List.append_assoc]
    · rw [Artifact.headerLine, hHeader, List.map_append,
        Line.join_append, String.append_assoc,
        String.append_assoc]
      rfl
    · simpa only [Artifact.headerLine] using hBody

/- A declaration changes the variables and the header only. -/
theorem declare_keeps (s : Session) (name : String) :
    (s.declare name).cursor = s.cursor ∧
      (s.declare name).current = s.current ∧
        (s.declare name).ahead = s.ahead ∧
          (s.declare name).jumps = s.jumps ∧
            (s.declare name).labels = s.labels := by
  unfold Session.declare
  split <;> exact ⟨rfl, rfl, rfl, rfl, rfl⟩

/- A variable that is declared is listed last, if it is new. -/
theorem vars_declare (s : Session) (name : String) :
    (s.declare name).vars =
      if name ∉ s.vars then s.vars ++ [name] else s.vars := by
  unfold Session.declare
  by_cases hKnown : name ∈ s.vars <;> simp [hKnown]

/- A variable that is met is noted when it is declared. -/
theorem Meets.declare
    (hMeets : s.Meets start base word token)
    (hAssigns : word.assigns = true) :
    (s.declare token.text).Settled start base := by
  have hJump : (word == .goto) = false := by
    cases word <;> first | rfl | cases hAssigns
  have hLabel : (word == .label) = false := by
    cases word <;> first | rfl | cases hAssigns
  obtain ⟨hCursor, hCurrent, hAhead, hJumps, hLabels⟩ :=
    s.declare_keeps token.text
  refine
    hMeets.settled hCursor hCurrent hAhead
      ?hJumps ?hLabels ?hVars ?hGrows
  case hJumps => simp [hJumps, hJump]
  case hLabels => simp [hLabels, hLabel]
  case hVars => simp [vars_declare, hAssigns]
  case hGrows => exact fun hGrows => hGrows.declare token.text

end Session

end TeenyC
