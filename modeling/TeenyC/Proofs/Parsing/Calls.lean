import TeenyC.Proofs.CText.Names
import TeenyC.Proofs.Parsing.Ensures

/-
  Programs read again and again by one session.

  A call to read a program may fail anywhere, and the next call
  goes on from the tokens where the session got stuck, with the
  names and the text of the calls before it. Every call adds the
  first two lines of a header and the declarations of the
  variables that are new. No variable is ever declared twice. A
  call that succeeds has a label for every jump of all calls.

  Key definitions include:
    * `Session.after`
    * `Session.addedLines`
    * `Session.FollowsCalls`
    * `Session.Extends`

  Key theorems include:
    * `Grammar.settles_expression`
    * `Grammar.ensures_line`
    * `Grammar.ensures_program`
    * `calls_keep_names`
-/

namespace TeenyC

open TeenyC.CText

namespace Grammar

open Production
open Session

variable {start : Cursor}
variable {base s : Session}

------------------------------------------------------------
-- Expressions
------------------------------------------------------------

/- A number or a variable is passed where no name may follow. -/
theorem settles_primary : primary.Settles start base := by
  intro s hSettled
  have hReported :=
    hSettled.quiet
      (quiet_report (.primary s.current.kind s.current.text))
  apply ensures_withSession
  apply ensures_update_bind
  split
  · next hKind =>
    apply ensures_update_bind
    apply settles_pass (hReported.quiet (quiet_emit _))
    change s.current.kind.isNaming = false
    rw [hKind]
    rfl
  · next hKind =>
    split
    · apply ensures_update_bind
      apply settles_pass (hReported.quiet (quiet_emit _))
      change s.current.kind.isNaming = false
      rw [hKind]
      rfl
    · exact ensures_fail hReported.noted
  · exact ensures_fail hReported.noted

/- No name follows an operator of a level. -/
theorem isNaming_of_joins
    {joins : Kind → Bool}
    (hJoins : ∀ word, joins (.keyword word) = false)
    {kind : Kind}
    (hKind : joins kind = true) :
    kind.isNaming = false := by
  cases kind with
  | keyword word => rw [hJoins word] at hKind; cases hKind
  | _ => rfl

/- An operand is passed with its sign. -/
theorem settles_unary : unary.Settles start base := by
  intro s hSettled
  have hReported := hSettled.quiet (quiet_report .unary)
  apply ensures_update_bind
  apply ensures_withCurrent
  split
  · next hSign =>
    apply ensures_update_bind
    apply ensures_bind
    · apply settles_pass (hReported.quiet (quiet_emit _))
      exact isNaming_of_joins (fun _ => rfl) hSign
    · exact fun _ t hPassed => settles_primary t hPassed
  · exact settles_primary _ hReported

/- A chain is passed if its operands are. -/
theorem settles_chain
    {joins : Kind → Bool}
    {hEof : joins .eof = false}
    (hJoins : ∀ word, joins (.keyword word) = false)
    {operand : Production Unit}
    (hOperand : operand.Settles start base) :
    (chain joins hEof operand).Settles start base := by
  intro s hSettled
  refine ensures_loop ?_ () hSettled
  intro _ t hOn hKept
  apply ensures_withCurrent
  apply ensures_update_bind
  apply ensures_bind
  · apply settles_pass (hKept.quiet (quiet_emit _))
    exact isNaming_of_joins hJoins hOn
  · exact fun _ u hPassed => hOperand u hPassed

/- Factors are passed. -/
theorem settles_term : term.Settles start base := by
  intro s hSettled
  apply ensures_update_bind
  apply ensures_bind
  · exact settles_unary _ (hSettled.quiet (quiet_report .term))
  · intro _ t hPassed
    exact settles_chain (fun _ => rfl) settles_unary t hPassed

/- An expression is passed. -/
theorem settles_expression :
    expression.Settles start base := by
  intro s hSettled
  apply ensures_update_bind
  apply ensures_bind
  · exact
      settles_term _ (hSettled.quiet (quiet_report .expression))
  · intro _ t hPassed
    exact settles_chain (fun _ => rfl) settles_term t hPassed

/- A comparison is passed. -/
theorem settles_comparison :
    comparison.Settles start base := by
  intro s hSettled
  apply ensures_update_bind
  apply ensures_bind
  · exact
      settles_expression _
        (hSettled.quiet (quiet_report .comparison))
  · intro _ t hPassed
    apply ensures_withCurrent
    split
    · exact
        settles_chain (fun _ => rfl) settles_expression t hPassed
    · exact ensures_fail hPassed.noted

------------------------------------------------------------
-- Lines
------------------------------------------------------------

/- What is noted stays so while line breaks are passed. -/
theorem ensures_skipNewlines
    (hNoted : s.Noted start base) :
    skipNewlines.Ensures s (fun _ t => t.Noted start base)
      (·.Noted start base) := by
  refine ensures_loop ?_ () hNoted
  intro _ t hOn hKept
  have hKind : t.current.kind = .newline := by
    simpa [atNewline] using hOn
  have hPassed :=
    ensures_pass hKept (by simp [hKind]) (by rw [hKind]; rfl)
  exact hPassed.mono fun _ _ => Settled.noted

/- What is noted stays so at the end of a line. -/
theorem ensures_endOfLine
    (hSettled : s.Settled start base) :
    endOfLine.Ensures s (fun _ t => t.Noted start base)
      (·.Noted start base) := by
  apply ensures_update_bind
  apply ensures_bind
  · exact
      settles_expect rfl _
        (hSettled.quiet (quiet_report .newline))
  · exact fun _ t hPassed => ensures_skipNewlines hPassed.noted

/- A word that no name follows starts a line. -/
theorem ensures_pass_word
    {word : Keyword}
    (hNoted : s.Noted start base)
    (hWord : s.current.kind = .keyword word)
    (hNaming : word.isNaming = false) :
    advance.Ensures s (fun _ t => t.Settled start base)
      (·.Noted start base) :=
  ensures_pass hNoted (by simp [hWord]) (by rwa [hWord])

/- What is noted stays so when something is printed. -/
theorem ensures_printStatement
    (hNoted : s.Noted start base)
    (hWord : s.current.kind = .keyword .print) :
    printStatement.Ensures s (fun _ t => t.Settled start base)
      (·.Noted start base) := by
  apply ensures_bind (ensures_pass_word hNoted hWord rfl)
  intro _ t hPassed
  apply ensures_withCurrent
  split
  · next hString =>
    apply ensures_update_bind
    apply settles_pass (hPassed.quiet (quiet_emitLine _))
    change t.current.kind.isNaming = false
    rw [hString]
    rfl
  · apply ensures_update_bind
    apply ensures_bind
    · exact settles_expression _ (hPassed.quiet (quiet_emit _))
    · intro _ u hValue
      exact ensures_update (hValue.quiet (quiet_emitLine _))

/- What is noted stays so when a block opens. -/
theorem ensures_openBlock
    {block : Block}
    {word : Keyword}
    (hNoted : s.Noted start base)
    (hWord : s.current.kind = .keyword word)
    (hNaming : word.isNaming = false) :
    (openBlock block).Ensures s (fun _ t => t.Noted start base)
      (·.Noted start base) := by
  have hSeparator :
      (Kind.keyword block.separator).isNaming = false := by
    cases block <;> rfl
  apply ensures_bind (ensures_pass_word hNoted hWord hNaming)
  intro _ t hPassed
  apply ensures_update_bind
  apply ensures_bind
  · exact settles_comparison _ (hPassed.quiet (quiet_emit _))
  intro _ t hCondition
  apply ensures_bind (settles_expect hSeparator t hCondition)
  intro _ t hSeparated
  apply ensures_bind (ensures_endOfLine hSeparated)
  intro _ t hLine
  exact ensures_update (hLine.quiet (quiet_emitLine _))

/- What is noted stays so when a block closes. -/
theorem ensures_closeBlock
    {block : Block}
    (hNoted : s.Noted start base)
    (hWord : s.current.kind = .keyword block.closer) :
    closeBlock.Ensures s (fun _ t => t.Noted start base)
      (·.Noted start base) := by
  have hCloser : block.closer.isNaming = false := by
    cases block <;> rfl
  apply ensures_bind (ensures_pass_word hNoted hWord hCloser)
  intro _ t hPassed
  apply ensures_update_bind
  exact ensures_endOfLine (hPassed.quiet (quiet_emitLine _))

/- A label is noted, if it is not known. -/
theorem ensures_labelStatement
    (hNoted : s.Noted start base)
    (hWord : s.current.kind = .keyword .label) :
    labelStatement.Ensures s (fun _ t => t.Settled start base)
      (·.Noted start base) := by
  apply ensures_naming hNoted hWord
  intro token t hMeets
  apply ensures_withSession
  split
  · next hKnown =>
    rw [List.contains_iff_mem] at hKnown
    exact ensures_fail (hMeets.known_label hKnown).noted
  · next hNew =>
    rw [List.contains_iff_mem] at hNew
    apply ensures_update_bind
    exact
      ensures_update
        ((hMeets.quiet (quiet_emitLine _)).addLabel hNew)

/- A jump is noted. -/
theorem ensures_gotoStatement
    (hNoted : s.Noted start base)
    (hWord : s.current.kind = .keyword .goto) :
    gotoStatement.Ensures s (fun _ t => t.Settled start base)
      (·.Noted start base) := by
  apply ensures_naming hNoted hWord
  intro token t hMeets
  apply ensures_update_bind
  exact
    ensures_update
      ((hMeets.quiet (quiet_emitLine _)).addJump token.line)

/- A variable is noted before its value is read. -/
theorem ensures_letStatement
    (hNoted : s.Noted start base)
    (hWord : s.current.kind = .keyword .letKw) :
    letStatement.Ensures s (fun _ t => t.Settled start base)
      (·.Noted start base) := by
  apply ensures_naming hNoted hWord
  intro token t hMeets
  have hDeclared := hMeets.declare rfl
  apply ensures_update_bind
  apply ensures_update_bind
  apply ensures_bind
  · exact
      settles_expect rfl _ (hDeclared.quiet (quiet_emit _))
  intro _ u hAssign
  apply ensures_bind (settles_expression u hAssign)
  intro _ v hValue
  exact ensures_update (hValue.quiet (quiet_emitLine _))

/- A variable is noted before a number is read into it. -/
theorem ensures_inputStatement
    (hNoted : s.Noted start base)
    (hWord : s.current.kind = .keyword .input) :
    inputStatement.Ensures s (fun _ t => t.Settled start base)
      (·.Noted start base) := by
  apply ensures_naming hNoted hWord
  intro token t hMeets
  have hDeclared := hMeets.declare rfl
  apply ensures_update_bind
  apply ensures_update_bind
  apply ensures_update_bind
  apply ensures_update_bind
  apply ensures_update
  iterate 4 refine Settled.quiet ?_ (quiet_emitLine _)
  exact hDeclared

/- A statement on a line of its own ends with the line. -/
theorem ensures_simple
    {first : Production Unit}
    {blocks : List Block}
    (hFirst :
      first.Ensures s (fun _ t => t.Settled start base)
        (·.Noted start base)) :
    (do
      first
      endOfLine
      return blocks : Production (List Block)).Ensures s
        (fun _ t => t.Noted start base)
        (·.Noted start base) := by
  apply ensures_bind hFirst
  intro _ t hStatement
  apply ensures_bind (ensures_endOfLine hStatement)
  exact fun _ u hLine => ensures_pure hLine

/- All names are noted after each statement. -/
theorem ensures_statement
    (blocks : List Block)
    (hNoted : s.Noted start base) :
    (statement s.current blocks).Ensures s
      (fun _ t => t.Noted start base) (·.Noted start base) := by
  unfold statement
  split
  · next hWord =>
    exact ensures_simple (ensures_printStatement hNoted hWord)
  · next hWord =>
    apply ensures_bind (ensures_openBlock hNoted hWord rfl)
    exact fun _ t hOpened => ensures_pure hOpened
  · next hWord =>
    apply ensures_bind (ensures_openBlock hNoted hWord rfl)
    exact fun _ t hOpened => ensures_pure hOpened
  · next hWord =>
    exact ensures_simple (ensures_labelStatement hNoted hWord)
  · next hWord =>
    exact ensures_simple (ensures_gotoStatement hNoted hWord)
  · next hWord =>
    exact ensures_simple (ensures_letStatement hNoted hWord)
  · next hWord =>
    exact ensures_simple (ensures_inputStatement hNoted hWord)
  · exact ensures_fail hNoted

/- All names are noted after each line. -/
theorem ensures_line
    (blocks : List Block)
    (hNoted : s.Noted start base) :
    (line blocks).Ensures s (fun _ t => t.Noted start base)
      (·.Noted start base) := by
  apply ensures_withCurrent
  split
  · next outer hOuter =>
    have hCloser :
        ∃ block : Block,
          s.current.kind = .keyword block.closer := by
      cases blocks with
      | nil => cases hOuter
      | cons block outer =>
          simp only [Block.outer?, Option.ite_none_right_eq_some]
            at hOuter
          exact ⟨block, hOuter.1⟩
    rcases hCloser with ⟨block, hWord⟩
    apply ensures_bind (ensures_closeBlock hNoted hWord)
    exact fun _ t hClosed => ensures_pure hClosed
  · apply ensures_update_bind
    exact
      ensures_statement blocks
        (hNoted.quiet (quiet_report (.statement s.current.kind)))

------------------------------------------------------------
-- Programs
------------------------------------------------------------

/- A session with the first two lines of a header. -/
def headed (s : Session) : Session :=
  ((s.report .program).headerLine "#include <stdio.h>").headerLine
    "int main(void)\x7b"

/- All names are noted after a call, and no jump is stray in success. -/
theorem ensures_program
    (hNoted : s.Noted start base) :
    program.Ensures s
      (fun _ t =>
        t.Noted start (headed s) ∧ t.strayJump? = none)
      (·.Noted start (headed s)) := by
  rcases hNoted with ⟨passed, hNotes⟩
  have hRecords := hNotes.records
  have hHeaded : (headed s).Noted start (headed s) :=
    ⟨passed, hNotes.feeds,
      ⟨hRecords.jumps, hRecords.labels, hRecords.vars⟩, .refl _⟩
  apply ensures_update_bind
  apply ensures_update_bind
  apply ensures_update_bind
  apply ensures_bind (ensures_skipNewlines hHeaded)
  intro _ t hBlanks
  have hLines :
      lines.Ensures t (fun _ u => u.Noted start (headed s))
        (·.Noted start (headed s)) :=
    ensures_loop (fun blocks _ _ => ensures_line blocks) []
      hBlanks
  apply ensures_bind hLines
  intro _ u hRead
  apply ensures_update_bind
  apply ensures_update_bind
  have hClosed :=
    (hRead.quiet (quiet_emitLine "return 0;")).quiet
      (quiet_emitLine "\x7d")
  apply ensures_withSession
  split
  · next hStray => exact ensures_pure ⟨hClosed, hStray⟩
  · exact ensures_fail hClosed

end Grammar

------------------------------------------------------------
-- Calls
------------------------------------------------------------

namespace Session

/- The session after a number of calls to read a program. -/
def after (first : Session) : Nat → Session
| 0 => first
| calls + 1 => (Grammar.program.run (first.after calls)).2

/- The lines that a call adds to the header, with new variables. -/
def headerLines (names : List String) : List Line :=
  .library :: .main :: names.map .declare

/- The variables that are first declared in a call. -/
def declaredIn (first : Session) (call : Nat) : List String :=
  (first.after (call + 1)).vars.filter
    (· ∉ (first.after call).vars)

/- The lines that a number of calls add to the header. -/
def addedLines (first : Session) (calls : Nat) : List Line :=
  (List.range calls).flatMap fun call =>
    headerLines (first.declaredIn call)

/-
  What holds after a number of calls. The header has the lines of
  every call, and declares each variable once and nothing else.
  All names are those of the tokens passed since the start.
-/
structure FollowsCalls
    (first : Session)
    (start : Cursor)
    (artifact : Artifact)
    (calls : Nat) : Prop where
  header :
    (first.after calls).artifact.header =
      artifact.header ++ Line.join (first.addedLines calls)
  once :
    ∀ name,
      (first.addedLines calls).count (.declare name) =
        if name ∈ (first.after calls).vars then 1 else 0
  body :
    ∃ more,
      (first.after calls).artifact.body = artifact.body ++ more
  names :
    ∃ passed,
      (∀ tokens,
        start.Feeds
            (tokens ++
              [(first.after calls).current,
                (first.after calls).ahead])
            (first.after calls).cursor ↔
          tokens = passed) ∧
        (first.after calls).Records passed

/- What a call adds to what a session holds. -/
structure Extends (s t : Session) : Prop where
  declared :
    ∃ names,
      t.vars = s.vars ++ names ∧
        t.artifact.header =
          s.artifact.header ++ Line.join (headerLines names)
  labels : s.labels <+: t.labels
  body : ∃ more, t.artifact.body = s.artifact.body ++ more

variable {start : Cursor}
variable {artifact : Artifact}
variable {first s t base : Session}

/- A session with a new header has the first lines in it. -/
theorem header_headed (s : Session) :
    (Grammar.headed s).artifact.header =
      s.artifact.header ++ Line.join [.library, .main] := by
  rw [Line.join_cons, Line.join_cons, Line.join_nil,
    String.append_empty, Tree.codeLine, Tree.codeLine,
    ← String.append_assoc, ← String.append_assoc,
    ← String.append_assoc]
  rfl

/- What has grown from a session with a new header extends it. -/
theorem Grows.extends
    (hGrows : (Grammar.headed s).Grows t) :
    s.Extends t := by
  rcases hGrows with ⟨⟨names, hVars, hHeader⟩, hLabels, hBody⟩
  rw [header_headed, String.append_assoc, ← Line.join_append]
    at hHeader
  constructor
  case declared => exact ⟨names, hVars, hHeader⟩
  case labels => exact hLabels
  case body => exact hBody

/- A session that has noted all names is past their tokens. -/
theorem Noted.names
    (hNoted : s.Noted start base) :
    ∃ passed,
      (∀ tokens,
        start.Feeds (tokens ++ [s.current, s.ahead]) s.cursor ↔
          tokens = passed) ∧
        s.Records passed := by
  rcases hNoted with ⟨passed, hNotes⟩
  refine ⟨passed, ?_, hNotes.records⟩
  intro tokens
  constructor
  · intro hFeeds
    exact
      List.append_cancel_right (hFeeds.unique hNotes.feeds)
  · intro hSame
    rw [hSame]
    exact hNotes.feeds

/- A session that begins has read two tokens, and holds no names. -/
theorem begin_eq_ok
    (hBegin : Session.begin start artifact = .ok first) :
    ∃ middle,
      start.nextToken = (.ok first.current, middle) ∧
        middle.nextToken = (.ok first.ahead, first.cursor) ∧
          first.artifact = artifact ∧ first.Records [] := by
  unfold Session.begin at hBegin
  split at hBegin
  · cases hBegin
  · next current middle hCurrent =>
    split at hBegin
    · cases hBegin
    · next ahead last hAhead =>
      cases hBegin
      exact ⟨middle, hCurrent, hAhead, rfl, rfl, rfl, rfl⟩

/- A session that has just begun has passed and noted nothing. -/
theorem noted_begin
    (hBegin : Session.begin start artifact = .ok first) :
    first.Noted start first := by
  rcases begin_eq_ok hBegin with
    ⟨middle, hCurrent, hAhead, _, hRecords⟩
  have hNone : start.Feeds [] start := ⟨0, rfl⟩
  have hBoth := (hNone.token hCurrent).token hAhead
  exact ⟨[], hBoth, hRecords, .refl _⟩

/- After a call all names are noted, and the session has grown. -/
theorem Noted.after_call
    (hNoted : s.Noted start base) :
    (Grammar.program.run s).2.Noted start (Grammar.headed s) ∧
      ((Grammar.program.run s).1 = .ok () →
        (Grammar.program.run s).2.strayJump? = none) := by
  have hEnsures := Grammar.ensures_program hNoted
  unfold Production.Ensures at hEnsures
  split at hEnsures
  · next a t hRun =>
    rw [hRun]
    exact ⟨hEnsures.1, fun _ => hEnsures.2⟩
  · next d t hRun =>
    rw [hRun]
    exact ⟨hEnsures, fun hDone => by cases hDone⟩

/- All names are noted after any number of calls. -/
theorem noted_after
    (hBegin : Session.begin start artifact = .ok first)
    (calls : Nat) :
    ∃ base, (first.after calls).Noted start base := by
  induction calls with
  | zero => exact ⟨first, noted_begin hBegin⟩
  | succ calls ih =>
      rcases ih with ⟨base, hNoted⟩
      exact ⟨_, hNoted.after_call.1⟩

/- A session that has noted all names has no variable twice. -/
theorem Noted.nodup_vars
    (hNoted : s.Noted start base) :
    s.vars.Nodup := by
  rcases hNoted with ⟨passed, hNotes⟩
  rw [hNotes.records.vars]
  exact Tree.nodup_eraseDups _

/- Each call extends what the session held before it. -/
theorem after_extends
    (hBegin : Session.begin start artifact = .ok first)
    (calls : Nat) :
    (first.after calls).Extends (first.after (calls + 1)) := by
  rcases noted_after hBegin calls with ⟨base, hNoted⟩
  rcases hNoted.after_call.1 with ⟨passed, hNotes⟩
  exact hNotes.grows.extends

/- A call adds the variables that it declares, and their lines. -/
theorem call_declares
    (hBegin : Session.begin start artifact = .ok first)
    (calls : Nat) :
    (first.after (calls + 1)).vars =
        (first.after calls).vars ++ first.declaredIn calls ∧
      (first.after (calls + 1)).artifact.header =
        (first.after calls).artifact.header ++
          Line.join (headerLines (first.declaredIn calls)) := by
  rcases (after_extends hBegin calls).declared with
    ⟨names, hVars, hHeader⟩
  rcases noted_after hBegin (calls + 1) with ⟨base, hNoted⟩
  have hNodup := hNoted.nodup_vars
  rw [hVars, List.nodup_append] at hNodup
  have hOld :
      (first.after calls).vars.filter
        (· ∉ (first.after calls).vars) = [] := by
    simp
  have hNew :
      names.filter (· ∉ (first.after calls).vars) = names := by
    rw [List.filter_eq_self]
    intro name hName
    simpa using fun hOlder =>
      hNodup.2.2 name hOlder name hName rfl
  have hNames : first.declaredIn calls = names := by
    rw [declaredIn, hVars, List.filter_append, hOld, hNew,
      List.nil_append]
  rw [hNames]
  exact ⟨hVars, hHeader⟩

/- One more call adds its own lines to those of the others. -/
theorem addedLines_succ
    (first : Session)
    (calls : Nat) :
    first.addedLines (calls + 1) =
      first.addedLines calls ++
        headerLines (first.declaredIn calls) := by
  simp [addedLines, List.range_succ]

/- The header has the lines of every call behind its first text. -/
theorem header_after
    (hBegin : Session.begin start artifact = .ok first)
    (calls : Nat) :
    (first.after calls).artifact.header =
      artifact.header ++ Line.join (first.addedLines calls) := by
  induction calls with
  | zero =>
      rcases begin_eq_ok hBegin with ⟨_, _, _, hArtifact, _⟩
      rw [after, hArtifact]
      exact String.append_empty.symm
  | succ calls ih =>
      rw [(call_declares hBegin calls).2, ih, addedLines_succ,
        Line.join_append, String.append_assoc]

/- The body only grows with the calls. -/
theorem body_after
    (hBegin : Session.begin start artifact = .ok first)
    (calls : Nat) :
    ∃ more,
      (first.after calls).artifact.body =
        artifact.body ++ more := by
  induction calls with
  | zero =>
      rcases begin_eq_ok hBegin with ⟨_, _, _, hArtifact, _⟩
      refine ⟨"", ?_⟩
      rw [after, hArtifact, String.append_empty]
  | succ calls ih =>
      rcases ih with ⟨earlier, hEarlier⟩
      rcases (after_extends hBegin calls).body with ⟨more, hMore⟩
      refine ⟨earlier ++ more, ?_⟩
      rw [hMore, hEarlier, String.append_assoc]

/- The lines of a call declare each name that is new in it. -/
theorem count_headerLines
    (names : List String)
    (name : String) :
    (headerLines names).count (.declare name) =
      names.count name := by
  have hMapped :=
    List.count_map_of_injective names Line.declare
      (fun _ _ => Line.declare.inj) name
  simpa [headerLines] using hMapped

/- A variable is declared as often as the session lists it. -/
theorem count_addedLines
    (hBegin : Session.begin start artifact = .ok first)
    (calls : Nat)
    (name : String) :
    (first.addedLines calls).count (.declare name) =
      (first.after calls).vars.count name := by
  induction calls with
  | zero =>
      rcases begin_eq_ok hBegin with ⟨_, _, _, _, hRecords⟩
      rw [after, hRecords.vars]
      rfl
  | succ calls ih =>
      rw [addedLines_succ, List.count_append, ih,
        count_headerLines, (call_declares hBegin calls).1,
        List.count_append]

/- What holds after any number of calls. -/
theorem followsCalls
    (hBegin : Session.begin start artifact = .ok first)
    (calls : Nat) :
    first.FollowsCalls start artifact calls := by
  rcases noted_after hBegin calls with ⟨base, hNoted⟩
  constructor
  case header => exact header_after hBegin calls
  case once =>
    intro name
    rw [count_addedLines hBegin,
      hNoted.nodup_vars.count]
  case body => exact body_after hBegin calls
  case names => exact hNoted.names

end Session

/-
  However many calls have been made, in success or failure, the
  session follows them. Every call extends what was there before
  it, and when one succeeds every jump so far has its label.
-/
theorem calls_keep_names
    {start : Cursor}
    {artifact : Artifact}
    {first : Session}
    (hBegin : Session.begin start artifact = .ok first)
    (calls : Nat) :
    first.FollowsCalls start artifact calls ∧
      (first.after calls).Extends (first.after (calls + 1)) ∧
        ((Grammar.program.run (first.after calls)).1 = .ok () →
          ∀ jump ∈ (first.after (calls + 1)).jumps,
            jump.label ∈ (first.after (calls + 1)).labels) := by
  refine ⟨?_, ?_, ?_⟩
  · exact Session.followsCalls hBegin calls
  · exact Session.after_extends hBegin calls
  · intro hDone jump hJump
    rcases Session.noted_after hBegin calls with
      ⟨base, hNoted⟩
    have hStray := hNoted.after_call.2 hDone
    rw [Session.strayJump?, List.find?_eq_none] at hStray
    simpa [Session.after] using hStray jump hJump

/- A call stops at an open string, and the next one goes on. -/
theorem calls_keep_names_resumed :
    ∃ first,
      Session.begin
            (Cursor.start
              "LET a = 1\nGOTO x \"b\nLET b = a\nLABEL x\n")
            { header := "// h\n", body := "// b\n" } =
          .ok first ∧
        (Grammar.program.run first).1.toBool = false ∧
          first.FollowsCalls
              (Cursor.start
                "LET a = 1\nGOTO x \"b\nLET b = a\nLABEL x\n")
              { header := "// h\n", body := "// b\n" } 1 ∧
            (Grammar.program.run (first.after 1)).1 = .ok () ∧
              ∀ jump ∈ (first.after 2).jumps,
                jump.label ∈ (first.after 2).labels := by
  have hRuns :
      (Session.begin
          (Cursor.start
            "LET a = 1\nGOTO x \"b\nLET b = a\nLABEL x\n")
          { header := "// h\n", body := "// b\n" }).map
        (fun first =>
          ((Grammar.program.run first).1.toBool,
            (Grammar.program.run (first.after 1)).1)) =
        .ok (false, .ok ()) := by
    decide +kernel
  cases hBegin :
    Session.begin
      (Cursor.start
        "LET a = 1\nGOTO x \"b\nLET b = a\nLABEL x\n")
      { header := "// h\n", body := "// b\n" } with
  | error e =>
      rw [hBegin] at hRuns
      cases hRuns
  | ok first =>
      rw [hBegin] at hRuns
      obtain ⟨hFails, hDone⟩ := Prod.mk.inj (Except.ok.inj hRuns)
      have hCalls := calls_keep_names hBegin 1
      exact
        ⟨first, rfl, hFails, hCalls.1, hDone,
          hCalls.2.2 hDone⟩

end TeenyC
