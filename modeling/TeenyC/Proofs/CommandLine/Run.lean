import TeenyC.CommandLine.Run
import TeenyC.Proofs.File.Saving

/-
  What a run of the command promises.

  A run reads its input, then compiles or lists it, and only then
  writes or prints. So a run that fails has printed nothing and
  changed no file. A run that compiles succeeds if and only if its
  input is a text, the text compiles and the output can be made;
  the output then holds the C text.

  Key definitions include:
    * `Invocation.Ends`
    * `Outcome.Fulfils`

  Key theorems include:
    * `Invocation.ends_execute`
    * `Invocation.Ends.fulfils`
    * `command_fulfils`
-/

namespace TeenyC

------------------------------------------------------------
-- Runs on a Tree
------------------------------------------------------------

/- A text is read from a tree, which stays as it is. -/
theorem readText_access
    (path : String)
    (tree : FileTree) :
    FileTree.access.readText path tree =
      (match tree.read path with
        | .error fault => .error fault
        | .ok bytes =>
            match Text.decode? bytes with
            | some text => .ok text
            | none => .error .notUnicode,
        tree) := by
  unfold FileAccess.readText
  simp only [bind, StateT.bind, FileTree.access]
  cases tree.read path with
  | error fault => rfl
  | ok bytes =>
      cases hText : Text.decode? bytes <;> simp [hText] <;> rfl

namespace Invocation

/-
  What a run of an invocation may come to. Only one that compiles
  its input to a file can change the tree.
-/
inductive Ends (tree : FileTree) (invocation : Invocation) :
    Except RunError String → FileTree → Prop
| unreadable
    {fault : Fault}
    (hRead :
      ∀ source : String,
        tree.read invocation.input ≠
          .ok (Text.encode source.toList)) :
    Ends tree invocation
      (.error (.unreadable invocation.input fault)) tree
| unknown
    (hCompile : invocation.format ≠ "c")
    (hList : invocation.format ≠ "tokens") :
    Ends tree invocation
      (.error (.unknownFormat invocation.format)) tree
| unlisted
    {source : String}
    {e : LexError}
    (hFormat : invocation.format = "tokens")
    (hRead :
      tree.read invocation.input =
        .ok (Text.encode source.toList))
    (hTokens : tokenize source = .error e) :
    Ends tree invocation
      (.error (.failed (.refused (.lexical e)))) tree
| listed
    {source listing : String}
    {tokens : List Token}
    (hFormat : invocation.format = "tokens")
    (hRead :
      tree.read invocation.input =
        .ok (Text.encode source.toList))
    (hTokens : tokenize source = .ok tokens) :
    Ends tree invocation (.ok listing) tree
| unsaved
    {source : String}
    {failure : Failure}
    {events : Array Event}
    (hFormat : invocation.format = "c")
    (hRead :
      tree.read invocation.input =
        .ok (Text.encode source.toList))
    (hRun :
      compileTo FileTree.access source invocation.output tree =
        ((.error failure, events), tree)) :
    Ends tree invocation (.error (.failed failure)) tree
| saved
    {source message : String}
    {events : Array Event}
    {after : FileTree}
    (hFormat : invocation.format = "c")
    (hRead :
      tree.read invocation.input =
        .ok (Text.encode source.toList))
    (hRun :
      compileTo FileTree.access source invocation.output tree =
        ((.ok (), events), after)) :
    Ends tree invocation (.ok message) after

variable {tree after : FileTree}
variable {invocation : Invocation}
variable {result : Except RunError String}

/- A program that is read is compiled, and saved if that succeeds. -/
theorem ends_executeCompile
    {source : String}
    {events : Array Event}
    (hFormat : invocation.format = "c")
    (hRead :
      tree.read invocation.input =
        .ok (Text.encode source.toList))
    (hRun :
      executeCompile FileTree.access invocation source tree =
        ((result, events), after)) :
    invocation.Ends tree result after := by
  unfold executeCompile at hRun
  simp only [bind, StateT.bind] at hRun
  rcases hSave :
      compileTo FileTree.access source invocation.output tree with
    ⟨⟨saved, reports⟩, later⟩
  rw [hSave] at hRun
  cases saved with
  | error failure =>
      cases hRun
      have hSame := compileTo_of_error hSave
      rw [hSame] at hSave ⊢
      exact .unsaved hFormat hRead hSave
  | ok =>
      cases hRun
      exact .saved hFormat hRead hSave

/- A program that is read is listed, unless it cannot be. -/
theorem ends_listTokens
    {source : String}
    (hFormat : invocation.format = "tokens")
    (hRead :
      tree.read invocation.input =
        .ok (Text.encode source.toList)) :
    invocation.Ends tree (listTokens source) tree := by
  unfold listTokens
  split
  · next e hTokens => exact .unlisted hFormat hRead hTokens
  · next tokens hTokens => exact .listed hFormat hRead hTokens

/- What is done with a text that is read is decided by the format. -/
theorem execute_of_read
    {source : String}
    (hRead :
      tree.read invocation.input =
        .ok (Text.encode source.toList)) :
    execute FileTree.access invocation tree =
      if invocation.format = "c" then
        executeCompile FileTree.access invocation source tree
      else if invocation.format = "tokens" then
        ((listTokens source, #[]), tree)
      else
        ((.error (.unknownFormat invocation.format), #[]), tree) := by
  rcases invocation with ⟨input, output, format⟩
  unfold execute
  simp only [bind, StateT.bind, readText_access, hRead,
    Text.decode?_encode, String.ofList_toList]
  split
  case h_1 => exact (if_pos rfl).symm
  case h_2 => rw [if_neg (by decide), if_pos rfl]; rfl
  case h_3 hCompile hList =>
    rw [if_neg hCompile, if_neg hList]
    rfl

/- An input that is no text ends the run. -/
theorem execute_of_unreadable
    (hRead :
      ∀ source : String,
        tree.read invocation.input ≠
          .ok (Text.encode source.toList)) :
    ∃ fault,
      execute FileTree.access invocation tree =
        ((.error (.unreadable invocation.input fault), #[]),
          tree) := by
  unfold execute
  simp only [bind, StateT.bind, readText_access]
  cases hBytes : tree.read invocation.input with
  | error fault => exact ⟨fault, rfl⟩
  | ok bytes =>
      cases hText : Text.decode? bytes with
      | none => exact ⟨.notUnicode, by simp only [hText]; rfl⟩
      | some source =>
          have hSource := hRead source
          rw [hBytes, Text.decode?_eq_some_iff.mp hText] at hSource
          exact absurd rfl hSource

/- A run ends as runs may. -/
theorem ends_execute
    {events : Array Event}
    (hRun :
      execute FileTree.access invocation tree =
        ((result, events), after)) :
    invocation.Ends tree result after := by
  by_cases hText :
      ∃ source : String,
        tree.read invocation.input =
          .ok (Text.encode source.toList)
  · rcases hText with ⟨source, hRead⟩
    rw [execute_of_read hRead] at hRun
    split at hRun
    · next hFormat =>
      exact ends_executeCompile hFormat hRead hRun
    · next hCompile =>
      split at hRun
      · next hFormat =>
        cases hRun
        exact ends_listTokens hFormat hRead
      · next hList =>
        cases hRun
        exact .unknown hCompile hList
  · rw [not_exists] at hText
    rcases execute_of_unreadable hText with ⟨fault, hFault⟩
    rw [hFault] at hRun
    cases hRun
    exact .unreadable hText

/- The input is a text that compiles to the C text. -/
def Yields
    (tree : FileTree)
    (invocation : Invocation)
    (text : String) : Prop :=
  ∃ source : String,
    tree.read invocation.input =
        .ok (Text.encode source.toList) ∧
      compile source = .ok text

/- An input is at most one text. -/
theorem source_unique
    {source other : String}
    (hRead :
      tree.read invocation.input =
        .ok (Text.encode source.toList))
    (hOther :
      tree.read invocation.input =
        .ok (Text.encode other.toList)) :
    source = other := by
  rw [hRead] at hOther
  have hDecode := Text.decode?_encode source.toList
  rw [Except.ok.inj hOther, Text.decode?_encode,
    String.ofList_toList, String.ofList_toList] at hDecode
  exact (Option.some.inj hDecode).symm

/- What compiles to the output of an invocation ends as a request. -/
theorem ends_output
    {source : String}
    {saving : Except Failure Unit}
    {events : Array Event}
    (hDevice : ¬ tree.IsDevice invocation.output)
    (hRun :
      compileTo FileTree.access source invocation.output tree =
        ((saving, events), after)) :
    Request.Ends tree ⟨source, invocation.output⟩ saving after := by
  let request : Request := ⟨source, invocation.output⟩
  have hPath : ¬ tree.IsDevice request.path := hDevice
  exact Request.ends_compileTo hPath hRun

/-
  A run that compiles succeeds if its input yields a C text and its
  output can be made, and then the text is saved.
-/
theorem Ends.compiles
    (hEnds : invocation.Ends tree result after)
    (hFormat : invocation.format = "c")
    (hDevice : ¬ tree.IsDevice invocation.output) :
    ((∃ message, result = .ok message) ↔
        (∃ text, invocation.Yields tree text) ∧
          ∃ made, tree.create invocation.output = .ok made) ∧
      ∀ text,
        invocation.Yields tree text →
          (∃ message, result = .ok message) →
            tree.Saved after invocation.output
              (Text.encode text.toList) := by
  cases hEnds with
  | unreadable hRead =>
      have hNone
          {text : String} :
          ¬ invocation.Yields tree text := by
        rintro ⟨source, hSource, _⟩
        exact hRead source hSource
      constructor
      · constructor
        · rintro ⟨_, hResult⟩
          cases hResult
        · rintro ⟨⟨text, hYields⟩, _⟩
          exact absurd hYields hNone
      · intro text hYields
        exact absurd hYields hNone
  | unknown hCompile _ => exact absurd hFormat hCompile
  | unlisted hList _ _ => simp [hFormat] at hList
  | listed hList _ _ => simp [hFormat] at hList
  | @unsaved source failure events _ hRead hRun =>
      constructor
      · constructor
        · rintro ⟨_, hResult⟩
          cases hResult
        · rintro ⟨⟨text, other, hOther, hText⟩, made, hMade⟩
          cases source_unique hRead hOther
          cases ends_output hDevice hRun with
          | refused hRefused =>
              rw [hText] at hRefused
              cases hRefused
          | unwritable _ hFault =>
              rw [hMade] at hFault
              cases hFault
      · rintro text _ ⟨_, hResult⟩
        cases hResult
  | @saved source message events _ _ hRead hRun =>
      cases ends_output hDevice hRun with
      | @saved text _ hText hMade hSaved =>
          constructor
          · exact
              ⟨fun _ => ⟨⟨text, source, hRead, hText⟩, hMade⟩,
                fun _ => ⟨message, rfl⟩⟩
          · rintro found ⟨other, hOther, hFound⟩ _
            cases source_unique hRead hOther
            rw [hText] at hFound
            cases hFound
            exact hSaved

/- A run that lists changes nothing, and succeeds on good tokens. -/
theorem Ends.lists
    (hEnds : invocation.Ends tree result after)
    (hFormat : invocation.format = "tokens") :
    after = tree ∧
      ((∃ listing, result = .ok listing) ↔
        ∃ (source : String) (tokens : List Token),
          tree.read invocation.input =
              .ok (Text.encode source.toList) ∧
            tokenize source = .ok tokens) := by
  cases hEnds with
  | unreadable hRead =>
      refine ⟨rfl, ?_, ?_⟩
      · rintro ⟨_, hResult⟩
        cases hResult
      · rintro ⟨source, _, hSource, _⟩
        exact absurd hSource (hRead source)
  | unknown _ hList => exact absurd hFormat hList
  | unlisted _ hRead hTokens =>
      refine ⟨rfl, ?_, ?_⟩
      · rintro ⟨_, hResult⟩
        cases hResult
      · rintro ⟨other, tokens, hOther, hFound⟩
        cases source_unique hRead hOther
        rw [hTokens] at hFound
        cases hFound
  | listed _ hRead hTokens =>
      exact
        ⟨rfl, fun _ => ⟨_, _, hRead, hTokens⟩, fun _ => ⟨_, rfl⟩⟩
  | unsaved hCompile _ _ => simp [hFormat] at hCompile
  | saved hCompile _ _ => simp [hFormat] at hCompile

/- A run that fails changes nothing. -/
theorem Ends.of_error
    {e : RunError}
    (hEnds : invocation.Ends tree (.error e) after) :
    after = tree := by
  cases hEnds <;> rfl

/- A run in another format fails. -/
theorem Ends.of_unknown
    (hEnds : invocation.Ends tree result after)
    (hCompile : invocation.format ≠ "c")
    (hList : invocation.format ≠ "tokens") :
    ∃ e, result = .error e := by
  cases hEnds with
  | unreadable | unknown | unlisted | unsaved => exact ⟨_, rfl⟩
  | listed hFormat => exact absurd hFormat hList
  | saved hFormat => exact absurd hFormat hCompile

end Invocation

------------------------------------------------------------
-- Outcomes
------------------------------------------------------------

/-
  What the outcome of a run promises. A failure is told on the
  error stream alone, and changes nothing; a success leaves that
  stream empty. A compilation to a file that is no device succeeds
  if and only if there is a C text to be written and the file can
  be made, and then the file holds the text. A listing changes
  nothing, and a format that is not known is refused. What the
  arguments ask for is what some reader makes of them.
-/
structure Outcome.Fulfils
    (reader : ArgumentReader)
    (arguments : List String)
    (tree after : FileTree)
    (outcome : Outcome) : Prop where
  status : outcome.status = 0 ∨ outcome.status = 1
  failure :
    outcome.status = 1 →
      outcome.stdout = "" ∧ outcome.stderr ≠ "" ∧ after = tree
  success : outcome.status = 0 → outcome.stderr = ""
  ended :
    ∀ ending,
      reader.read arguments = .error ending →
        after = tree
  compiles :
    ∀ invocation,
      reader.read arguments = .ok invocation →
        invocation.format = "c" →
          ¬ tree.IsDevice invocation.output →
            (outcome.status = 0 ↔
                (∃ text, invocation.Yields tree text) ∧
                  ∃ made,
                    tree.create invocation.output = .ok made) ∧
              ∀ text,
                invocation.Yields tree text →
                  outcome.status = 0 →
                    tree.Saved after invocation.output
                      (Text.encode text.toList)
  lists :
    ∀ invocation,
      reader.read arguments = .ok invocation →
        invocation.format = "tokens" →
          after = tree ∧
            (outcome.status = 0 ↔
              ∃ (source : String) (tokens : List Token),
                tree.read invocation.input =
                    .ok (Text.encode source.toList) ∧
                  tokenize source = .ok tokens)
  refuses :
    ∀ invocation,
      reader.read arguments = .ok invocation →
        invocation.format ≠ "c" → invocation.format ≠ "tokens" →
          outcome.status = 1

variable {reader : ArgumentReader}
variable {arguments : List String}
variable {tree after : FileTree}

/- An error is printed in some words. -/
theorem RunError.print_ne_empty (e : RunError) : e.print ≠ "" := by
  simp [RunError.print]

/- Without reports a result is shown on one stream only. -/
theorem outcomeOf_silent
    (result : Except RunError String)
    (events : Array Event) :
    outcomeOf Filter.silent result events =
      match result with
      | .ok text => { status := 0, stdout := text, stderr := "" }
      | .error e =>
          { status := 1, stdout := "", stderr := e.print } := by
  have hNone :
      events.toList.filter Filter.silent.shows = [] := by
    simp [Filter.shows, Filter.silent]
  unfold outcomeOf
  cases result <;> simp [hNone]

/- The arguments alone may end a run. -/
theorem Ending.fulfils
    {ending : Ending}
    (hArguments : reader.read arguments = .error ending) :
    (ending.outcome reader.advice).Fulfils
      reader arguments tree tree := by
  have hNone
      {invocation : Invocation} :
      reader.read arguments ≠ .ok invocation := by
    simp [hArguments]
  constructor
  case status => cases ending <;> simp [outcome]
  case failure => cases ending <;> simp [outcome]
  case success => cases ending <;> simp [outcome]
  case ended => exact fun _ _ => rfl
  case compiles => exact fun _ hSome => absurd hSome hNone
  case lists => exact fun _ hSome => absurd hSome hNone
  case refuses => exact fun _ hSome => absurd hSome hNone

/- The outcome of a run that ends as runs may. -/
theorem Invocation.Ends.fulfils
    {invocation : Invocation}
    {result : Except RunError String}
    (hArguments : reader.read arguments = .ok invocation)
    (hEnds : invocation.Ends tree result after)
    (events : Array Event) :
    (outcomeOf Filter.silent result events).Fulfils
      reader arguments tree after := by
  have hSame
      {other : Invocation}
      (hOther : reader.read arguments = .ok other) :
      other = invocation := by
    rw [hArguments] at hOther
    exact (Except.ok.inj hOther).symm
  have hStatus :
      (outcomeOf Filter.silent result events).status = 0 ↔
        ∃ message, result = .ok message := by
    rw [outcomeOf_silent]
    cases result <;> simp
  constructor
  case status => rw [outcomeOf_silent]; cases result <;> simp
  case failure =>
    rw [outcomeOf_silent]
    cases result with
    | ok => simp
    | error e =>
        exact fun _ => ⟨rfl, e.print_ne_empty, hEnds.of_error⟩
  case success => rw [outcomeOf_silent]; cases result <;> simp
  case ended =>
    intro ending hOther
    rw [hArguments] at hOther
    cases hOther
  case compiles =>
    intro other hOther hFormat hDevice
    rw [hSame hOther] at hFormat hDevice ⊢
    rw [hStatus]
    exact hEnds.compiles hFormat hDevice
  case lists =>
    intro other hOther hFormat
    rw [hSame hOther] at hFormat ⊢
    rw [hStatus]
    exact hEnds.lists hFormat
  case refuses =>
    intro other hOther hCompile hList
    rw [hSame hOther] at hCompile hList
    rcases hEnds.of_unknown hCompile hList with ⟨e, hError⟩
    rw [outcomeOf_silent, hError]

/-
  The command run on any arguments in any tree, with no reports
  asked for, has an outcome that fulfils what it promises. How
  the arguments are read does not matter.
-/
theorem command_fulfils
    (reader : ArgumentReader)
    (arguments : List String)
    (tree : FileTree) :
    ∃ outcome after,
      reader.command FileTree.access Filter.silent arguments tree =
          (outcome, after) ∧
        outcome.Fulfils reader arguments tree after := by
  unfold ArgumentReader.command
  cases hArguments : reader.read arguments with
  | error ending =>
      exact ⟨_, _, rfl, Ending.fulfils hArguments⟩
  | ok invocation =>
      rcases hRun : execute FileTree.access invocation tree with
        ⟨⟨result, events⟩, after⟩
      refine ⟨outcomeOf Filter.silent result events, after, ?_, ?_⟩
      · simp only [bind, StateT.bind, hRun]
        rfl
      · exact
          (Invocation.ends_execute hRun).fulfils hArguments events

/- A program is compiled over itself. -/
theorem command_fulfils_over_input :
    let tree : FileTree :=
      { nodes :=
          [([], .directory), (["work"], .directory),
            (["work", "a.teeny"],
              .regular (Text.encode "PRINT \"é\"".toList))]
        working := ["work"] }
    let arguments := ["a.teeny", "-o", "./a.teeny"]
    ∃ outcome after,
      command FileTree.access Filter.silent arguments tree =
          (outcome, after) ∧
        outcome.Fulfils .standard arguments tree after ∧
          outcome.status = 0 ∧
            after.contents? "./a.teeny" =
              some
                (Text.encode
                  ("#include <stdio.h>\nint main(void)\x7b\n" ++
                    "printf(\"é\\n\");\nreturn 0;\n\x7d\n").toList) := by
  intro tree arguments
  rcases command_fulfils .standard arguments tree with
    ⟨outcome, after, hRun, hFulfils⟩
  have hStatus :
      (command FileTree.access Filter.silent arguments tree).1.status =
        0 := by
    decide +kernel
  change
    command FileTree.access Filter.silent arguments tree =
      (outcome, after) at hRun
  rw [hRun] at hStatus
  have hArguments :
      ArgumentReader.standard.read arguments =
        .ok ⟨"a.teeny", "./a.teeny", "c"⟩ := by
    decide +kernel
  have hDevice : ¬ tree.IsDevice "./a.teeny" := by
    apply FileTree.not_isDevice_of_files
    simp [tree]
  have hSaved :=
    (hFulfils.compiles _ hArguments rfl hDevice).2
      ("#include <stdio.h>\nint main(void)\x7b\n" ++
        "printf(\"é\\n\");\nreturn 0;\n\x7d\n")
      ⟨"PRINT \"é\"", by decide +kernel, by decide +kernel⟩ hStatus
  exact ⟨outcome, after, hRun, hFulfils, hStatus, hSaved.holds⟩

end TeenyC
