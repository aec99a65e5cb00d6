import TeenyC.Proofs.Parsing.Acceptance

/-
  Which fault of a program is reported.

  A token is at fault if no program goes on with it, if it reads
  a variable that has not been assigned to before it, or if it
  declares a label again. The first such token is reported, and
  where there is none, the first jump to no label.

  Key definitions include:
    * `Tree.Misfit`
    * `Tree.StandsAt`
    * `Tree.Unassigned`
    * `Tree.DeclaredTwice`
    * `Tree.AtFault`
    * `Token.account`
    * `Diagnostic.Blames`
    * `Diagnostic.BlamesJump`

  Key theorems include:
    * `Tree.not_fault_of_path`
    * `compile_error_first`
-/

namespace TeenyC

namespace Tree

------------------------------------------------------------
-- Faults
------------------------------------------------------------

/- No program starts with the tokens up to and with this one. -/
def Misfit
    (tokens : List Token)
    (i : Nat) : Prop :=
  i < tokens.length ∧
    ¬ Viable ((tokens.take (i + 1)).map Token.word)

/-
  Some program starts with the tokens up to and with this one,
  which is the given leaf there and stands after given leaves.
-/
def StandsAt
    (tokens : List Token)
    (i : Nat)
    (before : List Leaf)
    (leaf : Leaf) : Prop :=
  before.length = i ∧
    (before ++ [leaf]).map Leaf.word =
        (tokens.take (i + 1)).map Token.word ∧
      ∃ program after,
        Statements.SpellsProgram program
          (before ++ leaf :: after)

/- A variable is read that no token before has assigned to. -/
def Unassigned
    (tokens : List Token)
    (i : Nat) : Prop :=
  ∃ before name,
    StandsAt tokens i before (.operand name) ∧
      .target name ∉ before

/- A label is declared that a token before has declared. -/
def DeclaredTwice
    (tokens : List Token)
    (i : Nat) : Prop :=
  ∃ before name,
    StandsAt tokens i before (.label name) ∧
      .label name ∈ before

/- A token is at fault for one of three reasons. -/
def AtFault
    (tokens : List Token)
    (i : Nat) : Prop :=
  Misfit tokens i ∨ Unassigned tokens i ∨ DeclaredTwice tokens i

/- The first token at fault. -/
def FirstFault
    (tokens : List Token)
    (i : Nat) : Prop :=
  AtFault tokens i ∧ ∀ j < i, ¬ AtFault tokens j

variable {tokens : List Token}
variable {i : Nat}
variable {before : List Leaf}
variable {leaf : Leaf}

/- A token that stands in some program is no misfit. -/
theorem StandsAt.not_misfit
    (hStands : StandsAt tokens i before leaf) :
    ¬ Misfit tokens i := by
  rcases hStands with ⟨_, hWords, program, after, hSpells⟩
  intro hMisfit
  rcases hMisfit with ⟨_, hStuck⟩
  refine hStuck ⟨after.map Leaf.word, program, _, hSpells, ?_⟩
  rw [← hWords, ← List.map_append, List.append_assoc]
  rfl

/- Only a token can stand in a program. -/
theorem StandsAt.lt_length
    (hStands : StandsAt tokens i before leaf) :
    i < tokens.length := by
  rcases hStands with ⟨hLength, hWords, _⟩
  have hCount := congrArg List.length hWords
  simp only [List.length_map, List.length_append,
    List.length_singleton, List.length_take] at hCount
  omega

/- Only a token can be at fault. -/
theorem AtFault.lt_length
    (hFault : AtFault tokens i) :
    i < tokens.length := by
  rcases hFault with hMisfit | ⟨_, _, hStands, _⟩ |
    ⟨_, _, hStands, _⟩
  · exact hMisfit.1
  · exact hStands.lt_length
  · exact hStands.lt_length

/- A token stands in a program as the leaf that is read there. -/
theorem StandsAt.leaves_eq
    {leaves : List Leaf}
    {draft : Draft}
    (hStands : StandsAt tokens i before leaf)
    (hPath : Draft.start.Path leaves draft)
    (hWords : leaves.map Leaf.word <+: tokens.map Token.word)
    (hRead : i < leaves.length) :
    ∃ after, leaves = before ++ leaf :: after := by
  rcases hStands with ⟨hLength, hHere, program, after, hSpells⟩
  have hProgram := Draft.path_program hSpells
  rw [List.append_cons] at hProgram
  rcases hProgram.split with ⟨middle, hMiddle, _⟩
  have hPrefix :
      (before ++ [leaf]).map Leaf.word <+:
        leaves.map Leaf.word := by
    refine List.prefix_of_prefix_length_le ?_ hWords ?_
    · rw [hHere, List.map_take]
      exact List.take_prefix _ _
    · simp only [List.length_map, List.length_append,
        List.length_singleton]
      omega
  rcases hMiddle.leaves_begin hPath hPrefix with
    ⟨more, hLeaves, _⟩
  exact ⟨more, by simpa using hLeaves⟩

/- No token is at fault that has been read and is allowed. -/
theorem not_fault_of_path
    {leaves : List Leaf}
    {draft : Draft}
    (hPath : Draft.start.Path leaves draft)
    (hNamed : Leaf.WellNamed leaves)
    (hWords : leaves.map Leaf.word <+: tokens.map Token.word)
    (hRead : i < leaves.length) :
    ¬ AtFault tokens i := by
  intro hFault
  rcases hFault with
    ⟨_, hStuck⟩ |
    ⟨before, name, hStands, hUnknown⟩ |
    ⟨before, name, hStands, hTwice⟩
  · rw [← List.take_append_drop (i + 1) leaves] at hPath
    rcases hPath.split with ⟨middle, hMiddle, _⟩
    apply hStuck
    have hHere :
        (tokens.take (i + 1)).map Token.word =
          (leaves.take (i + 1)).map Leaf.word := by
      rcases hWords with ⟨rest, hRest⟩
      rw [List.map_take, List.map_take, ← hRest,
        List.take_append_of_le_length (by simp; omega)]
    rw [hHere]
    exact Draft.viable_of_path hMiddle
  · rcases hStands.leaves_eq hPath hWords hRead with
      ⟨after, hLeaves⟩
    exact hUnknown (hNamed before _ after hLeaves)
  · rcases hStands.leaves_eq hPath hWords hRead with
      ⟨after, hLeaves⟩
    exact hNamed before _ after hLeaves hTwice

/- There is at most one first token at fault. -/
theorem FirstFault.unique
    {j : Nat}
    (hFirst : FirstFault tokens i)
    (hOther : FirstFault tokens j) :
    i = j := by
  rcases Nat.lt_trichotomy i j with hLess | hSame | hMore
  · exact absurd hFirst.1 (hOther.2 i hLess)
  · exact hSame
  · exact absurd hOther.1 (hFirst.2 j hMore)

end Tree

open TeenyC.Tree

------------------------------------------------------------
-- Words of a Message
------------------------------------------------------------

/- The name of a kind of token, as messages are to give it. -/
def Kind.capitals : Kind → String
| .eof => "EOF"
| .newline => "NEWLINE"
| .number => "NUMBER"
| .ident => "IDENT"
| .string => "STRING"
| .keyword .label => "LABEL"
| .keyword .goto => "GOTO"
| .keyword .print => "PRINT"
| .keyword .input => "INPUT"
| .keyword .letKw => "LET"
| .keyword .ifKw => "IF"
| .keyword .thenKw => "THEN"
| .keyword .endIf => "ENDIF"
| .keyword .whileKw => "WHILE"
| .keyword .repeatKw => "REPEAT"
| .keyword .endWhile => "ENDWHILE"
| .operator .assign => "EQ"
| .operator .plus => "PLUS"
| .operator .minus => "MINUS"
| .operator .times => "ASTERISK"
| .operator .divide => "SLASH"
| .operator .equal => "EQEQ"
| .operator .notEqual => "NOTEQ"
| .operator .less => "LT"
| .operator .lessEqual => "LTEQ"
| .operator .greater => "GT"
| .operator .greaterEqual => "GTEQ"

/- Every kind has the name that messages are to give it. -/
theorem Kind.name_eq_capitals (kind : Kind) :
    kind.name = kind.capitals := by
  cases kind with
  | keyword word => cases word <;> rfl
  | operator sign => cases sign <;> rfl
  | _ => rfl

/-
  The account of a token that a message is to give: a line break
  and the end of input by name, any other token by its text in
  quotes and by the name of its kind in brackets.
-/
def Token.account (token : Token) : String :=
  match token.kind with
  | .newline => "NEWLINE"
  | .eof => "EOF"
  | kind => "'" ++ token.text ++ "' (" ++ kind.capitals ++ ")"

/- A token is described by its account. -/
theorem Token.describe_eq_account (token : Token) :
    token.describe = token.account := by
  unfold describe account
  cases token.kind with
  | newline | eof => rfl
  | _ => simp only [Kind.name_eq_capitals]

/- What a grammar error is to say before it accounts for its token. -/
def GrammarCause.complaint : GrammarCause → String
| .expected kind => "expected " ++ kind.capitals ++ ", got "
| .comparison => "expected comparison operator at "
| .statement => "invalid statement at "
| .operand => "unexpected token "

/- What a naming error is to say before its name. -/
def NamingCause.complaint : NamingCause → String
| .labelTwice => "label already exists: "
| .labelMissing => "attempting to GOTO an undeclared label: "
| .unassigned => "referencing variable before assignment: "

namespace Diagnostic

/- A grammar error gives the line and the account of its token. -/
theorem message_grammar
    (cause : GrammarCause)
    (token : Token) :
    (Diagnostic.grammar
        { cause := cause, found := token }).message =
      "parse error at line " ++ toString token.line ++ ": " ++
        cause.complaint ++ token.account := by
  rw [← token.describe_eq_account, String.append_assoc]
  cases cause with
  | expected kind =>
      rw [GrammarCause.complaint, ← kind.name_eq_capitals]
      rfl
  | comparison | statement | operand => rfl

/- A naming error gives its line and its name. -/
theorem message_naming
    (cause : NamingCause)
    (name : String)
    (line : Nat) :
    (Diagnostic.naming
        { cause := cause, name := name, line := line }).message =
      "semantic error at line " ++ toString line ++ ": " ++
        cause.complaint ++ name := by
  rw [String.append_assoc]
  cases cause <;> rfl

end Diagnostic

------------------------------------------------------------
-- Reports
------------------------------------------------------------

variable {source : String}
variable {tokens : List Token}
variable {i : Nat}
variable {d : Diagnostic}

/-
  The diagnostic blames a token at fault: it gives the line of
  the token, is of the class of the fault, and its message ends
  with the account of the token or with its name.
-/
structure Diagnostic.Blames
    (d : Diagnostic)
    (tokens : List Token)
    (i : Nat)
    (token : Token) : Prop where
  found : tokens[i]? = some token
  line : d.line = token.line
  misfit :
    Misfit tokens i →
      ∃ cause,
        d = .grammar { cause := cause, found := token } ∧
          d.message =
            "parse error at line " ++ toString token.line ++
              ": " ++ cause.complaint ++ token.account
  unassigned :
    Unassigned tokens i →
      d =
          .naming
            { cause := .unassigned
              name := token.text
              line := token.line } ∧
        d.message =
          "semantic error at line " ++ toString token.line ++
            ": " ++ "referencing variable before assignment: " ++
            token.text
  declaredTwice :
    DeclaredTwice tokens i →
      d =
          .naming
            { cause := .labelTwice
              name := token.text
              line := token.line } ∧
        d.message =
          "semantic error at line " ++ toString token.line ++
            ": " ++ "label already exists: " ++ token.text

/-
  The diagnostic blames the first jump of the program to a label
  that is not declared: it gives the label and the line of the
  jump's target.
-/
def Diagnostic.BlamesJump
    (d : Diagnostic)
    (tokens : List Token) : Prop :=
  ∃ program before name after token,
    Statements.SpellsProgram program
        (before ++ .jump name :: after) ∧
      (before ++ .jump name :: after).map Leaf.word =
          tokens.map Token.word ∧
        .label name ∉ before ++ .jump name :: after ∧
          (∀ other,
            .jump other ∈ before →
              .label other ∈ before ++ .jump name :: after) ∧
            tokens[before.length]? = some token ∧
              d =
                  .naming
                    { cause := .labelMissing
                      name := name
                      line := token.line } ∧
                d.message =
                  "semantic error at line " ++
                    toString token.line ++ ": " ++
                    "attempting to GOTO an undeclared label: " ++
                    name

/- The token that is met is the one after those of the history. -/
theorem getElem?_of_met
    {history : History}
    {token : Token}
    (hPrefix : history.tokens ++ [token] <+: tokens) :
    tokens[history.leaves.length]? = some token := by
  rcases hPrefix with ⟨rest, hTokens⟩
  simp [← hTokens, History.leaves, History.tokens]

/- The tokens up to the one that is met have known words. -/
theorem map_word_take_of_met
    {history : History}
    {token : Token}
    (hPrefix : history.tokens ++ [token] <+: tokens) :
    (tokens.take (history.leaves.length + 1)).map Token.word =
      history.leaves.map Leaf.word ++ [token.word] := by
  rcases words_begin hPrefix with ⟨rest, hRest⟩
  rw [List.map_take, ← hRest,
    List.take_append_of_le_length (by simp),
    List.take_of_length_le (by simp)]

/- A token that no draft reads is the first at fault. -/
theorem firstFault_of_refused
    {history : History}
    {token : Token}
    {draft : Draft}
    {cause : GrammarCause}
    (hPrefix : history.tokens ++ [token] <+: tokens)
    (hPath : Draft.start.Path history.leaves draft)
    (hNamed : Leaf.WellNamed history.leaves)
    (hRead : draft.read token.word = .error cause) :
    Misfit tokens history.leaves.length ∧
      FirstFault tokens history.leaves.length := by
  have hWords := words_begin hPrefix
  have hMisfit : Misfit tokens history.leaves.length := by
    refine ⟨?_, ?_⟩
    · exact
        (List.getElem?_eq_some_iff.mp
          (getElem?_of_met hPrefix)).1
    · rw [map_word_take_of_met hPrefix]
      exact Draft.not_viable_of_refused hPath hRead
  refine ⟨hMisfit, .inl hMisfit, ?_⟩
  intro j hEarlier
  exact
    not_fault_of_path hPath hNamed
      ((List.prefix_append _ _).trans hWords) hEarlier

/- A token whose part is not allowed is the first at fault. -/
theorem firstFault_of_offends
    {history : History}
    {placed : Placed}
    {draft : Draft}
    (hPrefix : history.tokens ++ [placed.token] <+: tokens)
    (hPath :
      Draft.start.Path (history.leaves ++ [placed.leaf]) draft)
    (hNamed : Leaf.WellNamed history.leaves)
    (hOffends : ¬ placed.leaf.Allowed history.leaves) :
    StandsAt tokens history.leaves.length history.leaves
        placed.leaf ∧
      FirstFault tokens history.leaves.length := by
  have hWords := words_begin hPrefix
  have hStands :
      StandsAt tokens history.leaves.length history.leaves
        placed.leaf := by
    refine ⟨rfl, ?_, ?_⟩
    · rw [map_word_take_of_met hPrefix]
      simp
    · rcases Draft.exists_spells_of_path hPath with
        ⟨program, more, hSpells⟩
      exact ⟨program, more, by simpa using hSpells⟩
  refine ⟨hStands, ?_, ?_⟩
  · rcases Leaf.Allowed.cases_not hOffends with
      ⟨name, hLeaf, hUnknown⟩ | ⟨name, hLeaf, hTwice⟩
    · rw [hLeaf] at hStands
      exact .inr (.inl ⟨_, name, hStands, hUnknown⟩)
    · rw [hLeaf] at hStands
      exact .inr (.inr ⟨_, name, hStands, hTwice⟩)
  · intro j hEarlier
    rcases hPath.split with ⟨middle, hMiddle, _⟩
    exact
      not_fault_of_path hMiddle hNamed
        ((List.prefix_append _ _).trans hWords) hEarlier

/- The first jump to no label, with its place in the program. -/
theorem History.stray?_eq_some
    {history : History}
    {jump : Jump}
    (hStray : history.stray? = some jump) :
    ∃ before after : History,
      history =
          before ++
            { leaf := .jump jump.label, line := jump.line } ::
              after ∧
        .label jump.label ∉ history.leaves ∧
          ∀ other,
            .jump other ∈ before.leaves →
              .label other ∈ history.leaves := by
  unfold History.stray? History.jumps at hStray
  rw [List.find?_eq_some_iff_append] at hStray
  obtain ⟨hMissing, earlier, later, hJumps, hEarlier⟩ := hStray
  rcases List.filterMap_eq_append_iff.mp hJumps with
    ⟨front, back, hHistory, hFront, hBack⟩
  rcases List.filterMap_eq_cons_iff.mp hBack with
    ⟨quiet, ⟨leaf, line⟩, after, hSplit, hQuiet, hJump, _⟩
  have hPlaced : leaf = .jump jump.label ∧ line = jump.line := by
    cases leaf <;> simp [Placed.jump?, Leaf.jump?] at hJump
    subst hJump
    exact ⟨rfl, rfl⟩
  obtain ⟨rfl, rfl⟩ := hPlaced
  refine ⟨front ++ quiet, after, ?_, ?_, ?_⟩
  · rw [hHistory, hSplit, List.append_assoc]
  · simpa [Leaf.mem_labels_iff] using hMissing
  · intro other hOther
    rcases List.mem_map.mp hOther with
      ⟨placed, hMember, hLeaf⟩
    have hSome :
        placed.jump? =
          some { label := other, line := placed.line } := by
      simp [Placed.jump?, hLeaf, Leaf.jump?]
    rcases List.mem_append.mp hMember with hIn | hIn
    · have hLand :=
        hEarlier { label := other, line := placed.line } (by
          rw [← hFront]
          exact List.mem_filterMap.mpr ⟨placed, hIn, hSome⟩)
      simpa [Leaf.mem_labels_iff] using hLand
    · rw [hQuiet placed hIn] at hSome
      cases hSome

------------------------------------------------------------
-- The First Fault
------------------------------------------------------------

/- The token that no draft reads is blamed. -/
theorem blames_of_refused
    {history : History}
    {token : Token}
    {draft : Draft}
    {cause : GrammarCause}
    (hPrefix : history.tokens ++ [token] <+: tokens)
    (hPath : Draft.start.Path history.leaves draft)
    (hNamed : Leaf.WellNamed history.leaves)
    (hRead : draft.read token.word = .error cause)
    (hFirst : FirstFault tokens i) :
    Diagnostic.Blames (.grammar { cause := cause, found := token })
      tokens i token := by
  obtain ⟨hMisfit, hHere⟩ :=
    firstFault_of_refused hPrefix hPath hNamed hRead
  obtain rfl := hFirst.unique hHere
  refine ⟨getElem?_of_met hPrefix, rfl, ?_, ?_, ?_⟩
  · exact fun _ =>
      ⟨cause, rfl, Diagnostic.message_grammar cause token⟩
  · intro hUnassigned
    rcases hUnassigned with ⟨before, name, hStands, _⟩
    exact absurd hMisfit hStands.not_misfit
  · intro hTwice
    rcases hTwice with ⟨before, name, hStands, _⟩
    exact absurd hMisfit hStands.not_misfit

/- The name whose part is not allowed is blamed. -/
theorem blames_of_offends
    {history : History}
    {placed : Placed}
    {draft : Draft}
    (hPrefix : history.tokens ++ [placed.token] <+: tokens)
    (hPath :
      Draft.start.Path (history.leaves ++ [placed.leaf]) draft)
    (hNamed : Leaf.WellNamed history.leaves)
    (hOffends : ¬ placed.leaf.Allowed history.leaves)
    (hFirst : FirstFault tokens i) :
    Diagnostic.Blames
      (.naming
        { cause := placed.leaf.offence
          name := placed.leaf.text
          line := placed.line })
      tokens i placed.token := by
  obtain ⟨hStands, hHere⟩ :=
    firstFault_of_offends hPrefix hPath hNamed hOffends
  obtain rfl := hFirst.unique hHere
  have hWords :
      (history.leaves ++ [placed.leaf]).map Leaf.word <+:
        tokens.map Token.word := by
    simpa using words_begin hPrefix
  have hPart :
      ∀ {before leaf},
        StandsAt tokens history.leaves.length before leaf →
          placed.leaf = leaf := by
    intro before leaf hOther
    rcases hOther.leaves_eq hPath hWords (by simp) with
      ⟨after, hLeaves⟩
    have hSame := (List.append_inj hLeaves hOther.1.symm).2
    exact (List.cons.inj hSame).1
  refine ⟨getElem?_of_met hPrefix, rfl, ?_, ?_, ?_⟩
  · exact fun hMisfit => absurd hMisfit hStands.not_misfit
  · intro hUnassigned
    rcases hUnassigned with ⟨before, name, hOther, _⟩
    have hOffence : placed.leaf.offence = .unassigned :=
      congrArg Leaf.offence (hPart hOther)
    rw [hOffence]
    exact ⟨rfl, Diagnostic.message_naming .unassigned _ _⟩
  · intro hTwice
    rcases hTwice with ⟨before, name, hOther, _⟩
    have hOffence : placed.leaf.offence = .labelTwice :=
      congrArg Leaf.offence (hPart hOther)
    rw [hOffence]
    exact ⟨rfl, Diagnostic.message_naming .labelTwice _ _⟩

/- In a program that is read no token is at fault. -/
theorem Cursor.Reads.not_fault
    {start : Cursor}
    {history : History}
    {program : Statements}
    (hReads : start.Reads history program) :
    ¬ AtFault history.tokens i := by
  intro hFault
  have hWords :
      history.leaves.map Leaf.word <+:
        history.tokens.map Token.word :=
    history.words_eq ▸ List.prefix_rfl
  have hRead : i < history.leaves.length := by
    simpa [History.tokens, History.leaves] using
      hFault.lt_length
  exact
    not_fault_of_path hReads.path hReads.named hWords hRead
      hFault

/- In a program without a token at fault a jump is blamed. -/
theorem blamesJump_of_stray
    {start : Cursor}
    {history : History}
    {program : Statements}
    {jump : Jump}
    (hReads : start.Reads history program)
    (hStray : history.stray? = some jump) :
    Diagnostic.BlamesJump
      (.naming
        { cause := .labelMissing
          name := jump.label
          line := jump.line })
      history.tokens := by
  rcases History.stray?_eq_some hStray with
    ⟨before, after, hHistory, hMissing, hEarlier⟩
  have hLeaves :
      history.leaves =
        before.leaves ++ .jump jump.label :: after.leaves := by
    rw [hHistory]
    simp [History.leaves]
  have hToken :
      history.tokens[before.leaves.length]? =
        some
          (Placed.token
            { leaf := .jump jump.label
              line := jump.line }) := by
    rw [hHistory]
    simp [History.tokens, History.leaves]
  refine
    ⟨program, before.leaves, jump.label, after.leaves, _, ?_, ?_,
      ?_, ?_, hToken, rfl,
      Diagnostic.message_naming .labelMissing _ _⟩
  · rw [← hLeaves]
    exact hReads.spells
  · rw [← hLeaves]
    exact history.words_eq
  · rwa [← hLeaves]
  · rwa [← hLeaves]

/-
  The diagnostic of a program that can be split into tokens
  blames the first token at fault, and where there is none, the
  first jump to no label.
-/
theorem compile_error_first
    (hNul : '\x00' ∉ source.toList)
    (hTokens : tokenize source = .ok tokens)
    (hError : compile source = .error d) :
    (∀ i, FirstFault tokens i →
        ∃ token, d.Blames tokens i token) ∧
      ((∀ i, ¬ AtFault tokens i) → d.BlamesJump tokens) := by
  have hRefused := refused_of_compile hError
  cases hRefused with
  | lexical hSupplied hFault =>
      exact
        absurd hFault (nextToken_ne_error hNul hTokens hSupplied)
  | grammar hSupplied hPath hUnfinished hNamed hRead =>
      have hPrefix :=
        prefix_of_supplies hTokens hSupplied hUnfinished
      have hHere :=
        (firstFault_of_refused hPrefix hPath hNamed hRead).2
      exact
        ⟨fun i hFirst =>
          ⟨_, blames_of_refused hPrefix hPath hNamed hRead hFirst⟩,
          fun hNone => absurd hHere.1 (hNone _)⟩
  | naming hSupplied hPath hUnfinished hNamed hOffends =>
      have hPrefix :=
        prefix_of_supplies hTokens hSupplied hUnfinished
      have hHere :=
        (firstFault_of_offends hPrefix hPath hNamed hOffends).2
      exact
        ⟨fun i hFirst =>
          ⟨_, blames_of_offends hPrefix hPath hNamed hOffends
            hFirst⟩,
          fun hNone => absurd hHere.1 (hNone _)⟩
  | @stray history program jump hReads hStray =>
      have hSame := hTokens.symm.trans hReads.tokenize_eq
      obtain rfl := Except.ok.inj hSame
      exact
        ⟨fun i hFirst => absurd hFirst.1 hReads.not_fault,
          fun _ => blamesJump_of_stray hReads hStray⟩

/- A number where a jump needs the name of a label is blamed. -/
theorem compile_error_first_goto :
    let source := "GOTO 7"
    let token : Token := { kind := .number, text := "7", line := 1 }
    let d : Diagnostic :=
      .grammar { cause := .expected .ident, found := token }
    ∃ tokens,
      '\x00' ∉ source.toList ∧
        tokenize source = .ok tokens ∧
          compile source = .error d ∧
            FirstFault tokens 1 ∧ Misfit tokens 1 ∧
              d.Blames tokens 1 token ∧
                d.message =
                  "parse error at line 1: expected IDENT, " ++
                    "got '7' (NUMBER)" := by
  intro source token d
  let tokens : List Token :=
    [{ kind := .keyword .goto, text := "GOTO", line := 1 },
      token,
      { kind := .newline, text := "\n", line := 1 },
      { kind := .eof, text := "", line := 2 }]
  have hNul : '\x00' ∉ source.toList := by decide
  have hTokens : tokenize source = .ok tokens := by
    decide +kernel
  have hError : compile source = .error d := by
    decide +kernel
  have hPrefix :
      History.tokens [{ leaf := .keyword .goto, line := 1 }] ++
          [token] <+:
        tokens :=
    ⟨_, rfl⟩
  obtain ⟨hMisfit, hFirst⟩ :=
    firstFault_of_refused hPrefix (.cons rfl .nil) (by decide)
      rfl
  rcases (compile_error_first hNul hTokens hError).1 1 hFirst with
    ⟨found, hBlames⟩
  obtain rfl := Option.some.inj hBlames.found
  exact
    ⟨tokens, hNul, hTokens, hError, hFirst, hMisfit, hBlames,
      by decide +kernel⟩

end TeenyC
