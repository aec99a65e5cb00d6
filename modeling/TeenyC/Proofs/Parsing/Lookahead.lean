import TeenyC.Proofs.Parsing.Acceptance

/-
  Lexical faults, met by a scanner and by a parser.

  A scanner reads a text up to its first fault. A parser asks
  for tokens as it goes, one ahead of the token it is at, and
  may give up before it gets there; but it meets no other fault,
  and it cannot come to the end of the program without it.

  Key definitions include:
    * `Cursor.Stops`
    * `Diagnostic.BlamesOneOf`

  Key theorems include:
    * `tokenize_eq_error_iff`
    * `compile_error_lexical_agrees`
-/

namespace TeenyC

open TeenyC.Tree

------------------------------------------------------------
-- Faults
------------------------------------------------------------

/- A token before items does not change their first error. -/
theorem Item.collect_cons_error_iff
    {token : Token}
    {later : List Item}
    {e : LexError} :
    Item.collect (.ok token :: later) = .error e ↔
      Item.collect later = .error e := by
  rw [Item.collect]
  cases Item.collect later <;> simp [Except.map]

namespace Cursor

/-
  The tokens from a cursor up to its first fault, none of which
  is the end of input.
-/
inductive Stops : Cursor → List Token → LexError → Prop
| fault
    {c next : Cursor}
    {e : LexError}
    (hFault : c.nextToken = (.error e, next)) :
    Stops c [] e
| cons
    {c next : Cursor}
    {token : Token}
    {tokens : List Token}
    {e : LexError}
    (hToken : c.nextToken = (.ok token, next))
    (hKind : token.kind ≠ .eof)
    (hMore : Stops next tokens e) :
    Stops c (token :: tokens) e

variable {c last next : Cursor}
variable {tokens others : List Token}
variable {e other : LexError}

/- A supply that leads to a fault stops there. -/
theorem Supplies.stops
    (hSupply : c.Supplies tokens last)
    (hOpen : ∀ token ∈ tokens, token.kind ≠ .eof)
    (hFault : last.nextToken = (.error e, next)) :
    c.Stops tokens e := by
  induction hSupply with
  | nil => exact .fault hFault
  | cons hToken _ ih =>
      rw [List.forall_mem_cons] at hOpen
      exact .cons hToken hOpen.1 (ih hOpen.2 hFault)

/- Only tokens before the fault are supplied. -/
theorem Stops.prefix_of_supplies
    (hStops : c.Stops tokens e)
    (hSupply : c.Supplies others last) :
    others <+: tokens := by
  induction hStops generalizing others with
  | fault hFault =>
      cases hSupply with
      | nil => exact List.prefix_rfl
      | cons hToken _ =>
          rw [hFault] at hToken
          cases hToken
  | cons hToken _ _ ih =>
      cases hSupply with
      | nil => exact List.nil_prefix
      | cons hOther hMore =>
          rw [hToken] at hOther
          cases hOther
          rw [List.cons_prefix_cons]
          exact ⟨rfl, ih hMore⟩

/- A cursor stops at one fault. -/
theorem Stops.unique
    (hStops : c.Stops tokens e)
    (hOther : c.Stops others other) :
    others = tokens ∧ other = e := by
  induction hStops generalizing others with
  | fault hFault =>
      cases hOther with
      | fault hFault' =>
          rw [hFault] at hFault'
          cases hFault'
          exact ⟨rfl, rfl⟩
      | cons hToken _ _ =>
          rw [hFault] at hToken
          cases hToken
  | cons hToken _ _ ih =>
      cases hOther with
      | fault hFault =>
          rw [hToken] at hFault
          cases hFault
      | cons hToken' _ hMore =>
          rw [hToken] at hToken'
          cases hToken'
          rcases ih hMore with ⟨hTokens, hFault⟩
          exact ⟨congrArg (_ :: ·) hTokens, hFault⟩

/- A scanner yields the tokens up to the fault, and the fault. -/
theorem Stops.drain_eq
    (hStops : c.Stops tokens e) :
    (Scanner.drain { cursor := c, finished := false }).1 =
      tokens.map .ok ++ [.error e] := by
  induction hStops with
  | fault hFault => exact Scanner.drain_of_fault hFault
  | cons hToken hKind _ ih =>
      rw [Scanner.drain_of_open hToken hKind, ih]
      rfl

/-
  A scanner that fails has met a fault. Each item brings the
  cursor closer to the end of the text.
-/
theorem exists_stops
    (c : Cursor)
    (hCollect :
      Item.collect
          (Scanner.drain { cursor := c, finished := false }).1 =
        .error e) :
    ∃ tokens, c.Stops tokens e := by
  induction hLeft : c.bytesAhead using Nat.strongRecOn
    generalizing c with
  | ind left ih =>
      rcases hNext : c.nextToken with ⟨item, next⟩
      cases item with
      | error fault =>
          rw [Scanner.drain_of_fault hNext] at hCollect
          cases hCollect
          exact ⟨[], .fault hNext⟩
      | ok token =>
          by_cases hKind : token.kind = .eof
          · rw [Scanner.drain_of_eof hNext hKind] at hCollect
            cases hCollect
          · have hLess := bytesAhead_lt_of_open hNext hKind
            rw [hLeft] at hLess
            rw [Scanner.drain_of_open hNext hKind,
              Item.collect_cons_error_iff] at hCollect
            rcases ih _ hLess next hCollect rfl with
              ⟨tokens, hStops⟩
            exact ⟨token :: tokens, .cons hNext hKind hStops⟩

end Cursor

/- The lexical error of a text is its first fault. -/
theorem tokenize_eq_error_iff
    (source : String)
    (e : LexError) :
    tokenize source = .error e ↔
      ∃ tokens, (Cursor.start source).Stops tokens e := by
  constructor
  · intro hError
    exact Cursor.exists_stops (Cursor.start source) hError
  · intro hExists
    rcases hExists with ⟨tokens, hStops⟩
    change Item.collect (Scanner.start source).drain.1 = _
    rw [Scanner.start, hStops.drain_eq]
    exact Item.collect_append tokens (.error e)

------------------------------------------------------------
-- Meeting the Fault
------------------------------------------------------------

/-
  The diagnostic is about one of the tokens, and not about a
  jump whose label is missing.
-/
inductive Diagnostic.BlamesOneOf
    (tokens : List Token) : Diagnostic → Prop
| grammar
    {cause : GrammarCause}
    {token : Token}
    (hToken : token ∈ tokens) :
    BlamesOneOf tokens
      (.grammar { cause := cause, found := token })
| naming
    {cause : NamingCause}
    {token : Token}
    (hToken : token ∈ tokens)
    (hCause : cause ≠ .labelMissing) :
    BlamesOneOf tokens
      (.naming
        { cause := cause
          name := token.text
          line := token.line })

/- The diagnostic points to the line of one of the tokens. -/
theorem Diagnostic.BlamesOneOf.line_eq
    {tokens : List Token}
    {d : Diagnostic}
    (hBlames : d.BlamesOneOf tokens) :
    ∃ token ∈ tokens, d.line = token.line := by
  cases hBlames with
  | grammar hToken => exact ⟨_, hToken, rfl⟩
  | naming hToken _ => exact ⟨_, hToken, rfl⟩

/- No leaf offends by lacking a label. -/
theorem Leaf.offence_ne_labelMissing
    (leaf : Leaf) :
    leaf.offence ≠ .labelMissing := by
  cases leaf <;> simp [Leaf.offence]

variable {source : String}
variable {tokens : List Token}
variable {e : LexError}
variable {d : Diagnostic}

/- A token that is met with another behind it is not the last. -/
theorem mem_dropLast_of_met
    {before more : List Token}
    {token ahead : Token}
    (hMet : before ++ token :: ahead :: more <+: tokens) :
    token ∈ tokens.dropLast := by
  rcases hMet with ⟨rest, hTokens⟩
  rw [← hTokens, List.append_assoc, List.cons_append,
    List.cons_append, List.dropLast_append_of_ne_nil (by simp),
    List.dropLast_cons_of_ne_nil (by simp)]
  simp

/-
  In a text without NUL the end of input is no way to a fault,
  so what a parser fails to read is the fault of the text.
-/
theorem stops_of_supplies
    {last next : Cursor}
    (hNul : '\x00' ∉ source.toList)
    (hSupply : (Cursor.start source).Supplies tokens last)
    (hFault : last.nextToken = (.error e, next)) :
    (Cursor.start source).Stops tokens e := by
  apply hSupply.stops _ hFault
  intro token hToken hKind
  have hLast := (Cursor.clean_start hNul).supplies hSupply
  rcases Cursor.nextToken_of_ahead_nil hLast.1
      (hLast.2 (.inr ⟨token, hToken, hKind⟩)) with
    ⟨finish, after, hNext, _⟩
  rw [hFault] at hNext
  cases hNext

/- A text with a fault is no program. -/
theorem not_reads_of_stops
    {history : History}
    {program : Statements}
    (hStops : (Cursor.start source).Stops tokens e) :
    ¬ (Cursor.start source).Reads history program := by
  intro hReads
  have hError :=
    (tokenize_eq_error_iff source e).mpr ⟨tokens, hStops⟩
  rw [hReads.tokenize_eq] at hError
  cases hError

/-
  What is said of a text with a fault is the fault, or is about
  a token that stands before the last one the fault follows.
-/
theorem blames_of_stops
    (hNul : '\x00' ∉ source.toList)
    (hStops : (Cursor.start source).Stops tokens e)
    (hRefused : Refused (Cursor.start source) d) :
    d = .lexical e ∨ d.BlamesOneOf tokens.dropLast := by
  cases hRefused with
  | lexical hSupplied hFault =>
      have hOther := stops_of_supplies hNul hSupplied hFault
      rw [(hStops.unique hOther).2]
      exact .inl rfl
  | grammar hSupplied _ _ _ _ =>
      have hMet := hStops.prefix_of_supplies hSupplied
      exact .inr (.grammar (mem_dropLast_of_met hMet))
  | @naming history placed _ _ _ _ hSupplied _ _ _ _ =>
      have hMet := hStops.prefix_of_supplies hSupplied
      exact
        .inr
          (@Diagnostic.BlamesOneOf.naming _ _ placed.token
            (mem_dropLast_of_met hMet)
            placed.leaf.offence_ne_labelMissing)
  | stray hReads _ =>
      exact absurd hReads (not_reads_of_stops hStops)

/-
  A compilation and a scan agree on the lexical error of a text.
  Where the scan fails, the compilation fails as well, with the
  same error or with one about a token before the last one that
  the scan has yielded.
-/
theorem compile_error_lexical_agrees
    (hNul : '\x00' ∉ source.toList) :
    (∀ e, compile source = .error (.lexical e) →
        tokenize source = .error e) ∧
      (∀ tokens, tokenize source = .ok tokens →
          ∀ e, compile source ≠ .error (.lexical e)) ∧
        ∀ e, tokenize source = .error e →
          ∃ (tokens : List Token) (d : Diagnostic),
            (Scanner.start source).drain.1 =
                tokens.map .ok ++ [.error e] ∧
              compile source = .error d ∧
                (d = .lexical e ∨
                  d.BlamesOneOf tokens.dropLast ∧
                    ∃ token ∈ tokens.dropLast,
                      d.line = token.line) := by
  have hLexical :
      ∀ e, compile source = .error (.lexical e) →
        tokenize source = .error e := by
    intro e hCompile
    cases refused_of_compile hCompile with
    | lexical hSupplied hFault =>
        exact
          (tokenize_eq_error_iff source e).mpr
            ⟨_, stops_of_supplies hNul hSupplied hFault⟩
  refine ⟨hLexical, ?_, ?_⟩
  · intro tokens hTokens e hCompile
    rw [hLexical e hCompile] at hTokens
    cases hTokens
  · intro e hError
    rcases (tokenize_eq_error_iff source e).mp hError with
      ⟨tokens, hStops⟩
    cases hCompile : compile source with
    | ok text =>
        rcases reads_of_compile hCompile with
          ⟨history, program, hReads, _⟩
        exact absurd hReads (not_reads_of_stops hStops)
    | error d =>
        refine ⟨tokens, d, hStops.drain_eq, rfl, ?_⟩
        have hRefused := refused_of_compile hCompile
        rcases blames_of_stops hNul hStops hRefused with
          hSame | hBlames
        · exact .inl hSame
        · exact .inr ⟨hBlames, hBlames.line_eq⟩

/- A missing name is met before the fault behind it. -/
theorem compile_error_lexical_agrees_let :
    '\x00' ∉ "LET = 1 @".toList ∧
      ∃ e, tokenize "LET = 1 @" = .error e ∧
        ∃ (tokens : List Token) (d : Diagnostic),
          (Scanner.start "LET = 1 @").drain.1 =
              tokens.map .ok ++ [.error e] ∧
            compile "LET = 1 @" = .error d ∧
              (d = .lexical e ∨
                d.BlamesOneOf tokens.dropLast ∧
                  ∃ token ∈ tokens.dropLast,
                    d.line = token.line) := by
  have hError :
      tokenize "LET = 1 @" =
        .error
          { cause := .unknown '@', line := 1, position := 8 } := by
    decide +kernel
  have hAgrees :=
    @compile_error_lexical_agrees "LET = 1 @" (by decide)
  exact ⟨by decide, _, hError, hAgrees.2.2 _ hError⟩

end TeenyC
