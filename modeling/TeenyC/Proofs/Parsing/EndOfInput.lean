import TeenyC.Proofs.Parsing.Opened
import TeenyC.Proofs.Parsing.Twins

/-
  What stands behind a NUL, and when it is told apart.

  A NUL ends the input, but the compiler looks one token ahead,
  and so reads the token behind the NUL when it comes to the
  end. Two programs that differ only behind a NUL compile alike
  unless the compiler comes that far, and the token there is a
  fault in one of them and not the same in the other.

  Key definitions include:
    * `Cursor.Settles`
    * `Cursor.Agree`
    * `Cursor.behindNul`
    * `ReadsBehind`

  Key theorems include:
    * `Cursor.Agree.eq_iff`
    * `compile_twins`
    * `compile_nul_eq_iff`
-/

namespace TeenyC

variable {c : Cursor}

------------------------------------------------------------
-- Results behind the End of Input
------------------------------------------------------------

namespace Cursor

/-
  A result that is settled behind the end of input: the fault of
  the token there, or if it can be read, no token's fault.
-/
def Settles
    (c : Cursor)
    (result : Except Diagnostic String) : Prop :=
  match c.fault? with
  | some e => result = .error (.lexical e)
  | none => ∀ e, result ≠ .error (.lexical e)

/-
  Two results that are the same, or that are settled behind the
  end of input, where some token is a fault.
-/
def Agree
    (left right : Cursor)
    (result other : Except Diagnostic String) : Prop :=
  result = other ∨
    (left.fault? ≠ none ∨ right.fault? ≠ none) ∧
      left.Settles result ∧ right.Settles other

variable {left right : Cursor}
variable {result other : Except Diagnostic String}

/- A settled result is a token's fault if there is one behind. -/
theorem Settles.eq_error
    {e : LexError}
    (hSettles : c.Settles result)
    (hFault : c.fault? = some e) :
    result = .error (.lexical e) := by
  unfold Settles at hSettles
  rwa [hFault] at hSettles

/- A settled result is no token's fault if there is none behind. -/
theorem Settles.ne_error
    (hSettles : c.Settles result)
    (hFault : c.fault? = none)
    (e : LexError) :
    result ≠ .error (.lexical e) := by
  unfold Settles at hSettles
  rw [hFault] at hSettles
  exact hSettles e

/- Settled results tell the faults behind apart. -/
theorem Settles.fault?_eq
    (hLeft : left.Settles result)
    (hRight : right.Settles result) :
    left.fault? = right.fault? := by
  cases hFirst : left.fault? with
  | none =>
      cases hSecond : right.fault? with
      | none => rfl
      | some e =>
          exact
            absurd (hRight.eq_error hSecond)
              (hLeft.ne_error hFirst e)
  | some e =>
      cases hSecond : right.fault? with
      | none =>
          exact
            absurd (hLeft.eq_error hFirst)
              (hRight.ne_error hSecond e)
      | some d =>
          have hSame := hLeft.eq_error hFirst
          rw [hRight.eq_error hSecond] at hSame
          cases hSame
          rfl

/- Results agree if the faults behind them do. -/
theorem Agree.eq_of_fault?_eq
    (hAgree : Agree left right result other)
    (hFault : left.fault? = right.fault?) :
    result = other := by
  rcases hAgree with hSame | ⟨hSome, hLeft, hRight⟩
  · exact hSame
  · cases hFirst : left.fault? with
    | none =>
        rw [← hFault, hFirst] at hSome
        simp at hSome
    | some e =>
        rw [hLeft.eq_error hFirst,
          hRight.eq_error (hFault ▸ hFirst)]

/-
  Results that agree pairwise, and two texts that tell whether
  they depend on what stands behind the end of input: one that
  starts with a fault, and one that does not.
-/
section Families

variable {results : String → Except Diagnostic String}
variable {stops : String → Cursor}
variable {probe empty : String}
variable
  (hAgree : ∀ s t,
    Agree (stops s) (stops t) (results s) (results t))
include hAgree

/- Results that the two texts tell apart are settled. -/
theorem Agree.settles
    (hDiffer : results probe ≠ results empty)
    (s : String) :
    (stops s).Settles (results s) := by
  rcases hAgree s probe with hProbe | ⟨_, hSettles, _⟩
  · rcases hAgree s empty with hEmpty | ⟨_, hSettles, _⟩
    · exact absurd (hProbe.symm.trans hEmpty) hDiffer
    · exact hSettles
  · exact hSettles

/- Results that the two texts do not tell apart are the same. -/
theorem Agree.eq_empty
    (hProbe : (stops probe).fault? ≠ none)
    (hEmpty : (stops empty).fault? = none)
    (hSame : results probe = results empty)
    (s : String) :
    results s = results empty := by
  rcases hAgree s empty with hOther | ⟨_, _, hRead⟩
  · exact hOther
  · rcases hAgree s probe with hOther | ⟨_, _, hFault⟩
    · exact hOther.trans hSame
    · rw [hSame] at hFault
      rw [hFault.fault?_eq hRead, hEmpty] at hProbe
      exact absurd rfl hProbe

/-
  Results agree if and only if the faults behind them do, unless
  they do not depend on them.
-/
theorem Agree.eq_iff
    (hProbe : (stops probe).fault? ≠ none)
    (hEmpty : (stops empty).fault? = none)
    (first second : String) :
    results first = results second ↔
      (results probe ≠ results empty →
        (stops first).fault? = (stops second).fault?) := by
  constructor
  · intro hSame hDiffer
    have hFirst := Agree.settles hAgree hDiffer first
    rw [hSame] at hFirst
    exact hFirst.fault?_eq (Agree.settles hAgree hDiffer second)
  · intro hFaults
    by_cases hSame : results probe = results empty
    · rw [Agree.eq_empty hAgree hProbe hEmpty hSame first,
        Agree.eq_empty hAgree hProbe hEmpty hSame second]
    · exact
        (hAgree first second).eq_of_fault?_eq (hFaults hSame)

end Families

end Cursor

/- A run that ends behind the end of input settles its result. -/
theorem Production.Ends.settles
    {r : Except Diagnostic Unit × Session}
    (hEnds : Ends c r) :
    c.Settles (verdict r) := by
  unfold Ends at hEnds
  unfold Cursor.Settles
  rcases r with ⟨result, s⟩
  split
  · next e hFault =>
    rw [hFault] at hEnds
    change result = _ at hEnds
    rw [hEnds]
    rfl
  · next hFault =>
    rw [hFault] at hEnds
    intro e hSame
    cases result with
    | ok a => cases hSame
    | error d =>
        cases hSame
        exact hEnds e rfl

/- Runs that are paired have results that agree. -/
theorem Production.Paired.agree
    {left right : Cursor}
    {r q : Except Diagnostic Unit × Session}
    (hPaired : Paired left right r q) :
    Cursor.Agree left right (verdict r) (verdict q) := by
  cases hPaired with
  | same hTwins => cases hTwins <;> exact .inl rfl
  | failed => exact .inl rfl
  | parted hFault hLeft hRight =>
      exact .inr ⟨hFault, hLeft.settles, hRight.settles⟩

------------------------------------------------------------
-- Programs that Go On behind a NUL
------------------------------------------------------------

/- To read a program from its first token on is guarded. -/
theorem Grammar.guarded_opened :
    opened.Guarded fun s => s.current.kind ≠ .eof :=
  .of_current fun _ hOpen => (orderly_opened hOpen).guarded

/- Two programs with twin cursors have results that agree. -/
theorem compile_twins
    {left right : Cursor}
    {first second : String}
    (hTwins :
      Cursor.Twins left right (Cursor.start first)
        (Cursor.start second)) :
    Cursor.Agree left right (compile first) (compile second) := by
  have hOpened
      {c d : Cursor}
      {token : Token}
      (hSessions :
        (Session.opening token c).Twins left right
          (Session.opening token d)) :=
    (Grammar.guarded_opened.pairs left right _ _
      (by simp [Session.opening]) hSessions).agree
  cases hTwins with
  | token hFirst hSecond hMore =>
      rw [compile_of_ok hFirst, compile_of_ok hSecond]
      exact hOpened (.before hMore)
  | finish hFirst hSecond hKind =>
      rw [compile_of_ok hFirst, compile_of_ok hSecond]
      exact hOpened (.behind rfl hKind)
  | fault hFirst hSecond =>
      rw [compile_of_error hFirst, compile_of_error hSecond]
      exact .inl rfl

/- The cursor behind a NUL, with a text ahead. -/
def Cursor.behindNul (before text : String) : Cursor where
  ahead := text.toList ++ ['\n']
  entered := []
  position := Text.byteLength before.toList + 1
  line := 1 + before.toList.count '\n'

/- No token starts with `@`. -/
theorem Cursor.fault?_behindNul_at (before : String) :
    (Cursor.behindNul before "@").fault? ≠ none := by
  simp only [Cursor.behindNul, String.reduceToList]
  exact Option.some_ne_none _

/- A line break can be read. -/
theorem Cursor.fault?_behindNul_empty (before : String) :
    (Cursor.behindNul before "").fault? = none := by
  simp only [Cursor.behindNul, String.reduceToList]
  rfl

/-
  Whether the compiler reads on behind a NUL at the end of a
  text: if it does, it notices that no token starts with `@`.
-/
def ReadsBehind (before : String) : Prop :=
  compile (before ++ "\x00" ++ "@") ≠
    compile (before ++ "\x00" ++ "")

/-
  Two programs that differ only behind a NUL compile alike if
  and only if the compiler stops before it reads there, or the
  first tokens there can be read or are the same fault.
-/
theorem compile_nul_eq_iff
    {before : String}
    (hComments : ∀ text comment,
      before.toList = text ++ '#' :: comment → '\n' ∈ comment)
    (first second : String) :
    compile (before ++ "\x00" ++ first) =
        compile (before ++ "\x00" ++ second) ↔
      (ReadsBehind before →
        (Cursor.behindNul before first).fault? =
          (Cursor.behindNul before second).fault?) := by
  let c : Cursor :=
    { ahead := before.toList ++ ['\x00']
      entered := []
      position := 0
      line := 1 }
  have hClosed : c.Closed := ⟨rfl, before.toList, rfl, hComments⟩
  have hStart (text : String) :
      Cursor.start (before ++ "\x00" ++ text) =
        c.extend (text.toList ++ ['\n']) := by
    simp [Cursor.start, Cursor.extend, c]
  rcases hClosed.exists_twins with ⟨stop, hStop, hTwins⟩
  have hAgree (s t : String) :
      Cursor.Agree (stop.extend (s.toList ++ ['\n']))
        (stop.extend (t.toList ++ ['\n']))
        (compile (before ++ "\x00" ++ s))
        (compile (before ++ "\x00" ++ t)) := by
    apply compile_twins
    rw [hStart, hStart]
    exact hTwins _ _
  rcases hStop with hBehind | hInside
  · have hNul (text : String) :
        stop.extend (text.toList ++ ['\n']) =
          Cursor.behindNul before text := by
      have hSize : '\x00'.utf8Size = 1 := rfl
      rw [hBehind]
      simp [Cursor.behind, Cursor.pass, Cursor.extend,
        Cursor.behindNul, c, hSize]
    simp only [hNul] at hAgree
    exact
      Cursor.Agree.eq_iff hAgree
        (Cursor.fault?_behindNul_at before)
        (Cursor.fault?_behindNul_empty before) first second
  · have hSame (s t : String) :
        compile (before ++ "\x00" ++ s) =
          compile (before ++ "\x00" ++ t) := by
      apply (hAgree s t).eq_of_fault?_eq
      rw [hInside.fault?_extend, hInside.fault?_extend]
    exact
      iff_of_true (hSame first second)
        fun hReads => absurd (hSame _ _) hReads

/- A text without comments has none that goes on over a NUL. -/
theorem print_comments :
    ∀ text comment,
      "PRINT 1\n".toList = text ++ '#' :: comment →
        '\n' ∈ comment := by
  intro text comment hText
  have hMark : '#' ∉ "PRINT 1\n".toList := by decide
  exact absurd (hText ▸ by simp) hMark

/- Behind a NUL another statement may stand or the line may end. -/
theorem compile_nul_eq_print :
    (∀ text comment,
        "PRINT 1\n".toList = text ++ '#' :: comment →
          '\n' ∈ comment) ∧
      compile ("PRINT 1\n" ++ "\x00" ++ "PRINT 2") =
        compile ("PRINT 1\n" ++ "\x00" ++ "") :=
  ⟨print_comments,
    (compile_nul_eq_iff print_comments "PRINT 2" "").mpr
      fun _ => by decide +kernel⟩

/- A character behind a NUL that starts no token is a fault. -/
theorem compile_nul_ne_at :
    (∀ text comment,
        "PRINT 1\n".toList = text ++ '#' :: comment →
          '\n' ∈ comment) ∧
      compile ("PRINT 1\n" ++ "\x00" ++ "@") =
          .error
            (.lexical
              { cause := .unknown '@', line := 2, position := 9 }) ∧
        compile ("PRINT 1\n" ++ "\x00" ++ "@") ≠
          compile ("PRINT 1\n" ++ "\x00" ++ "") :=
  ⟨print_comments, by decide +kernel, by decide +kernel⟩

end TeenyC
