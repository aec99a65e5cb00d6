import TeenyC.Token.Basic
import Mathlib.Data.List.Induction

/-
  The leaves of syntax trees.

  A leaf is a word of the program together with the part it
  plays there. An identifier plays one of four parts: it is
  read, assigned to, declared as a label, or jumped to.

  Key definitions include:
    * `Word`
    * `Leaf`
    * `Leaf.word`
    * `Leaf.targets`
    * `Leaf.labels`
    * `Leaf.Allowed`
    * `Leaf.WellNamed`
    * `Leaf.JumpsLand`
-/

namespace TeenyC

------------------------------------------------------------
-- Words
------------------------------------------------------------

/- A word is a token without its line. -/
abbrev Word := Kind × String

/- The word of a token. -/
def Token.word (token : Token) : Word :=
  (token.kind, token.text)

------------------------------------------------------------
-- Leaves
------------------------------------------------------------

/- A word of a program with the part it plays. -/
inductive Leaf where
| finish
| newline
| number (text : String)
| literal (contents : String)
| keyword (word : Keyword)
| sign (operator : Operator)
| operand (name : String)
| target (name : String)
| label (name : String)
| jump (name : String)
deriving DecidableEq

namespace Leaf

/- The kind of a leaf's word. -/
def kind : Leaf → Kind
| .finish => .eof
| .newline => .newline
| .number _ => .number
| .literal _ => .string
| .keyword word => .keyword word
| .sign operator => .operator operator
| .operand _ | .target _ | .label _ | .jump _ => .ident

/- The text of a leaf's word. -/
def text : Leaf → String
| .finish => ""
| .newline => "\n"
| .number text => text
| .literal contents => contents
| .keyword word => word.spelling
| .sign operator => operator.spelling
| .operand name | .target name | .label name | .jump name => name

/- The word that a leaf stands for. -/
def word (leaf : Leaf) : Word :=
  (leaf.kind, leaf.text)

/- What words tell is the same of leaves and tokens of one text. -/
theorem filterMap_of_words
    {leaves : List Leaf}
    {tokens : List Token}
    {told? : Leaf → Option String}
    {tells? : Word → Option String}
    (hTold : ∀ leaf, told? leaf = tells? leaf.word)
    (hWords : leaves.map Leaf.word = tokens.map Token.word) :
    leaves.filterMap told? =
      tokens.filterMap fun token => tells? token.word := by
  have hSame : told? = tells? ∘ Leaf.word := funext hTold
  calc
    leaves.filterMap told? =
        (leaves.map Leaf.word).filterMap tells? := by
      rw [List.filterMap_map, hSame]
    _ = (tokens.map Token.word).filterMap tells? := by
      rw [hWords]
    _ = tokens.filterMap fun token => tells? token.word := by
      rw [List.filterMap_map]
      rfl

/- The variable that a leaf assigns to. -/
def target? : Leaf → Option String
| .target name => some name
| _ => none

/- The label that a leaf declares. -/
def label? : Leaf → Option String
| .label name => some name
| _ => none

/- The label that a leaf jumps to. -/
def jump? : Leaf → Option String
| .jump name => some name
| _ => none

/- The variables that leaves assign to, in their order. -/
def targets (leaves : List Leaf) : List String :=
  leaves.filterMap target?

/- The labels that leaves declare, in their order. -/
def labels (leaves : List Leaf) : List String :=
  leaves.filterMap label?

/- The targets of a longer list of leaves. -/
@[simp]
theorem targets_append
    (leaves more : List Leaf) :
    targets (leaves ++ more) = targets leaves ++ targets more :=
  List.filterMap_append

/- The labels of a longer list of leaves. -/
@[simp]
theorem labels_append
    (leaves more : List Leaf) :
    labels (leaves ++ more) = labels leaves ++ labels more :=
  List.filterMap_append

/- The targets of leaves from the first on. -/
@[simp]
theorem targets_cons
    (leaf : Leaf)
    (leaves : List Leaf) :
    targets (leaf :: leaves) =
      leaf.target?.toList ++ targets leaves := by
  cases leaf <;> rfl

/- The labels of leaves from the first on. -/
@[simp]
theorem labels_cons
    (leaf : Leaf)
    (leaves : List Leaf) :
    labels (leaf :: leaves) =
      leaf.label?.toList ++ labels leaves := by
  cases leaf <;> rfl

/- No leaves have no targets. -/
@[simp]
theorem targets_nil : targets [] = [] := rfl

/- No leaves have no labels. -/
@[simp]
theorem labels_nil : labels [] = [] := rfl

/- Assigning to a variable makes it a target. -/
theorem mem_targets_iff
    {leaves : List Leaf}
    {name : String} :
    name ∈ targets leaves ↔ .target name ∈ leaves := by
  constructor
  · intro hName
    rcases List.mem_filterMap.mp hName with
      ⟨leaf, hLeaf, hTarget⟩
    cases leaf <;> simp [target?] at hTarget
    subst hTarget
    exact hLeaf
  · intro hLeaf
    exact List.mem_filterMap.mpr ⟨_, hLeaf, rfl⟩

/- Declaring a label makes it one of the labels. -/
theorem mem_labels_iff
    {leaves : List Leaf}
    {name : String} :
    name ∈ labels leaves ↔ .label name ∈ leaves := by
  constructor
  · intro hName
    rcases List.mem_filterMap.mp hName with
      ⟨leaf, hLeaf, hLabel⟩
    cases leaf <;> simp [label?] at hLabel
    subst hLabel
    exact hLeaf
  · intro hLeaf
    exact List.mem_filterMap.mpr ⟨_, hLeaf, rfl⟩

/- A leaf that assigns to no variable and declares no label. -/
def IsPlain (leaf : Leaf) : Prop :=
  leaf.target? = none ∧ leaf.label? = none

/- Plain leaves have no targets. -/
theorem targets_of_plain
    {leaves : List Leaf}
    (hPlain : ∀ leaf ∈ leaves, leaf.IsPlain) :
    targets leaves = [] :=
  List.filterMap_eq_nil_iff.mpr fun leaf hLeaf =>
    (hPlain leaf hLeaf).1

/- Plain leaves have no labels. -/
theorem labels_of_plain
    {leaves : List Leaf}
    (hPlain : ∀ leaf ∈ leaves, leaf.IsPlain) :
    labels leaves = [] :=
  List.filterMap_eq_nil_iff.mpr fun leaf hLeaf =>
    (hPlain leaf hLeaf).2

------------------------------------------------------------
-- Rules for Names
------------------------------------------------------------

/-
  A variable may be read after an assignment to it, and a label
  may be declared once.
-/
def Allowed (before : List Leaf) : Leaf → Prop
| .operand name => .target name ∈ before
| .label name => .label name ∉ before
| _ => True

/- A leaf that is not allowed breaks one of the two rules. -/
theorem Allowed.cases_not
    {before : List Leaf}
    {leaf : Leaf}
    (hOffends : ¬ leaf.Allowed before) :
    (∃ name, leaf = .operand name ∧ .target name ∉ before) ∨
      ∃ name, leaf = .label name ∧ .label name ∈ before := by
  cases leaf with
  | operand name => exact .inl ⟨name, rfl, hOffends⟩
  | label name => exact .inr ⟨name, rfl, not_not.mp hOffends⟩
  | _ => exact absurd trivial hOffends

/- Every leaf is allowed after the leaves before it. -/
def WellNamed (leaves : List Leaf) : Prop :=
  ∀ before leaf after,
    leaves = before ++ leaf :: after → leaf.Allowed before

/- Every jump goes to a declared label. -/
def JumpsLand (leaves : List Leaf) : Prop :=
  ∀ name, .jump name ∈ leaves → .label name ∈ leaves

/- Whether a leaf is allowed can be checked. -/
instance decidableAllowed
    (before : List Leaf)
    (leaf : Leaf) : Decidable (leaf.Allowed before) :=
  match leaf with
  | .operand _ => inferInstanceAs (Decidable (_ ∈ before))
  | .label _ => inferInstanceAs (Decidable (_ ∉ before))
  | .finish | .newline | .number _ | .literal _ | .keyword _
  | .sign _ | .target _ | .jump _ => isTrue trivial

/- The rules for names, place by place. -/
theorem wellNamed_iff_getElem
    {leaves : List Leaf} :
    WellNamed leaves ↔
      ∀ i, (hBound : i < leaves.length) →
        leaves[i].Allowed (leaves.take i) := by
  constructor
  · intro hNamed i hBound
    apply hNamed (leaves.take i) leaves[i] (leaves.drop (i + 1))
    rw [← List.drop_eq_getElem_cons hBound,
      List.take_append_drop]
  · rintro hNamed before leaf after rfl
    have hHere := hNamed before.length (by simp)
    simpa using hHere

/- Whether the rules for names are kept can be checked. -/
instance decidableWellNamed (leaves : List Leaf) :
    Decidable (WellNamed leaves) :=
  decidable_of_iff' _ wellNamed_iff_getElem

/- Whether all jumps land can be checked leaf by leaf. -/
instance decidableJumpsLand (leaves : List Leaf) :
    Decidable (JumpsLand leaves) :=
  decidable_of_iff
    (∀ leaf ∈ leaves, ∀ name ∈ leaf.jump?, .label name ∈ leaves)
    (by
      constructor
      · intro hLand name hJump
        exact hLand _ hJump name rfl
      · intro hLand leaf hMember name hName
        cases leaf <;> simp [jump?] at hName
        subst hName
        exact hLand _ hMember)

/- Every variable that is read has been assigned to before. -/
def AssignedBeforeUse (leaves : List Leaf) : Prop :=
  ∀ before name after,
    leaves = before ++ .operand name :: after →
      .target name ∈ before

/- Where a list that ends in `last` is split, the split is at `last` or before. -/
theorem append_singleton_eq
    {leaves before after : List Leaf}
    {last leaf : Leaf}
    (hSplit : leaves ++ [last] = before ++ leaf :: after) :
    (before = leaves ∧ last = leaf ∧ after = []) ∨
      ∃ shorter, leaves = before ++ leaf :: shorter := by
  rcases List.eq_nil_or_concat after with
    hNil | ⟨shorter, final, hAfter⟩
  · subst hNil
    have hEnds := List.append_inj' hSplit rfl
    simp only [List.cons.injEq, and_true] at hEnds
    exact .inl ⟨hEnds.1.symm, hEnds.2, rfl⟩
  · subst hAfter
    rw [List.concat_eq_append, ← List.cons_append,
      ← List.append_assoc] at hSplit
    exact .inr ⟨shorter, (List.append_inj' hSplit rfl).1⟩

/- No leaves break no rule. -/
theorem wellNamed_nil : WellNamed [] := by
  intro before leaf after hSplit
  simp at hSplit

/- The rules are checked leaf by leaf. -/
theorem wellNamed_snoc_iff
    {leaves : List Leaf}
    {last : Leaf} :
    WellNamed (leaves ++ [last]) ↔
      WellNamed leaves ∧ last.Allowed leaves := by
  constructor
  · intro hNamed
    refine ⟨?_, hNamed leaves last [] rfl⟩
    intro before leaf after hSplit
    exact hNamed before leaf (after ++ [last])
      (by simp [hSplit])
  · intro hBoth before leaf after hSplit
    rcases hBoth with ⟨hNamed, hLast⟩
    rcases append_singleton_eq hSplit with
      ⟨hBefore, hLeaf, _⟩ | ⟨shorter, hBefore⟩
    · rwa [hBefore, ← hLeaf]
    · exact hNamed before leaf shorter hBefore

/- A further leaf adds to the condition on reading variables. -/
theorem assignedBeforeUse_snoc_iff
    {leaves : List Leaf}
    {last : Leaf} :
    AssignedBeforeUse (leaves ++ [last]) ↔
      AssignedBeforeUse leaves ∧
        ∀ name, last = .operand name → .target name ∈ leaves := by
  constructor
  · intro hAssigned
    refine ⟨?_, ?_⟩
    · intro before name after hSplit
      exact hAssigned before name (after ++ [last])
        (by simp [hSplit])
    · intro name hLast
      exact hAssigned leaves name [] (by rw [hLast])
  · intro hBoth before name after hSplit
    rcases hBoth with ⟨hAssigned, hLast⟩
    rcases append_singleton_eq hSplit with
      ⟨hBefore, hLeaf, _⟩ | ⟨shorter, hBefore⟩
    · rw [hBefore]
      exact hLast name hLeaf
    · exact hAssigned before name shorter hBefore

/- The rules for names, each on its own. -/
theorem wellNamed_iff
    {leaves : List Leaf} :
    WellNamed leaves ↔
      AssignedBeforeUse leaves ∧ (labels leaves).Nodup := by
  induction leaves using List.reverseRecOn with
  | nil =>
      refine iff_of_true wellNamed_nil ⟨?_, List.nodup_nil⟩
      intro before name after hSplit
      simp at hSplit
  | append_singleton leaves last ih =>
      rw [wellNamed_snoc_iff, ih, assignedBeforeUse_snoc_iff]
      cases last with
      | label name =>
          have hNodup :
              (labels (leaves ++ [.label name])).Nodup ↔
                (labels leaves).Nodup ∧ .label name ∉ leaves := by
            rw [← mem_labels_iff, labels_append,
              ← List.nodup_cons.trans and_comm]
            exact List.perm_append_singleton _ _ |>.nodup_iff
          simp only [hNodup, Allowed, reduceCtorEq,
            IsEmpty.forall_iff, implies_true, and_true, and_assoc]
      | _ => simp [Allowed, label?, and_right_comm]

end Leaf

end TeenyC
