import Mathlib.Data.List.Basic
import TeenyC.File.Tree

/-
  Where paths lead, and what a file that is put into a tree
  changes.

  A path leads to a place if its names can be followed. A name is
  followed out of a directory, so a regular file that is put over
  no directory changes no path: each leads where it led before.

  Key definitions include:
    * `FileTree.Leads`
    * `FileTree.Saved`

  Key theorems include:
    * `FileTree.contents?_eq_some_iff`
    * `FileTree.Leads.unique`
    * `FileTree.leads_put_iff`
    * `FileTree.place_put_iff`
    * `FileTree.saved_put`
-/

namespace TeenyC

namespace FileTree

------------------------------------------------------------
-- Places
------------------------------------------------------------

/- A path leads to a place where a file may stand. -/
def Leads
    (tree : FileTree)
    (path : String)
    (location : Location) : Prop :=
  ∃ parts : FilePath,
    FilePath.ofString path = .ok parts ∧ parts.closed = false ∧
      tree.walk (parts.origin tree.working) parts.names =
        .ok location

/-
  The file at a path holds the bytes. Every other place is as it
  was, and so is what every path to another place gives.
-/
structure Saved
    (tree after : FileTree)
    (path : String)
    (bytes : List UInt8) : Prop where
  working : after.working = tree.working
  holds : after.contents? path = some bytes
  places :
    ∀ location,
      ¬ tree.Leads path location →
        after.lookup location = tree.lookup location
  paths :
    ∀ other,
      (∀ location,
        tree.Leads path location → ¬ tree.Leads other location) →
        after.contents? other = tree.contents? other

variable {tree after : FileTree}
variable {path : String}
variable {location place other : Location}
variable {bytes : List UInt8}
variable {node : Node}

/- A path leads to one place. -/
theorem Leads.unique
    (hLeads : tree.Leads path location)
    (hOther : tree.Leads path other) :
    location = other := by
  rcases hLeads with ⟨parts, hParts, _, hWalk⟩
  rcases hOther with ⟨parts', hParts', _, hWalk'⟩
  rw [hParts] at hParts'
  cases hParts'
  rw [hWalk] at hWalk'
  exact Except.ok.inj hWalk'

/- A chain of two steps succeeds if both do. -/
theorem bind_eq_ok_iff
    {α β : Type}
    {first : Except Fault α}
    {next : α → Except Fault β}
    {result : β} :
    (first >>= next) = .ok result ↔
      ∃ middle, first = .ok middle ∧ next middle = .ok result := by
  cases first <;> simp [bind, Except.bind]

/- A directory can be entered, and nothing else can. -/
theorem enter_eq_ok_iff :
    tree.enter location = .ok () ↔
      tree.lookup location = some .directory := by
  unfold enter
  split <;> simp_all

/-
  A node is found by a path whose names lead to its place. A path
  with a slash at its end finds directories only.
-/
theorem find_eq_ok_iff :
    tree.find path = .ok node ↔
      ∃ parts location,
        FilePath.ofString path = .ok parts ∧
          tree.walk (parts.origin tree.working) parts.names =
              .ok location ∧
            (parts.closed = true → node = .directory) ∧
              tree.lookup location = some node := by
  unfold find
  simp only [bind_eq_ok_iff]
  constructor
  · rintro ⟨parts, hParts, location, hWalk, hFind⟩
    refine ⟨parts, location, hParts, hWalk, ?_⟩
    split at hFind
    · rcases bind_eq_ok_iff.mp hFind with ⟨_, hEnter, hFound⟩
      rw [enter_eq_ok_iff.mp hEnter] at hFound ⊢
      cases hFound
      exact ⟨fun _ => rfl, rfl⟩
    · next hOpen =>
      split at hFind
      · cases hFind
      · next hSome =>
        cases hFind
        exact ⟨fun hClosed => absurd hClosed hOpen, hSome⟩
  · rintro ⟨parts, location, hParts, hWalk, hClosed, hFound⟩
    refine ⟨parts, hParts, location, hWalk, ?_⟩
    rw [hFound]
    split
    · next hSlash =>
      rw [hClosed hSlash] at hFound
      exact bind_eq_ok_iff.mpr ⟨(), enter_eq_ok_iff.mpr hFound, rfl⟩
    · rfl

/- A regular file is read by a path that leads to its place. -/
theorem contents?_eq_some_iff :
    tree.contents? path = some bytes ↔
      ∃ location,
        tree.Leads path location ∧
          tree.lookup location = some (.regular bytes) := by
  have hFind :
      tree.contents? path = some bytes ↔
        tree.find path = .ok (.regular bytes) := by
    unfold contents?
    split <;> simp_all
  rw [hFind, find_eq_ok_iff]
  constructor
  · rintro ⟨parts, location, hParts, hWalk, hClosed, hFound⟩
    exact
      ⟨location, ⟨parts, hParts, by simpa using hClosed, hWalk⟩,
        hFound⟩
  · rintro ⟨location, ⟨parts, hParts, hOpen, hWalk⟩, hFound⟩
    exact
      ⟨parts, location, hParts, hWalk, by simp [hOpen], hFound⟩

/-
  The place of a file to be made is reached from its directory,
  by a name that stands for itself.
-/
theorem place_eq_ok_iff :
    tree.place path = .ok location ↔
      ∃ parts name parent,
        FilePath.ofString path = .ok parts ∧
          parts.closed = false ∧
            parts.names.getLast? = some name ∧
              (name ≠ "." ∧ name ≠ "..") ∧
                tree.walk (parts.origin tree.working)
                    parts.names.dropLast = .ok parent ∧
                  tree.walkName parent name = .ok location := by
  unfold place
  rw [bind_eq_ok_iff]
  constructor
  · rintro ⟨parts, hParts, hPlace⟩
    split at hPlace
    · cases hPlace
    · next name hName =>
      simp only [bind_eq_ok_iff] at hPlace
      rcases hPlace with ⟨parent, hWalk, _, _, hPlace⟩
      split at hPlace
      · rcases bind_eq_ok_iff.mp hPlace with ⟨_, hThrow, _⟩
        cases hThrow
      · next hProper =>
        simp only [Bool.or_eq_true, decide_eq_true_eq, not_or,
          Bool.not_eq_true] at hProper
        exact
          ⟨parts, name, parent, hParts, hProper.1.1, hName,
            ⟨hProper.1.2, hProper.2⟩, hWalk, hPlace⟩
  · rintro
      ⟨parts, name, parent, hParts, hOpen, hName,
        ⟨hDot, hDots⟩, hWalk, hStep⟩
    refine ⟨parts, hParts, ?_⟩
    rw [hName]
    have hEnter : tree.enter parent = .ok () := by
      rcases bind_eq_ok_iff.mp hStep with ⟨_, hEnter, _⟩
      exact hEnter
    simp only [bind_eq_ok_iff]
    refine ⟨parent, hWalk, (), hEnter, ?_⟩
    rw [if_neg (by simp [hOpen, hDot, hDots])]
    exact hStep

/- A path leads to the place of the file that it makes. -/
theorem leads_of_place
    (hPlace : tree.place path = .ok location) :
    tree.Leads path location := by
  rcases place_eq_ok_iff.mp hPlace with
    ⟨parts, name, parent, hParts, hOpen, hName, _, hWalk, hStep⟩
  refine ⟨parts, hParts, hOpen, ?_⟩
  rw [← List.dropLast_append_getLast? name hName]
  unfold walk at hWalk ⊢
  rw [List.foldlM_append, hWalk]
  change [name].foldlM tree.walkName parent = _
  rw [List.foldlM_cons, hStep]
  rfl

------------------------------------------------------------
-- Trees with a File Put into Them
------------------------------------------------------------

/- What is put at a place is what was put there last. -/
theorem put_put
    (tree : FileTree)
    (location : Location)
    (first second : Node) :
    (tree.put location first).put location second =
      tree.put location second := by
  simp [put, List.filter_filter]

section

/- A place where no directory stands. -/
variable (hFree : tree.lookup place ≠ some .directory)

include hFree

/- A file over no directory opens and closes no directory. -/
theorem enter_put_iff
    {result : Unit} :
    (tree.put place (.regular bytes)).enter location =
        .ok result ↔
      tree.enter location = .ok result := by
  rw [enter_eq_ok_iff, enter_eq_ok_iff]
  by_cases hHere : location = place
  · subst hHere
    rw [lookup_put_self]
    simpa using hFree
  · rw [lookup_put_of_ne tree hHere]

/- Names lead where they led before. -/
theorem walk_put_iff
    {names : List String}
    {start : Location} :
    (tree.put place (.regular bytes)).walk start names =
        .ok location ↔
      tree.walk start names = .ok location := by
  unfold walk
  induction names generalizing start with
  | nil => rfl
  | cons name names ih =>
      rw [List.foldlM_cons, List.foldlM_cons, bind_eq_ok_iff,
        bind_eq_ok_iff]
      simp only [ih, walkName, bind_eq_ok_iff, enter_put_iff hFree]

/- Paths lead where they led before. -/
theorem leads_put_iff :
    (tree.put place (.regular bytes)).Leads path location ↔
      tree.Leads path location := by
  unfold Leads
  simp only [walk_put_iff hFree]
  rfl

/- Files can be made where they could be made before. -/
theorem place_put_iff :
    (tree.put place (.regular bytes)).place path =
        .ok location ↔
      tree.place path = .ok location := by
  simp only [place_eq_ok_iff, walk_put_iff hFree, walkName,
    bind_eq_ok_iff, enter_put_iff hFree]
  rfl

/-
  A file that is put at a path is saved there. Another path gives
  a file before if and only if it gives the same one after.
-/
theorem saved_put
    (hPlace : tree.place path = .ok place) :
    tree.Saved (tree.put place (.regular bytes)) path bytes := by
  have hLeads := leads_of_place hPlace
  constructor
  case working => rfl
  case holds =>
    rw [contents?_eq_some_iff]
    exact
      ⟨place, (leads_put_iff hFree).mpr hLeads,
        lookup_put_self tree place _⟩
  case places =>
    intro location hOther
    apply lookup_put_of_ne
    rintro rfl
    exact hOther hLeads
  case paths =>
    intro other hOther
    apply Option.ext
    intro held
    rw [contents?_eq_some_iff, contents?_eq_some_iff]
    apply exists_congr
    intro location
    rw [leads_put_iff hFree]
    apply and_congr_right
    intro hLocation
    rw [lookup_put_of_ne]
    rintro rfl
    exact hOther location hLeads hLocation

end

end FileTree

end TeenyC
