import TeenyC.File.Access
import TeenyC.Proofs.Artifact.Handover
import TeenyC.Proofs.File.Path

/-
  Programs compiled to files, one after the other.

  A program that is refused changes nothing, and neither does a
  file that cannot be made. Otherwise the file at the path holds
  the C text and nothing else, whatever it held before. Paths lead
  where they led before, so after any number of programs each
  place holds the last text that was written there.

  Key definitions include:
    * `FileTree.IsDevice`
    * `Request`
    * `compileEach`
    * `Request.Ends`
    * `Request.EndEach`
    * `FileTree.written?`

  Key theorems include:
    * `FileTree.write_cases`
    * `Request.ends_compileTo`
    * `Request.written?_put`
    * `compileEach_saves`
-/

namespace TeenyC

namespace FileTree

------------------------------------------------------------
-- Writing
------------------------------------------------------------

/- A path leads to a device, which keeps no bytes. -/
def IsDevice
    (tree : FileTree)
    (path : String) : Prop :=
  ∃ location room,
    tree.place path = .ok location ∧
      tree.lookup location = some (.device room)

variable {tree : FileTree}
variable {path : String}
variable {location : Location}
variable {a : Artifact}

/- In a tree of directories and regular files there is no device. -/
theorem not_isDevice_of_files
    (hFiles :
      ∀ entry ∈ tree.nodes,
        entry.2 = .directory ∨ ∃ bytes, entry.2 = .regular bytes)
    (path : String) :
    ¬ tree.IsDevice path := by
  rintro ⟨location, room, _, hNode⟩
  rcases List.lookup_eq_some_iff.mp hNode with
    ⟨before, after, hNodes, _⟩
  have hMember : (location, Node.device room) ∈ tree.nodes := by
    simp [hNodes]
  rcases hFiles _ hMember with hKind | ⟨_, hKind⟩ <;> cases hKind

/- A file can be made at any place where no directory stands. -/
theorem exists_create_iff :
    (∃ made, tree.create path = .ok (location, made)) ↔
      tree.place path = .ok location ∧
        tree.lookup location ≠ some .directory := by
  unfold create
  simp only [bind_eq_ok_iff]
  constructor
  · rintro ⟨made, place, hPlace, hMade⟩
    split at hMade
    · cases hMade
    all_goals
      next hNode =>
      cases hMade
      exact ⟨hPlace, by simp [hNode]⟩
  · rintro ⟨hPlace, hFree⟩
    cases hNode : tree.lookup location with
    | none => exact ⟨_, location, hPlace, by rw [hNode]; rfl⟩
    | some node =>
        cases node with
        | directory => exact absurd hNode hFree
        | regular _ | device _ =>
            exact ⟨_, location, hPlace, by rw [hNode]; rfl⟩

/- Without limits the whole of an artifact is handed over. -/
theorem writeTo_fresh (a : Artifact) :
    a.writeTo (Sink.fresh none) =
      (true,
        { taken := Text.encode a.output.toList
          room := none }) := by
  rw [a.writeTo_eq_accept, Sink.accept_of_unlimited rfl]
  rfl

/-
  A file that cannot be made changes nothing. One that is made and
  is no device takes the whole of an artifact.
-/
theorem write_cases
    (hDevice : ¬ tree.IsDevice path)
    (a : Artifact) :
    (∃ fault,
        tree.create path = .error fault ∧
          tree.write path a = (.error fault, tree)) ∨
      ∃ location,
        tree.place path = .ok location ∧
          tree.lookup location ≠ some .directory ∧
            tree.write path a =
              (.ok (),
                tree.put location
                  (.regular (Text.encode a.output.toList))) := by
  cases hCreate : tree.create path with
  | error fault => exact .inl ⟨fault, rfl, by simp [write, hCreate]⟩
  | ok made =>
      rcases made with ⟨location, room, created⟩
      rcases exists_create_iff.mp ⟨_, hCreate⟩ with
        ⟨hPlace, hFree⟩
      refine .inr ⟨location, hPlace, hFree, ?_⟩
      have hMade :
          room = none ∧
            created = tree.put location (.regular []) := by
        unfold create at hCreate
        rw [hPlace] at hCreate
        dsimp only [bind, Except.bind] at hCreate
        split at hCreate
        · cases hCreate
        · next hNode =>
          exact absurd ⟨location, _, hPlace, hNode⟩ hDevice
        · cases hCreate
          exact ⟨rfl, rfl⟩
        · cases hCreate
          exact ⟨rfl, rfl⟩
      obtain ⟨rfl, rfl⟩ := hMade
      simp [write, hCreate, writeTo_fresh, fill, lookup_put_self,
        put_put]

/- A write that fails changes nothing, on a device either. -/
theorem write_of_error
    {after : FileTree}
    {fault : Fault}
    (hWrite : tree.write path a = (.error fault, after)) :
    after = tree := by
  by_cases hDevice : tree.IsDevice path
  · rcases hDevice with ⟨location, room, hPlace, hNode⟩
    have hCreate :
        tree.create path = .ok (location, room, tree) := by
      unfold create
      rw [hPlace]
      dsimp only [bind, Except.bind]
      rw [hNode]
      rfl
    simp only [write, hCreate, fill, hNode, Prod.mk.injEq] at hWrite
    exact hWrite.2.symm
  · rcases write_cases hDevice a with
      ⟨_, _, hSame⟩ | ⟨location, _, _, hSame⟩
    · rw [hSame] at hWrite
      exact (Prod.mk.inj hWrite).2.symm
    · rw [hSame] at hWrite
      cases hWrite

end FileTree

------------------------------------------------------------
-- Compilations to Files
------------------------------------------------------------

/- A compilation to a file of a tree, with its one write. -/
theorem compileTo_access
    (source path : String)
    (tree : FileTree) :
    compileTo FileTree.access source path tree =
      match (Compilation.ofSource source).result with
      | .error d =>
          ((.error (.refused d),
            (Compilation.ofSource source).events), tree)
      | .ok a =>
          match tree.write path a with
          | (.error fault, after) =>
              ((.error (.unwritable path fault),
                (Compilation.ofSource source).events), after)
          | (.ok (), after) =>
              ((.ok (),
                (Compilation.ofSource source).events.push
                  (.wrote path a.output.utf8ByteSize)), after) := by
  unfold compileTo
  cases (Compilation.ofSource source).result with
  | error d => rfl
  | ok a =>
      simp only [bind, StateT.bind, Artifact.save, FileTree.access]
      rcases tree.write path a with ⟨result, after⟩
      cases result <;> rfl

/- A compilation to a file that fails changes nothing. -/
theorem compileTo_of_error
    {source path : String}
    {tree after : FileTree}
    {failure : Failure}
    {events : Array Event}
    (hRun :
      compileTo FileTree.access source path tree =
        ((.error failure, events), after)) :
    after = tree := by
  rw [compileTo_access] at hRun
  split at hRun
  · cases hRun
    rfl
  · split at hRun
    · next hWrite =>
      cases hRun
      exact FileTree.write_of_error hWrite
    · cases hRun

------------------------------------------------------------
-- Requests
------------------------------------------------------------

/- A program text, and the path to compile it to. -/
structure Request where
  source : String
  path : String
deriving DecidableEq

/- Compile one program after the other, also after failures. -/
def compileEach
    {m : Type → Type}
    [Monad m]
    (files : FileAccess m)
    (requests : List Request) : m (List (Except Failure Unit)) :=
  requests.mapM fun request => do
    let (result, _) ← compileTo files request.source request.path
    return result

namespace Request

/-
  How a request may end. A refused program and a file that cannot
  be made leave the tree as it is; otherwise the C text is saved
  at the path, and nothing else changes.
-/
inductive Ends (tree : FileTree) (request : Request) :
    Except Failure Unit → FileTree → Prop
| refused
    {d : Diagnostic}
    (hRefused : compile request.source = .error d) :
    Ends tree request (.error (.refused d)) tree
| unwritable
    {text : String}
    {fault : Fault}
    (hText : compile request.source = .ok text)
    (hFault : tree.create request.path = .error fault) :
    Ends tree request (.error (.unwritable request.path fault)) tree
| saved
    {text : String}
    {after : FileTree}
    (hText : compile request.source = .ok text)
    (hMade : ∃ made, tree.create request.path = .ok made)
    (hSaved :
      tree.Saved after request.path (Text.encode text.toList)) :
    Ends tree request (.ok ()) after

/- Each request ends in the tree that the one before it leaves. -/
inductive EndEach :
    FileTree → List Request → List (Except Failure Unit) →
      FileTree → Prop
| nil {tree : FileTree} : EndEach tree [] [] tree
| cons
    {tree middle after : FileTree}
    {request : Request}
    {requests : List Request}
    {result : Except Failure Unit}
    {results : List (Except Failure Unit)}
    (hFirst : request.Ends tree result middle)
    (hMore : EndEach middle requests results after) :
    EndEach tree (request :: requests) (result :: results) after

/- What a request writes to a place, if it writes there. -/
def written?
    (tree : FileTree)
    (location : Location)
    (request : Request) : Option (List UInt8) :=
  match compile request.source, tree.create request.path with
  | .ok text, .ok (place, _) =>
      if place = location then some (Text.encode text.toList)
      else none
  | _, _ => none

variable {tree after : FileTree}
variable {request : Request}
variable {location place : Location}
variable {bytes : List UInt8}

/- A request writes where its file can be made, if it compiles. -/
theorem written?_eq_some_iff :
    request.written? tree location = some bytes ↔
      (∃ text,
          compile request.source = .ok text ∧
            Text.encode text.toList = bytes) ∧
        tree.place request.path = .ok location ∧
          tree.lookup location ≠ some .directory := by
  rw [← FileTree.exists_create_iff]
  unfold written?
  split
  · next text place made hText hMade =>
    simp only [hText, hMade, Except.ok.injEq, exists_eq_left',
      Prod.mk.injEq, Option.ite_none_right_eq_some,
      Option.some.injEq]
    grind
  · next hNone =>
    constructor
    · intro hSome
      cases hSome
    · rintro ⟨⟨text, hText, _⟩, made, hMade⟩
      exact absurd hMade (hNone text _ _ hText)

/-
  What a request comes to: it is refused, or its file cannot be
  made, or its C text is put at the place of its file.
-/
theorem compileTo_cases
    (hDevice : ¬ tree.IsDevice request.path)
    {result : Except Failure Unit}
    {events : Array Event}
    (hRun :
      compileTo FileTree.access request.source request.path tree =
        ((result, events), after)) :
    (∃ d,
        compile request.source = .error d ∧
          result = .error (.refused d) ∧ after = tree) ∨
      ∃ text,
        compile request.source = .ok text ∧
          ((∃ fault,
              tree.create request.path = .error fault ∧
                result = .error (.unwritable request.path fault) ∧
                  after = tree) ∨
            ∃ location,
              tree.place request.path = .ok location ∧
                tree.lookup location ≠ some .directory ∧
                  result = .ok () ∧
                    after =
                      tree.put location
                        (.regular (Text.encode text.toList))) := by
  rw [compileTo_access] at hRun
  unfold compile
  split at hRun
  · next d hResult =>
    cases hRun
    exact .inl ⟨d, by rw [hResult]; rfl, rfl, rfl⟩
  · next a hResult =>
    refine .inr ⟨a.output, by rw [hResult]; rfl, ?_⟩
    rcases FileTree.write_cases hDevice a with
      ⟨fault, hCreate, hWrite⟩ |
      ⟨location, hPlace, hFree, hWrite⟩
    · rw [hWrite] at hRun
      cases hRun
      exact .inl ⟨fault, hCreate, rfl, rfl⟩
    · rw [hWrite] at hRun
      cases hRun
      exact .inr ⟨location, hPlace, hFree, rfl, rfl⟩

/- A request ends as requests may. -/
theorem ends_compileTo
    (hDevice : ¬ tree.IsDevice request.path)
    {result : Except Failure Unit}
    {events : Array Event}
    (hRun :
      compileTo FileTree.access request.source request.path tree =
        ((result, events), after)) :
    request.Ends tree result after := by
  rcases compileTo_cases hDevice hRun with
    ⟨d, hText, hResult, hAfter⟩ |
    ⟨text, hText,
      ⟨fault, hFault, hResult, hAfter⟩ |
      ⟨location, hPlace, hFree, hResult, hAfter⟩⟩
  · rw [hResult, hAfter]
    exact .refused hText
  · rw [hResult, hAfter]
    exact .unwritable hText hFault
  · rcases FileTree.exists_create_iff.mpr ⟨hPlace, hFree⟩ with
      ⟨made, hMade⟩
    rw [hResult, hAfter]
    exact .saved hText ⟨_, hMade⟩ (FileTree.saved_put hFree hPlace)

------------------------------------------------------------
-- Requests One after the Other
------------------------------------------------------------

section

/- A place where no directory stands. -/
variable (hFree : tree.lookup place ≠ some .directory)

include hFree

/- A file that is put over no directory leaves the directories. -/
theorem directory_put_iff :
    (tree.put place (.regular bytes)).lookup location =
        some .directory ↔
      tree.lookup location = some .directory := by
  rw [← FileTree.enter_eq_ok_iff, ← FileTree.enter_eq_ok_iff]
  exact FileTree.enter_put_iff hFree

/- A further request writes where it would have written before. -/
theorem written?_put
    (request : Request)
    (location : Location) :
    request.written? (tree.put place (.regular bytes)) location =
      request.written? tree location := by
  apply Option.ext
  intro held
  rw [written?_eq_some_iff, written?_eq_some_iff,
    FileTree.place_put_iff hFree, ne_eq, ne_eq,
    directory_put_iff hFree]

/- No path leads to a device that led to none before. -/
theorem not_isDevice_put
    {path : String}
    (hDevice : ¬ tree.IsDevice path) :
    ¬ (tree.put place (.regular bytes)).IsDevice path := by
  rintro ⟨location, room, hPlace, hNode⟩
  by_cases hHere : location = place
  · rw [hHere, FileTree.lookup_put_self] at hNode
    cases hNode
  · rw [FileTree.lookup_put_of_ne tree hHere] at hNode
    exact
      hDevice
        ⟨location, room,
          (FileTree.place_put_iff hFree).mp hPlace, hNode⟩

end

/- What a request changes for the requests behind it: nothing. -/
theorem compileTo_keeps
    (hDevice : ¬ tree.IsDevice request.path)
    {result : Except Failure Unit}
    {events : Array Event}
    (hRun :
      compileTo FileTree.access request.source request.path tree =
        ((result, events), after)) :
    (∀ other location,
        written? after location other =
          written? tree location other) ∧
      ∀ path, ¬ tree.IsDevice path → ¬ after.IsDevice path := by
  have hSame :
      after = tree ∨
        ∃ location text,
          tree.lookup location ≠ some .directory ∧
            after = tree.put location (.regular text) := by
    rcases compileTo_cases hDevice hRun with
      ⟨_, _, _, hAfter⟩ |
      ⟨text, _,
        ⟨_, _, _, hAfter⟩ | ⟨location, _, hFree, _, hAfter⟩⟩
    · exact .inl hAfter
    · exact .inl hAfter
    · exact .inr ⟨location, _, hFree, hAfter⟩
  rcases hSame with hAfter | ⟨location, text, hFree, hAfter⟩
  · rw [hAfter]
    exact ⟨fun _ _ => rfl, fun _ hOther => hOther⟩
  · rw [hAfter]
    exact
      ⟨fun other => written?_put hFree other,
        fun _ => not_isDevice_put hFree⟩

/- A request changes the place that it writes to, and no other. -/
theorem lookup_compileTo
    (hDevice : ¬ tree.IsDevice request.path)
    {result : Except Failure Unit}
    {events : Array Event}
    (hRun :
      compileTo FileTree.access request.source request.path tree =
        ((result, events), after))
    (location : Location) :
    after.lookup location =
      ((request.written? tree location).map Node.regular).or
        (tree.lookup location) := by
  have hNone
      (hSilent :
        ∀ bytes, request.written? tree location ≠ some bytes)
      (hLookup : after.lookup location = tree.lookup location) :
      after.lookup location =
        ((request.written? tree location).map Node.regular).or
          (tree.lookup location) := by
    rw [Option.eq_none_iff_forall_ne_some.mpr hSilent, hLookup]
    rfl
  rcases compileTo_cases hDevice hRun with
    ⟨d, hText, _, hAfter⟩ |
    ⟨text, hText,
      ⟨fault, hFault, _, hAfter⟩ |
      ⟨place, hPlace, hFree, _, hAfter⟩⟩
  · apply hNone
    · intro bytes hWritten
      rcases written?_eq_some_iff.mp hWritten with
        ⟨⟨other, hOther, _⟩, _⟩
      rw [hText] at hOther
      cases hOther
    · rw [hAfter]
  · apply hNone
    · intro bytes hWritten
      rcases
          FileTree.exists_create_iff.mpr
            (written?_eq_some_iff.mp hWritten).2 with
        ⟨made, hMade⟩
      rw [hFault] at hMade
      cases hMade
    · rw [hAfter]
  · by_cases hHere : location = place
    · have hWritten :
          request.written? tree location =
            some (Text.encode text.toList) := by
        rw [written?_eq_some_iff, hHere]
        exact ⟨⟨text, hText, rfl⟩, hPlace, hFree⟩
      rw [hWritten, hAfter, hHere, FileTree.lookup_put_self]
      rfl
    · apply hNone
      · intro bytes hWritten
        have hOther := (written?_eq_some_iff.mp hWritten).2.1
        rw [hPlace] at hOther
        exact hHere (Except.ok.inj hOther).symm
      · rw [hAfter, FileTree.lookup_put_of_ne tree hHere]

/- The first request runs in the tree, the others in what it leaves. -/
theorem compileEach_cons
    (tree : FileTree)
    (request : Request)
    (requests : List Request) :
    compileEach FileTree.access (request :: requests) tree =
      let ((result, _), middle) :=
        compileTo FileTree.access request.source request.path tree
      let (results, after) :=
        compileEach FileTree.access requests middle
      (result :: results, after) := by
  unfold compileEach
  rw [List.mapM_cons]
  rfl

/- A place holds what was written there last. -/
theorem compileEach_ends
    {requests : List Request}
    (hDevices :
      ∀ request ∈ requests, ¬ tree.IsDevice request.path)
    {results : List (Except Failure Unit)}
    (hRun :
      compileEach FileTree.access requests tree =
        (results, after)) :
    EndEach tree requests results after ∧
      ∀ location,
        after.lookup location =
          ((requests.filterMap
              (written? tree location)).getLast?.map
            Node.regular).or (tree.lookup location) := by
  induction requests generalizing tree results with
  | nil =>
      cases hRun
      exact ⟨.nil, fun location => rfl⟩
  | cons request requests ih =>
      have hDevice := hDevices request List.mem_cons_self
      rw [compileEach_cons] at hRun
      rcases hFirst :
          compileTo FileTree.access request.source request.path
            tree with
        ⟨⟨result, events⟩, middle⟩
      rcases hMore :
          compileEach FileTree.access requests middle with
        ⟨others, last⟩
      simp only [hFirst, hMore] at hRun
      cases hRun
      have hKeeps := compileTo_keeps hDevice hFirst
      have hLater :
          ∀ other ∈ requests, ¬ middle.IsDevice other.path :=
        fun other hOther =>
          hKeeps.2 _ (hDevices other (List.mem_cons_of_mem _ hOther))
      rcases ih hLater hMore with ⟨hEnds, hLookup⟩
      refine ⟨.cons (ends_compileTo hDevice hFirst) hEnds, ?_⟩
      intro location
      have hWritten :
          written? middle location = written? tree location :=
        funext fun other => hKeeps.1 other location
      rw [hLookup, hWritten, lookup_compileTo hDevice hFirst,
        List.filterMap_cons]
      cases request.written? tree location with
      | none => rfl
      | some bytes =>
          rw [List.getLast?_cons]
          cases (requests.filterMap
            (written? tree location)).getLast? <;> rfl

end Request

/-
  Programs are compiled to files one after the other, none of them
  a device. A program that is refused and a file that cannot be
  made change nothing. Otherwise the file holds the C text, and
  all else is as it was. In the end each place holds the last text
  that was written to it, or what it held.
-/
theorem compileEach_saves
    (tree : FileTree)
    (requests : List Request)
    (hDevices :
      ∀ request ∈ requests, ¬ tree.IsDevice request.path) :
    ∃ results after,
      compileEach FileTree.access requests tree =
          (results, after) ∧
        Request.EndEach tree requests results after ∧
          ∀ location,
            after.lookup location =
              ((requests.filterMap
                  (Request.written? tree location)).getLast?.map
                Node.regular).or (tree.lookup location) := by
  rcases hRun : compileEach FileTree.access requests tree with
    ⟨results, after⟩
  rcases Request.compileEach_ends hDevices hRun with
    ⟨hEnds, hLookup⟩
  exact ⟨results, after, rfl, hEnds, hLookup⟩

/-
  A longer file is written over, then kept over a program that is
  refused, and over one that has no place to go to.
-/
theorem compileEach_saves_over :
    let tree : FileTree :=
      { nodes :=
          [([], .directory), (["work"], .directory),
            (["work", "out.c"],
              .regular (Text.encode "// kept by hand".toList))]
        working := ["work"] }
    let requests : List Request :=
      [⟨"LET x = 2\nPRINT x", "out.c"⟩, ⟨"", "./out.c"⟩,
        ⟨"GOTO nowhere", "out.c"⟩, ⟨"PRINT 1", "gone/out.c"⟩]
    (∀ request ∈ requests, ¬ tree.IsDevice request.path) ∧
      ∃ results after,
        compileEach FileTree.access requests tree =
            (results, after) ∧
          Request.EndEach tree requests results after ∧
            results.map Except.toBool =
                [true, true, false, false] ∧
              after.lookup ["work", "out.c"] =
                some
                  (.regular
                    (Text.encode
                      ("#include <stdio.h>\nint main(void)\x7b\n" ++
                        "return 0;\n\x7d\n").toList)) := by
  intro tree requests
  have hDevices :
      ∀ request ∈ requests, ¬ tree.IsDevice request.path := by
    intro request _
    apply FileTree.not_isDevice_of_files
    simp [tree]
  rcases compileEach_saves tree requests hDevices with
    ⟨results, after, hRun, hEnds, hLookup⟩
  have hResults :
      (compileEach FileTree.access requests tree).1.map
        Except.toBool = [true, true, false, false] := by
    decide +kernel
  have hWritten :
      (requests.filterMap
        (Request.written? tree ["work", "out.c"])).getLast? =
        some
          (Text.encode
            ("#include <stdio.h>\nint main(void)\x7b\n" ++
              "return 0;\n\x7d\n").toList) := by
    decide +kernel
  rw [hRun] at hResults
  refine ⟨hDevices, results, after, hRun, hEnds, hResults, ?_⟩
  rw [hLookup, hWritten]
  rfl

end TeenyC
