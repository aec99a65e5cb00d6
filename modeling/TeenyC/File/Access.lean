import TeenyC.Compile
import TeenyC.File.Tree

/-
  Compilation to a file, by any means of reading and writing
  files.

  Key definitions include:
    * `FileAccess`
    * `FileTree.access`
    * `FileAccess.readText`
    * `Failure`
    * `Artifact.save`
    * `compileTo`
-/

namespace TeenyC

------------------------------------------------------------
-- Access
------------------------------------------------------------

/- Ways to read the bytes of a file and to write an artifact. -/
structure FileAccess (m : Type → Type) where
  read : String → m (Except Fault (List UInt8))
  write : String → Artifact → m (Except Fault Unit)

/- Access to a tree that is carried along. -/
def FileTree.access : FileAccess (StateM FileTree) where
  read path := fun tree => (tree.read path, tree)
  write path a := fun tree => tree.write path a

/- Read the text of a file. -/
def FileAccess.readText
    {m : Type → Type}
    [Monad m]
    (files : FileAccess m)
    (path : String) : m (Except Fault String) := do
  match ← files.read path with
  | .error fault => return .error fault
  | .ok bytes =>
      match Text.decode? bytes with
      | some text => return .ok text
      | none => return .error .notUnicode

------------------------------------------------------------
-- Compilation to a File
------------------------------------------------------------

/- Why a compilation to a file fails. -/
inductive Failure where
| refused (d : Diagnostic)
| unwritable (path : String) (fault : Fault)
deriving DecidableEq

namespace Failure

/- The failure in words. -/
def message : Failure → String
| .refused d => d.message
| .unwritable path fault =>
    "failed to write output file " ++ path ++ ": " ++
      fault.message

end Failure

/-
  Write an artifact to the file at a path, and report it when
  it has been written.
-/
def Artifact.save
    {m : Type → Type}
    [Monad m]
    (a : Artifact)
    (files : FileAccess m)
    (path : String) : m (Except Failure Event) := do
  match ← files.write path a with
  | .ok () => return .ok (.wrote path a.output.utf8ByteSize)
  | .error fault => return .error (.unwritable path fault)

/-
  Compile a program text and write the C text to the file at a
  path. Nothing is written unless the whole text compiles.
-/
def compileTo
    {m : Type → Type}
    [Monad m]
    (files : FileAccess m)
    (source path : String) :
    m (Except Failure Unit × Array Event) := do
  let compilation := Compilation.ofSource source
  match compilation.result with
  | .error d => return (.error (.refused d), compilation.events)
  | .ok a =>
      match ← a.save files path with
      | .error failure =>
          return (.error failure, compilation.events)
      | .ok event =>
          return (.ok (), compilation.events.push event)

end TeenyC
