import ReadGuard.Files
import ReadGuard.Path

namespace ReadGuard

/-- What can be asked of the system around the program. It may fail in any way. -/
structure System (m : Type → Type) where
  print : String → m (Except FileFault Unit)
  /-- Makes a directory in one that is there. -/
  makeDirectory : String → m (Except FileFault Unit)
  isDirectory : String → m (Except FileFault Bool)
  /-- The path without links and dots to where a path leads. -/
  resolve : Path → m (Except FileFault Path)
  writeFile : String → ByteArray → m (Except FileFault Unit)

inductive WriteFailure
  | fault (cause : FileFault)
  /-- A path has a null character. -/
  | nullInPath
deriving DecidableEq, Repr

namespace System

variable {m : Type → Type} [Monad m] (sys : System m)

def ask {α : Type} (answer : m (Except FileFault α)) : ExceptT WriteFailure m α :=
  ExceptT.mk do return (← answer).mapError .fault

/-- Makes a directory. A missing directory above it is left to `above`; any other fault is nothing
if the directory is there. -/
def ensure (p : Path) (above : FileFault → ExceptT WriteFailure m Unit) :
    ExceptT WriteFailure m Unit := do
  match ← ExceptT.lift (sys.makeDirectory p.text) with
  | .ok () => return
  | .error fault =>
    if fault.isMissing then above fault
    else if ← ask (sys.isDirectory p.text) then return
    else throw (.fault fault)

/-- Makes a directory and, where they are missing, those above it. The names on its path are given
from the last to the first. -/
def ensureAll (root : String) : List String → ExceptT WriteFailure m Unit
  | [] => sys.ensure ⟨root, []⟩ fun fault => throw (.fault fault)
  | name :: rest =>
    let p : Path := ⟨root, (name :: rest).reverse⟩
    sys.ensure p fun _ => do
      ensureAll root rest
      sys.ensure p fun fault => throw (.fault fault)

def save (p : Path) (text : String) : ExceptT WriteFailure m Unit := do
  if hasNull p.parent.text then throw .nullInPath
  else
    sys.ensureAll p.root p.parent.names.reverse
    if hasNull p.text then throw .nullInPath
    else ask (sys.writeFile p.text text.toUTF8)

end System

end ReadGuard
