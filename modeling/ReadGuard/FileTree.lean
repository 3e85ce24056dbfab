import ReadGuard.System

namespace ReadGuard

/-- Files in memory: the contents of those that are known, the directories that need no file in
them, and the devices, which are empty and keep nothing of what is written to them. Paths are
normal, and those without a root lead from the working directory. -/
structure FileTree where
  files : List (Path × ByteArray) := []
  directories : List Path := []
  devices : List Path := []

namespace FileTree

inductive Entry
  | file (bytes : ByteArray)
  | directory
  | device

def ofPaths (files : List (String × ByteArray)) : FileTree :=
  { files := files.map fun (path, bytes) => (.ofText path, bytes) }

def file? (t : FileTree) (place : Path) : Option ByteArray :=
  t.files.lookup place

def hasDirectory (t : FileTree) (place : Path) : Bool :=
  place.isBare || t.directories.contains place || t.files.any fun f => f.1.isUnder place

def entry? (t : FileTree) (place : Path) : Option Entry :=
  if t.hasDirectory place then some .directory
  else if t.devices.contains place then some .device
  else (t.file? place).map .file

def isLongName (name : String) : Bool := 255 < name.utf8ByteSize

def isLongPath (path : String) : Bool := 4095 < path.utf8ByteSize

/-- Follows names from a directory. Only the last one need not exist. The fault is that of the path
as a whole. -/
def follow (t : FileTree) : Path → List String → Except (String → FileFault) Path
  | dir, [] => .ok dir
  | dir, name :: rest =>
    if name = "" || name = "." then follow t dir rest
    else if name = ".." then follow t dir.above rest
    else if isLongName name then .error .tooLong
    else
      match t.entry? (dir.add name) with
      | some .directory => follow t (dir.add name) rest
      | entry =>
        if rest.isEmpty then .ok (dir.add name)
        else if entry.isSome then .error .notDirectory
        else .error .missing

def locate (t : FileTree) (path : String) : Except FileFault Path :=
  if path.isEmpty then .error (.missing path)
  else if isLongPath path then .error (.tooLong path)
  else (t.follow (Path.ofText path).start (Text.parts '/' path)).mapError (· path)

def find (t : FileTree) (path : String) : Except FileFault Entry := do
  match t.entry? (← t.locate path) with
  | some entry => .ok entry
  | none => .error (.missing path)

def contents (t : FileTree) : Files where
  isFile path :=
    match t.find path with
    | .ok (.file _) => true
    | _ => false
  read path := do
    match ← t.find path with
    | .file bytes => .ok bytes
    | .device => .ok .empty
    | .directory => .error (.isDirectory path)

def addDirectory (t : FileTree) (path : String) : Except FileFault FileTree := do
  let place ← t.locate path
  match t.entry? place with
  | some _ => .error (.present path)
  | none => .ok { t with directories := place :: t.directories }

def put (t : FileTree) (path : String) (bytes : ByteArray) : Except FileFault FileTree := do
  let place ← t.locate path
  match t.entry? place with
  | some .directory => .error (.isDirectory path)
  | some .device => .ok t
  | _ => .ok { t with files := t.files.filter (fun f => f.1 ≠ place) ++ [(place, bytes)] }

structure Session where
  tree : FileTree
  output : String := ""

def change (step : FileTree → Except FileFault FileTree) :
    StateM Session (Except FileFault Unit) := fun s =>
  match step s.tree with
  | .ok tree => (.ok (), { s with tree := tree })
  | .error fault => (.error fault, s)

/-- A system that fails for its files only. -/
def system : System (StateM Session) where
  print text := fun s => (.ok (), { s with output := s.output ++ text })
  makeDirectory path := change (·.addDirectory path)
  isDirectory path := fun s =>
    match s.tree.find path with
    | .ok .directory => (.ok true, s)
    | _ => (.ok false, s)
  resolve p := return .ok p.normal
  writeFile path bytes := change (·.put path bytes)

end FileTree

end ReadGuard
