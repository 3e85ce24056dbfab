import ReadGuard.Command.Run

namespace ReadGuard.Command

def faultOf : IO.Error → FileFault
  | .noFileOrDirectory path _ _ => .missing path
  | .alreadyExists (some path) _ _ => .present path
  | e => ⟨0, toString e⟩

def attempt {α : Type} (action : IO α) : IO (Except FileFault α) := do
  try return .ok (← action)
  catch e => return .error (faultOf e)

def typeAt (path : String) : IO IO.FS.FileType := do
  return (← (← IO.FS.realPath path).metadata).type

def system : System IO where
  print text := attempt (IO.print text)
  makeDirectory path := attempt (IO.FS.createDir path)
  isDirectory path := do
    match ← attempt (typeAt path) with
    | .ok type => return .ok (type == .dir)
    | .error _ => return .ok false
  resolve p := attempt do return .ofText (← IO.FS.realPath p.normal.text).toString
  writeFile path bytes := attempt (IO.FS.writeBinFile path bytes)

def inputs (args : List String) : List String :=
  match Options.ofArguments args with
  | .ok o => o.config.toList ++ o.dumps
  | .error _ => []

def readInputs (args : List String) : IO Files := do
  let found ← (inputs args).mapM fun path => do
    let isFile := match ← attempt (typeAt path) with
      | .ok type => type == .file
      | .error _ => false
    return (path, isFile, ← attempt (IO.FS.readBinFile path))
  return {
    isFile := fun path => ((found.lookup path).map (·.1)).getD false
    read := fun path => ((found.lookup path).map (·.2)).getD (.error (.missing path)) }

def readEnvironment : IO Environment := do
  let found ← ("HOME" :: Policy.settingNames.map (·.1)).mapM fun name =>
    return (name, ← IO.getEnv name)
  return fun name => (found.lookup name).join

/-- The users by their names. A line about a user has seven fields, the sixth of which is the home
directory. -/
def readUsers : IO Users := do
  let homes := match ← attempt (IO.FS.lines "/etc/passwd") with
    | .ok lines => lines.toList.map fun line => Text.parts ':' line
    | .error _ => []
  return { named := fun user => (homes.find? fun fields => fields.head? = some user).bind (·[5]?) }

def endText : Exit → Option String
  | .status _ => none
  | .breakdown .nullInPath | .unwritten .nullInPath => some "a path has a null character"
  | .breakdown .undecodable => some "a file is not UTF-8"
  | .unbound _ => some "a tainted parameter has no field"
  | .unknownHome => some "the home directory of a user is not known"
  | .lacking switch => some ("no value for " ++ switch.shown)
  | .unwritten (.fault cause) => some cause.message

def statusOf : Exit → UInt32
  | .status code => code.toUInt32
  | _ => 1

end ReadGuard.Command

open ReadGuard.Command in
def main (args : List String) : IO UInt32 := do
  let script := run args (← readEnvironment) (← readUsers) (← readInputs args)
  let after ← script.play system
  after.log.forM fun line => IO.eprintln line.text
  after.complaints.forM IO.eprintln
  (endText after.exit).forM fun text => IO.eprintln ("rwsep: " ++ text)
  return statusOf after.exit
