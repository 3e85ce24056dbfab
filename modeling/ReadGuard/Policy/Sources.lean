import ReadGuard.Policy.Basic
import ReadGuard.Text.LowerCase

namespace ReadGuard

abbrev Environment := String → Option String

namespace Policy

def settingText (file key : String) : Sexp → Except PolicyError String
  | .str s => .ok s
  | .sym s => .ok s
  | found => .error (.notText file key found)

def settingFlag (file key : String) (value : Sexp) : Except PolicyError Bool := do
  let word := Text.lower (← settingText file key value)
  if ["t", "true", "yes", "1"].contains word then .ok true
  else if ["nil", "false", "no", "0"].contains word then .ok false
  else .error (.notFlag file key word)

def settingName (file key : String) : List Sexp → Except PolicyError String
  | [value] => settingText file key value
  | _ => .error (.valueCount file key)

def addEntry (file : String) (o : Overrides) (entry : Sexp) : Except PolicyError Overrides :=
  match entry with
  | .list (.sym key :: values) =>
    match key with
    | "reader" => do return { o with reader := some (.text (← settingName file key values)) }
    | "data" => do return { o with data := some (.text (← settingName file key values)) }
    | "struct" => do return { o with typeName := some (.text (← settingName file key values)) }
    | "writer" => do return { o with writer := some (← settingName file key values) }
    | "strict" =>
      match values with
      | [] => .ok { o with strict := some true }
      | value :: _ => do return { o with strict := some (← settingFlag file key value) }
    | "suppress" => do
      return { o with suppressed := some (← values.mapM (settingText file key)) }
    | _ => .error (.unknownKey file key)
  | found => .error (.notEntry file found)

def entriesOf (file text : String) : Except PolicyError Overrides :=
  match Sexp.read text with
  | .error cause => .error (.notSexp file cause)
  | .ok (.list (.sym "rwsep" :: entries)) => entries.foldlM (addEntry file) {}
  | .ok _ => .error (.notPolicy file)

def withText (p : Policy) (file text : String) : Except PolicyError Policy := do
  p.override (← entriesOf file text)

def settingNames : List (String × String) :=
  [("RWSEP_READER", "reader_unit"), ("RWSEP_DATA", "data_unit"), ("RWSEP_STRUCT", "type_name"),
   ("RWSEP_WRITER", "writer_unit")]

def nonEmpty? (env : Environment) (name : String) : Option String :=
  (env name).filter fun value => !value.isEmpty

def settingsOf (env : Environment) : Overrides where
  reader := (nonEmpty? env "RWSEP_READER").map .text
  data := (nonEmpty? env "RWSEP_DATA").map .text
  typeName := (nonEmpty? env "RWSEP_STRUCT").map .text
  writer := nonEmpty? env "RWSEP_WRITER"

def withEnvironment (p : Policy) (env : Environment) : Except PolicyError Policy :=
  p.override (settingsOf env)

def shownSettings (env : Environment) : Option String :=
  let given := settingNames.filterMap fun (name, setting) =>
    (nonEmpty? env name).map fun value => Text.quote setting ++ ": " ++ Text.quote value
  if given.isEmpty then none else some ("\x7b" ++ ", ".intercalate given ++ "\x7d")

end Policy

inductive PolicyFailure
  | error (cause : PolicyError)
  | breakdown (cause : Breakdown)
deriving Repr

/-- Where a policy comes from besides the defaults, from the weakest source to the strongest. -/
structure PolicySources where
  file : Option String := none
  env : Environment := fun _ => none
  options : Overrides := {}

namespace PolicySources

def fileText (s : PolicySources) (files : Files) :
    Except PolicyFailure (Option (String × String)) :=
  match s.file.filter fun path => !path.isEmpty with
  | none => .ok none
  | some path =>
    match files.text path with
    | .ok text => .ok (some (path, text))
    | .error (.fault cause) => .error (.error (.unreadable path cause))
    | .error (.breakdown cause) => .error (.breakdown cause)

def fileStage (s : PolicySources) (files : Files) : Except PolicyFailure Policy := do
  match ← s.fileText files with
  | none => .ok {}
  | some (path, text) => (Policy.withText {} path text).mapError .error

def environmentStage (s : PolicySources) (files : Files) : Except PolicyFailure Policy := do
  ((← s.fileStage files).withEnvironment s.env).mapError .error

/-- The policy of all sources: the file over the defaults, the environment over the file, the
options over both. Each stage must leave every name not blank. -/
def resolve (s : PolicySources) (files : Files) : Except PolicyFailure Policy := do
  ((← s.environmentStage files).override s.options).mapError .error

end PolicySources

end ReadGuard
