import ReadGuard.Load.Fault
import ReadGuard.Protection

namespace ReadGuard

/-- Which type is protected, and from the code of which unit. The unit that may write is named for
information only. The issues of suppressed rules are not reported. -/
structure Policy where
  reader : String := "reader"
  data : String := "data"
  typeName : String := "BigStruct"
  writer : Option String := none
  strict : Bool := false
  suppressed : List String := []
deriving DecidableEq, Repr, Inhabited

/-- A value given for a name; only a text can be one, and a message shows any other value. -/
inductive Given
  | text (value : String)
  | other (shown : String)
deriving DecidableEq, Repr

def Given.shown : Given → String
  | .text value => Text.quote value
  | .other shown => shown

inductive PolicyError
  | blank (setting : String) (found : Given)
  | unreadable (path : String) (cause : FileFault)
  | notSexp (file : String) (cause : Sexp.ReadError)
  | notPolicy (file : String)
  | notEntry (file : String) (found : Sexp)
  | valueCount (file key : String)
  | notText (file key : String) (found : Sexp)
  | notFlag (file key found : String)
  | unknownKey (file key : String)
deriving Repr

namespace PolicyError

def entryText (file key : String) : String :=
  file ++ ": (" ++ key ++ " ...)"

def detail : PolicyError → String
  | .blank setting found => setting ++ " must be a non-empty string, got " ++ found.shown
  | .unreadable path cause => "cannot read config file " ++ path ++ ": " ++ cause.message
  | .notSexp file cause => file ++ ": S-expression syntax error: " ++ cause.message
  | .notPolicy file => file ++ ": expected (rwsep ...) at top level"
  | .notEntry file found => file ++ ": expected (key value ...), got " ++ found.shown
  | .valueCount file key => entryText file key ++ " takes exactly one value"
  | .notText file key found => entryText file key ++ ": expected a string, got " ++ found.shown
  | .notFlag file key found =>
    entryText file key ++ ": expected t or nil, got " ++ Text.quote found
  | .unknownKey file key => file ++ ": unknown setting " ++ Text.quote key

def message (e : PolicyError) : String :=
  errorText {} e.detail "RWS-2001"

end PolicyError

structure Overrides where
  reader : Option Given := none
  data : Option Given := none
  typeName : Option Given := none
  writer : Option String := none
  strict : Option Bool := none
  suppressed : Option (List String) := none
deriving Repr

namespace Policy

def protection (p : Policy) : Protection := ⟨p.data, p.typeName⟩

def protectedName (p : Policy) : String :=
  Ty.packageName p.data ++ "." ++ p.typeName

def covers (p : Policy) (name path : String) : Bool :=
  p.reader == name || p.reader == path

def nameOf (setting : String) (value : Given) : Except PolicyError String :=
  match value with
  | .text s => if Text.isEmptyText s then .error (.blank setting value) else .ok s
  | .other _ => .error (.blank setting value)

def override (p : Policy) (o : Overrides) : Except PolicyError Policy := do
  let reader ← nameOf "reader_unit" (o.reader.getD (.text p.reader))
  let data ← nameOf "data_unit" (o.data.getD (.text p.data))
  let typeName ← nameOf "type_name" (o.typeName.getD (.text p.typeName))
  return {
    reader, data, typeName
    writer := o.writer <|> p.writer
    strict := o.strict.getD p.strict
    suppressed := (p.suppressed ++ o.suppressed.getD []).eraseDups }

end Policy

end ReadGuard
