import ReadGuard.Command.Word
import ReadGuard.Issue.Reporter
import ReadGuard.Log
import ReadGuard.Policy.Sources

namespace ReadGuard.Command

inductive Output
  | standard
  | file (path : String)
  /-- The switch was given without a value. -/
  | unnamed
deriving DecidableEq, Repr

def Output.ofValue : Option String → Output
  | none => .unnamed
  | some path => if path = "-" then .standard else .file path

/-- What the command is asked to do. There is no format if its switch was given without a value,
and `lacksRule` says that the switch for suppressed rules was. -/
structure Options where
  dumps : List String := []
  verbosity : Nat := 0
  config : Option String := none
  overrides : Overrides := {}
  lacksRule : Bool := false
  format : Option Format := some .text
  output : Output := .standard
  callGraph : Option String := none
deriving Repr

inductive Stop
  | help
  | version
  | misuse (cause : Misuse)
deriving DecidableEq, Repr

namespace Options

def level (o : Options) : LogLevel :=
  match o.verbosity with
  | 0 => .warning
  | 1 => .info
  | _ => .debug

def sources (o : Options) (env : Environment) : PolicySources :=
  ⟨o.config, env, o.overrides⟩

def nameGiven : Option String → Given
  | some value => .text value
  | none => .other "[]"

def suppress (o : Options) : Option String → Except Stop Options
  | none => .ok { o with lacksRule := true }
  | some value =>
    match Rule.ofId? value with
    | some rule =>
      .ok { o with overrides.suppressed := some (o.overrides.suppressed.getD [] ++ [rule.id]) }
    | none => .error (.misuse (.badChoice .suppress value (Rule.all.map (·.id))))

def setFormat (o : Options) : Option String → Except Stop Options
  | none => .ok { o with format := none }
  | some value =>
    match Format.ofName? value with
    | some format => .ok { o with format := some format }
    | none => .error (.misuse (.badChoice .format value (Format.all.map (·.name))))

def set (o : Options) (value : Option String) : Switch → Except Stop Options
  | .help => .error .help
  | .version => .error .version
  | .verbose => .ok { o with verbosity := o.verbosity + 1 }
  | .reader => .ok { o with overrides.reader := some (nameGiven value) }
  | .data => .ok { o with overrides.data := some (nameGiven value) }
  | .typeName => .ok { o with overrides.typeName := some (nameGiven value) }
  | .writer => .ok { o with overrides.writer := value }
  | .config => .ok { o with config := value }
  | .strict => .ok { o with overrides.strict := some true }
  | .suppress => o.suppress value
  | .format => o.setFormat value
  | .output => .ok { o with output := .ofValue value }
  | .callGraph => .ok { o with callGraph := value }

end Options

/-- The options so far. Dumps stand together: once a switch has come after them, further plain
arguments are strays. -/
structure Draft where
  options : Options := {}
  isClosed : Bool := false
  strays : List String := []
deriving Repr

namespace Draft

def stray (d : Draft) (text : String) : Draft :=
  { d with strays := d.strays ++ [text] }

def plain (d : Draft) (text : String) : Draft :=
  if d.isClosed then d.stray text
  else { d with options.dumps := d.options.dumps ++ [text] }

def separator (d : Draft) : Draft :=
  if d.isClosed then d.stray "--" else d

def close (d : Draft) : Draft :=
  { d with isClosed := d.isClosed || !d.options.dumps.isEmpty }

def switches (d : Draft) (given : List Setting) : Except Stop Draft := do
  return { d.close with options := ← given.foldlM (fun o (s, value) => o.set value s) d.options }

def read : List Word → Draft → Except Stop Draft
  | [], d => .ok d
  | .plain text :: rest, d => read rest (d.plain text)
  | .separator :: rest, d => read rest d.separator
  | .stray text :: rest, d => read rest (d.close.stray text)
  | .refused cause :: _, _ => .error (.misuse cause)
  | .switches given none :: rest, d => do read rest (← d.switches given)
  | .switches given (some s) :: .plain value :: rest, d => do
    read rest (← d.switches (given ++ [(s, some value)]))
  | .switches _ (some s) :: _, _ => .error (.misuse (.missingValue s))

end Draft

def Options.ofArguments (args : List String) : Except Stop Options := do
  let words ← (Word.all args).mapError .misuse
  let d ← Draft.read words {}
  if d.options.dumps.isEmpty then .error (.misuse .noDumps)
  else if d.strays.isEmpty then .ok d.options
  else .error (.misuse (.unknown d.strays))

end ReadGuard.Command
