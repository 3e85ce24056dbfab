import ReadGuard.Check.Batch
import ReadGuard.Command.Home
import ReadGuard.Command.Options
import ReadGuard.Policy.Log

namespace ReadGuard.Command

def say (level : LogLevel) (message : String) : Effect :=
  .log ⟨level, "rwsep", message⟩

namespace Options

def opening (p : Policy) : Effect :=
  say .info ("protected type " ++ p.protectedName ++ ", reader unit " ++ p.reader ++
    (if p.strict then " (strict)" else ""))

def graphs (b : Batch) : List String :=
  b.units.filterMap fun (unit, verdict) => verdict.graph?.map fun g => g.dot (some unit.name)

def skipping (b : Batch) : List Effect :=
  b.errors.map fun (path, error) => say .warning ("skipped " ++ path ++ ": " ++ error.message)

def finish (o : Options) (home : String → Option String) (b : Batch) (exit : Exit) : Script :=
  match o.callGraph.filter fun path => !path.isEmpty with
  | none => ⟨skipping b, exit⟩
  | some path =>
    match writable home path with
    | .error exit => ⟨[], exit⟩
    | .ok path =>
      { effects :=
          .write path ("\n".intercalate (graphs b) ++ "\n") ::
          say .info ("wrote " ++ toString (graphs b).length ++ " call graph(s) to " ++ path.text) ::
          skipping b
        exit }

/-- How a text is put out. Where the path of a file leads is found out before directories are made
for it, and so the path is looked at as a whole first. -/
def delivery (o : Options) (home : String → Option String) : Except Exit (String → Effect) :=
  match o.output with
  | .standard => .ok .print
  | .unnamed => .error (.lacking .output)
  | .file path =>
    match writable home path with
    | .error exit => .error exit
    | .ok path =>
      if hasNull path.text then .error (.unwritten .nullInPath)
      else .ok (.writeAt path)

def report (o : Options) (home : String → Option String) (p : Policy) (b : Batch) : Script :=
  match o.delivery home, o.format with
  | .error exit, _ => ⟨[], exit⟩
  | .ok deliver, none => ⟨[deliver ""], .lacking .format⟩
  | .ok deliver, some format =>
    let r := ({ format := format, suppressed := p.suppressed } : Reporter).emitAll b.issues
    (o.finish home b (.status (if r.reported = 0 then 0 else 1))).after
      [deliver r.output, say .info r.summary]

def check (o : Options) (home : String → Option String) (p : Policy) (files : Files) : Script :=
  let missing := o.dumps.filter fun path => !files.isFile path
  if missing.isEmpty then
    let b := p.checkPaths files o.dumps
    let rest : Script :=
      match b.breakdown? with
      | some (.reading cause) => ⟨[], .breakdown cause⟩
      | some (.binding fault) => ⟨[], .unbound fault⟩
      | none => o.report home p b
    rest.after (opening p :: (b.log p).map .log)
  else
    { effects := missing.map fun path => say .error ("unit dump not found: " ++ path)
      exit := .status 2 }

def policy (o : Options) (env : Environment) (files : Files) : Except Script Policy :=
  let sources := o.sources env
  let result := if o.lacksRule then sources.environmentStage files else sources.resolve files
  match result with
  | .ok p => if o.lacksRule then .error ⟨[], .lacking .suppress⟩ else .ok p
  | .error (.error cause) => .error ⟨[say .error cause.message], .status 2⟩
  | .error (.breakdown cause) => .error ⟨[], .breakdown cause⟩

def script (o : Options) (env : Environment) (users : Users) (files : Files) : Script :=
  let rest : Script :=
    match o.policy env files with
    | .ok p => o.check (homeOf users env) p files
    | .error ending => ending
  rest.after (((o.sources env).log files).map .log)

end Options

def versionText : String := "rwsep 0.3.0\n"

def helpText : String :=
  "usage: rwsep [options] DUMP [DUMP ...]\n\n" ++
  "Reports every place where code in the reader unit mutates the protected type.\n\n" ++
  "options:\n" ++
  String.join (Switch.spellings.map fun (spelling, s) =>
    "  " ++ spelling ++ (if s.takesValue then " VALUE" else "") ++ "\n") ++
  "\nrules:\n  " ++ ", ".intercalate (Rule.all.map (·.id)) ++ "\n"

def run (args : List String) (env : Environment) (users : Users) (files : Files) : Script :=
  match Options.ofArguments args with
  | .ok o => (o.script env users files).atLevel o.level
  | .error .help => ⟨[.print helpText], .status 0⟩
  | .error .version => ⟨[.print versionText], .status 0⟩
  | .error (.misuse cause) => ⟨[.complain ("rwsep: error: " ++ cause.message)], .status 2⟩

end ReadGuard.Command
