import ReadGuard.Log
import ReadGuard.Policy.Sources

namespace ReadGuard.PolicySources

def logLine (level : LogLevel) (message : String) : LogLine :=
  ⟨level, "rwsep.config", message⟩

def fileLines (s : PolicySources) (files : Files) : List LogLine :=
  match s.fileText files with
  | .ok (some (path, _)) => [logLine .info ("loading configuration from " ++ path)]
  | _ => []

def environmentLines (s : PolicySources) : List LogLine :=
  match Policy.shownSettings s.env with
  | some shown => [logLine .debug ("environment overrides: " ++ shown)]
  | none => []

/-- What the log says while the sources are gone through. The environment is looked at only after a
file that is in order. -/
def log (s : PolicySources) (files : Files) : List LogLine :=
  s.fileLines files ++
    match s.fileStage files with
    | .ok _ => s.environmentLines
    | .error _ => []

end ReadGuard.PolicySources
