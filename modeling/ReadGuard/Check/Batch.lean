import ReadGuard.Check.Log
import ReadGuard.Load.Unit
import ReadGuard.Policy.Sources

namespace ReadGuard

inductive BatchEnd
  | reading (cause : Breakdown)
  | binding (fault : BindingFault)
deriving DecidableEq, Repr

inductive DumpResult
  | checked (unit : SourceUnit) (verdict : Verdict)
  | failed (error : LoadError)
  /-- The work ended here. -/
  | broken (cause : Breakdown)

/-- The dump at a path, the types read from it, and what became of it. -/
structure DumpReport where
  path : String
  types : List TypeEntry := []
  result : DumpResult

namespace DumpReport

def unit? (r : DumpReport) : Option (SourceUnit × Verdict) :=
  match r.result with
  | .checked unit verdict => some (unit, verdict)
  | _ => none

def error? (r : DumpReport) : Option (String × LoadError) :=
  match r.result with
  | .failed error => some (r.path, error)
  | _ => none

def breakdown? (r : DumpReport) : Option BatchEnd :=
  match r.result with
  | .broken cause => some (.reading cause)
  | .checked _ (.broken fault) => some (.binding fault)
  | _ => none

def typeLine (t : TypeEntry) : LogLine :=
  ⟨.debug, "rwsep.types", "parsed type " ++ Text.quote t.text ++ " -> " ++ t.type.text⟩

def log (p : Policy) (r : DumpReport) : List LogLine :=
  r.types.map typeLine ++
    match r.result with
    | .checked unit verdict =>
      ⟨.debug, "rwsep.dump", "loaded unit " ++ unit.name ++ " from " ++ r.path ++ " (" ++
        toString unit.files.length ++ " files, " ++ toString r.types.length ++ " types)"⟩ ::
        verdict.log p unit.name
    | .failed error => [⟨.error, "rwsep.analyzer", r.path ++ ": " ++ error.message⟩]
    | .broken _ => []

end DumpReport

structure Batch where
  reports : List DumpReport := []

namespace Batch

def units (b : Batch) : List (SourceUnit × Verdict) :=
  b.reports.filterMap DumpReport.unit?

def errors (b : Batch) : List (String × LoadError) :=
  b.reports.filterMap DumpReport.error?

def issues (b : Batch) : List Issue :=
  b.units.flatMap fun u => u.2.issues

def breakdown? (b : Batch) : Option BatchEnd :=
  b.reports.findSome? DumpReport.breakdown?

def log (p : Policy) (b : Batch) : List LogLine :=
  b.reports.flatMap (DumpReport.log p)

end Batch

namespace Policy

def checkText (p : Policy) (path text : String) : DumpReport :=
  match Load.runIn path (Load.unitOfText text) with
  | (.ok unit, state) => ⟨path, state.types.entries, .checked unit (p.check unit)⟩
  | (.error error, state) => ⟨path, state.types.entries, .failed error⟩

def checkPath (p : Policy) (files : Files) (path : String) : DumpReport :=
  match files.text path with
  | .ok text => p.checkText path text
  | .error (.fault cause) => { path, result := .failed ⟨.unreadable path cause, {}⟩ }
  | .error (.breakdown cause) => { path, result := .broken cause }

/-- Loads and checks the dumps at several paths. A dump that cannot be loaded drops only its own
unit, unless it ends the work. -/
def checkPaths (p : Policy) (files : Files) : List String → Batch
  | [] => {}
  | path :: rest =>
    let report := p.checkPath files path
    if report.breakdown?.isSome then ⟨[report]⟩ else ⟨report :: (checkPaths p files rest).reports⟩

end Policy

end ReadGuard
