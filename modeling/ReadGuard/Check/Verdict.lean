import ReadGuard.CallGraph.Closure
import ReadGuard.CallGraph.Report
import ReadGuard.Check.Run

namespace ReadGuard

namespace Run

def contaminatedMessage (w : Watch) (callee : String) : String :=
  "calling function " ++ callee ++ " that modifies protected type " ++ w.protectedName ++
    " through a pointer parameter"

/-- Reports a call of a mutating function, unless the call is known to pass a pointer on. -/
def reportContaminated (w : Watch) (r : Run) (c : Contamination) : Run :=
  match c.site with
  | none => r
  | some site =>
    if r.escapes.contains (site.info.pos, c.callee) then r
    else r.report ⟨site.info.pos, contaminatedMessage w c.callee, .contaminatedCall⟩

def close (w : Watch) (r : Run) : Nat × Run :=
  let closure := r.graph.propagate
  (closure.passes,
    closure.found.foldl (reportContaminated w) { r with graph := closure.graph })

end Run

structure Findings where
  issues : List Issue
  graph : CallGraph
  rewalks : Nat
  passes : Nat
  /-- The keys of declarations that were left out because the key was taken. -/
  duplicates : List String
  notes : List Note

namespace Findings

def statistics (f : Findings) : List (String × Nat) :=
  f.graph.statistics.entries ++
    [("taint_rewalks", f.rewalks), ("closure_passes", f.passes), ("issues", f.issues.length)]

end Findings

/-- The outcome of checking a unit. Only the reader's unit is checked. -/
inductive Verdict
  | skipped
  | checked (findings : Findings)
  /-- A function could not be gone through again. -/
  | broken (fault : BindingFault)

namespace Verdict

def issues : Verdict → List Issue
  | .checked f => f.issues
  | _ => []

def graph? : Verdict → Option CallGraph
  | .checked f => some f.graph
  | _ => none

end Verdict

def CallGraph.ofUnit (u : SourceUnit) : CallGraph :=
  u.functions.foldl register (.empty u.name u.path)

def CallGraph.duplicates : CallGraph → List FuncDecl → List String
  | _, [] => []
  | g, decl :: rest =>
    let key := g.functionKey decl
    if g.declares key then key :: duplicates g rest else duplicates (g.register decl) rest

namespace Policy

def walked (p : Policy) (u : SourceUnit) : Run.Rewalk :=
  (Run.firstPass p.watch { graph := .ofUnit u }).taintPass p.watch

def conclude (p : Policy) (u : SourceUnit) (walked : Run.Rewalk) : Findings :=
  let (passes, last) := walked.run.close p.watch
  { issues := last.issues.issues
    graph := last.graph
    rewalks := walked.count
    passes := passes
    duplicates := CallGraph.duplicates (.empty u.name u.path) u.functions
    notes := last.notes.toList }

def findings (p : Policy) (u : SourceUnit) : Findings := p.conclude u (p.walked u)

def check (p : Policy) (u : SourceUnit) : Verdict :=
  if p.covers u.name u.path then
    let walked := p.walked u
    match walked.fault? with
    | some fault => .broken fault
    | none => .checked (p.conclude u walked)
  else .skipped

end Policy

end ReadGuard
