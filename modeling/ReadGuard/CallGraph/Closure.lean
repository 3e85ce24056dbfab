import ReadGuard.CallGraph.Basic

namespace ReadGuard

structure Contamination where
  caller : String
  callee : String
  site : Option Call

namespace CallGraph

def maxDepth : Nat := 512

/-- A sweep over the functions: the graph with the marks set so far, the answers of this sweep, and
the contaminations found, in order. -/
structure Sweep where
  graph : CallGraph
  memo : List (String × Bool) := []
  found : List Contamination := []

namespace Sweep

def contaminate (s : Sweep) (caller : FuncRecord) (callee : String) : Sweep :=
  let pair := (caller.key, callee)
  let marked := s.graph.setModifies caller.key
  if s.graph.reported.contains pair then { s with graph := marked }
  else
    { s with
      graph := { marked with reported := pair :: s.graph.reported }
      found := s.found ++ [⟨caller.key, callee, s.graph.findCall? caller callee⟩] }

def remember (s : Sweep) (key : String) : Sweep :=
  { s with memo := (key, s.graph.modifies key) :: s.memo }

def visitAll (visit : String → Sweep → Bool × Sweep) (caller : FuncRecord) :
    List String → Sweep → Sweep
  | [], s => s
  | callee :: rest, s =>
    let (hit, s) := visit callee s
    visitAll visit caller rest (if hit then s.contaminate caller callee else s)

/-- Does a function mutate, itself or through a callee at most `depth` calls away? A function on the
way to this one answers with its mark so far, and so does one at the end of the depth. -/
def visit : Nat → List String → String → Sweep → Bool × Sweep
  | depth, visiting, key, s =>
    match s.memo.lookup key with
    | some answer => (answer, s)
    | none =>
      match s.graph.get? key with
      | none => (false, s)
      | some f =>
        match depth with
        | 0 => (f.modifies, s)
        | depth + 1 =>
          if visiting.contains key then (f.modifies, s)
          else
            let s := visitAll (visit depth (key :: visiting)) f f.uniqueCalls s
            (s.graph.modifies key, s.remember key)

def run (g : CallGraph) : Sweep :=
  g.keys.foldl (fun s key => (visit maxDepth [] key s).2) { graph := g }

end Sweep

def marks (g : CallGraph) : List Bool := g.functions.map (·.modifies)

structure Closure where
  graph : CallGraph
  found : List Contamination
  passes : Nat

def sweepUntilStable : Nat → CallGraph → Closure
  | 0, g => ⟨g, [], 0⟩
  | limit + 1, g =>
    let s := Sweep.run g
    if s.graph.marks = g.marks then ⟨s.graph, s.found, 1⟩
    else
      let rest := sweepUntilStable limit s.graph
      ⟨rest.graph, s.found ++ rest.found, rest.passes + 1⟩

/-- Spreads the mark of mutating functions to their callers. A sweep that is not the last sets a
mark at least, so there is at most one more sweep than there are functions. -/
def propagate (g : CallGraph) : Closure :=
  sweepUntilStable (g.size + 1) g

end CallGraph

end ReadGuard
