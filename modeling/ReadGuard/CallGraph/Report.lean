import ReadGuard.CallGraph.Components

namespace ReadGuard

namespace CallGraph

structure Statistics where
  functions : Nat
  modifying : Nat
  tainted : Nat
  edges : Nat
  direct : Nat
  outer : Nat
  unresolved : Nat
  components : Nat
  recursive : Nat
deriving Repr

def statistics (g : CallGraph) : Statistics :=
  let edges := g.edges
  let components := g.components
  { functions := g.size
    modifying := g.functions.countP (·.modifies)
    tainted := g.functions.countP fun f => !f.tainted.isEmpty
    edges := edges.length
    direct := edges.countP fun e => e.resolution = .direct
    outer := edges.countP fun e => e.resolution = .outer
    unresolved := edges.countP fun e => e.resolution = .unresolved
    components := components.length
    recursive := components.countP fun c => 1 < c.length }

def Statistics.entries (s : Statistics) : List (String × Nat) :=
  [("functions", s.functions), ("modifying_functions", s.modifying),
   ("tainted_functions", s.tainted), ("total_edges", s.edges), ("direct_calls", s.direct),
   ("external_calls", s.outer), ("unresolved_calls", s.unresolved), ("sccs", s.components),
   ("recursive_sccs", s.recursive)]

def dotText (key : String) : String :=
  String.ofList (key.toList.flatMap fun c => if c = '"' then ['\\', '"'] else [c])

/-- Mutating functions are red, tainted ones yellow, the others blue. -/
def dotStyle (f : FuncRecord) : String :=
  if f.modifies then "style=filled, fillcolor=\"#ffcccc\""
  else if !f.tainted.isEmpty then "style=filled, fillcolor=\"#fff3cd\""
  else "style=filled, fillcolor=\"#ddeeff\""

def dotNode (f : FuncRecord) : String :=
  "  \"" ++ dotText f.key ++ "\" [label=\"" ++ dotText f.key ++ "\", " ++ dotStyle f ++ "];"

def dotEdgeStyle : Resolution → String
  | .direct => ""
  | .outer => ", style=dashed, color=blue"
  | .unresolved => ", style=dotted, color=red"

def dotEdge (e : CallEdge) : String :=
  let label := e.resolution.name ++ (if e.pos.isKnown then ":" ++ toString e.pos.line else "")
  "  \"" ++ dotText e.caller ++ "\" -> \"" ++ dotText e.callee ++ "\" [label=\"" ++ label ++ "\"" ++
    dotEdgeStyle e.resolution ++ "];"

/-- The lines of the edges. A key outside the unit gets a node before its first edge; `drawn` are
the nodes drawn so far. -/
def dotEdges : List String → List CallEdge → List String
  | _, [] => []
  | drawn, e :: rest =>
    let callee := dotText e.callee
    if e.resolution = .direct ∨ callee ∈ drawn then dotEdge e :: dotEdges drawn rest
    else
      ("  \"" ++ callee ++ "\" [label=\"" ++ callee ++ "\", shape=ellipse];") :: dotEdge e ::
        dotEdges (callee :: drawn) rest

def dot (g : CallGraph) (title : Option String) : String :=
  let label := (title.filter fun t => !t.isEmpty).toList.map fun t => "  label=\"" ++ t ++ "\";"
  "\n".intercalate
    (["digraph CallGraph \x7b", "  rankdir=TB;"] ++ label ++
      ["  node [shape=box, fontname=\"Helvetica\", fontsize=10];"] ++
      g.functions.map dotNode ++ dotEdges [] g.edges ++ ["\x7d"])

def remarks (g : CallGraph) (f : FuncRecord) : List String :=
  (if f.modifies then ["modifies"] else []) ++
  (if f.tainted.isEmpty then []
    else ["tainted[" ++ ", ".intercalate (f.tainted.map toString) ++ "]"]) ++
  (if g.isRecursive f then ["recursive"] else [])

def summaryLine (g : CallGraph) (f : FuncRecord) : String :=
  let remarks := g.remarks f
  "  " ++ f.key ++ (if remarks.isEmpty then "" else " [" ++ ", ".intercalate remarks ++ "]") ++
    ": calls [" ++ ", ".intercalate f.uniqueCalls ++ "]"

def summary (g : CallGraph) : String :=
  let s := g.statistics
  "\n".intercalate
    (["Call Graph Summary (" ++ g.unitName ++ ")",
      "  Functions:            " ++ toString s.functions,
      "  Modifying functions:  " ++ toString s.modifying,
      "  Tainted functions:    " ++ toString s.tainted,
      "  Total edges:          " ++ toString s.edges,
      "  Direct calls:         " ++ toString s.direct,
      "  External calls:       " ++ toString s.outer,
      "  Unresolved calls:     " ++ toString s.unresolved,
      "  Recursive SCCs:       " ++ toString s.recursive,
      "",
      "Functions:"] ++ g.functions.map g.summaryLine)

end CallGraph

end ReadGuard
