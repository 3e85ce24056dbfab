import ReadGuard.CallGraph.Basic

namespace ReadGuard.CallGraph

/-- A depth-first search for components: the functions met so far with the order in which they were
met, those that are not in a component yet with the latest first, and the components found. -/
structure Search where
  order : List (String × Nat) := []
  stack : List String := []
  components : List (List String) := []

namespace Search

def isMet (s : Search) (key : String) : Bool := (s.order.lookup key).isSome

def meet (s : Search) (key : String) : Search :=
  { s with order := (key, s.order.length) :: s.order, stack := key :: s.stack }

def close (s : Search) (key : String) : Search :=
  { s with
    stack := (s.stack.dropWhile (· ≠ key)).drop 1
    components := s.components ++ [s.stack.takeWhile (· ≠ key) ++ [key]] }

/-- Looks at the successors of a function in turn; `low` is the earliest function on the stack that
was seen so far. -/
def scan (connect : String → Search → Nat × Search) : List String → Nat → Search → Nat × Search
  | [], low, s => (low, s)
  | key :: rest, low, s =>
    match s.order.lookup key with
    | none =>
      let (n, s) := connect key s
      scan connect rest (min low n) s
    | some n => scan connect rest (if s.stack.contains key then min low n else low) s

/-- Searches from a function that was not met before, at most `limit` functions deep. Returns the
earliest function on the stack that can be reached. -/
def connect (next : String → List String) : Nat → String → Search → Nat × Search
  | 0, _, s => (0, s)
  | limit + 1, key, s =>
    let n := s.order.length
    let (low, s) := scan (connect next limit) (next key) n (s.meet key)
    (low, if low = n then s.close key else s)

end Search

def next (g : CallGraph) (key : String) : List String :=
  match g.get? key with
  | some f => (g.callees f).map (·.key)
  | none => []

/-- The classes of functions that call each other, directly or through others; a class stands after
those it calls. A search meets a function at each level, so their number bounds its depth. -/
def components (g : CallGraph) : List (List String) :=
  (g.keys.foldl (fun (s : Search) key =>
    if s.isMet key then s else (Search.connect g.next g.size key s).2) {}).components

def isRecursive (g : CallGraph) (f : FuncRecord) : Bool :=
  match g.components.find? (·.contains f.key) with
  | some component => 1 < component.length || f.calls.contains f.key
  | none => false

end ReadGuard.CallGraph
