import ReadGuard.Protection
import ReadGuard.TypeGraph.Basic

namespace ReadGuard

namespace TypeGraph

/-- A search from a node, given the nodes visited before, with the nodes visited after it. -/
abbrev Search := Option Nat → List Nat → Bool × List Nat

def searchAny (look : Search) : List (Option Nat) → List Nat → Bool × List Nat
  | [], visited => (false, visited)
  | i :: rest, visited =>
    match look i visited with
    | (true, visited) => (true, visited)
    | (false, visited) => searchAny look rest visited

def search (g : TypeGraph) (p : Protection) : Nat → Search
  | _, none, visited => (false, visited)
  | 0, some _, visited => (false, visited)
  | limit + 1, some i, visited =>
    if visited.contains i then (false, visited)
    else
      match g.node? i with
      | some (.pointer elem) => search g p limit elem (i :: visited)
      | some (.named path name) => (p.isNamed path name, visited)
      | some (.struct fields) =>
        searchAny (search g p limit) (fields.map (·.type)) (i :: visited)
      | _ => (false, visited)

end TypeGraph

structure Classifier where
  protection : Protection
  known : List (Nat × Bool) := []

namespace Classifier

/-- Does the type at a node hold the protected type? Each step of the search but the last visits a
node for the first time, so the size of the graph bounds its depth. -/
def isProtected (c : Classifier) (g : TypeGraph) (i : Nat) : Bool × Classifier :=
  match c.known.lookup i with
  | some answer => (answer, c)
  | none =>
    let answer := (g.search c.protection (g.size + 1) (some i) []).1
    (answer, { c with known := (i, answer) :: c.known })

end Classifier

end ReadGuard
