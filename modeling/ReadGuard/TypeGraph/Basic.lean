import ReadGuard.Ty.Printer

namespace ReadGuard

/-- A node of a type graph. The types inside it are given by the numbers of their nodes, and may be
missing. -/
inductive TypeNode
  | basic (name : String)
  | named (path name : String)
  | pointer (elem : Option Nat)
  | slice (elem : Option Nat)
  | array (length : Int) (elem : Option Nat)
  | map (key elem : Option Nat)
  | chan (elem : Option Nat)
  | struct (fields : List (Field (Option Nat)))
  | func (params results : List (Option Nat))
  | interface
deriving DecidableEq, Repr

/-- A finite graph of types, in which a node goes by its number. Cycles are allowed. -/
structure TypeGraph where
  nodes : Array TypeNode := #[]
deriving Repr

namespace TypeGraph

def size (g : TypeGraph) : Nat := g.nodes.size

def node? (g : TypeGraph) (i : Nat) : Option TypeNode := g.nodes[i]?

def push (g : TypeGraph) (node : TypeNode) : Nat × TypeGraph :=
  (g.size, ⟨g.nodes.push node⟩)

def pointee? (g : TypeGraph) (i : Nat) : Option Nat :=
  match g.node? i with
  | some (.pointer elem) => elem
  | _ => none

/-- Follows pointers from a node, at most `limit` of them, until they end or come back to a node
that was passed before. -/
def stripFrom (g : TypeGraph) : Nat → List Nat → Nat → Nat
  | 0, _, i => i
  | limit + 1, seen, i =>
    match g.pointee? i with
    | none => i
    | some j => if seen.contains i then i else stripFrom g limit (i :: seen) j

/-- The node behind any number of pointers. A way through the graph passes each node at most once
before it comes back. -/
def stripPointers (g : TypeGraph) (i : Nat) : Nat :=
  g.stripFrom (g.size + 1) [] i

def textTo (g : TypeGraph) : Nat → Option Nat → String
  | _, none => "<nil>"
  | 0, some _ => TypeText.cut
  | depth + 1, some i =>
    match g.node? i with
    | none => "<nil>"
    | some (.basic name) => name
    | some (.named path name) => TypeText.named path name
    | some (.pointer elem) => "*" ++ textTo g depth elem
    | some (.slice elem) => "[]" ++ textTo g depth elem
    | some (.array length elem) => TypeText.array length (textTo g depth elem)
    | some (.map key elem) => TypeText.map (textTo g depth key) (textTo g depth elem)
    | some (.chan elem) => "chan " ++ textTo g depth elem
    | some (.struct fields) =>
      TypeText.struct (fields.map fun f => ⟨f.name, textTo g depth f.type, f.embedded⟩)
    | some (.func params results) =>
      TypeText.func (params.map (textTo g depth)) (results.map (textTo g depth))
    | some .interface => TypeText.interface

def text (g : TypeGraph) (i : Nat) : String :=
  g.textTo TypeText.depth (some i)

end TypeGraph

end ReadGuard
