import ReadGuard.Ty.Grammar
import ReadGuard.TypeGraph.Basic

namespace ReadGuard

structure TypeEntry where
  text : String
  type : Ty
  root : Nat
deriving Repr

/-- The types read from a series of texts, each text once. A named type has a single node wherever
it occurs. -/
structure TypeCache where
  graph : TypeGraph := {}
  named : List (String × Nat) := []
  entries : List TypeEntry := []
deriving Repr

namespace TypeCache

def push (c : TypeCache) (node : TypeNode) : Nat × TypeCache :=
  let (i, graph) := c.graph.push node
  (i, { c with graph := graph })

def internNamed (c : TypeCache) (path name : String) : Nat × TypeCache :=
  let text := TypeText.named path name
  match c.named.lookup text with
  | some i => (i, c)
  | none =>
    let (i, c) := c.push (.named path name)
    (i, { c with named := (text, i) :: c.named })

mutual

def intern : Ty → TypeCache → Nat × TypeCache
  | .basic name, c => c.push (.basic name)
  | .named path name, c => c.internNamed path name
  | .pointer elem, c =>
    let (e, c) := intern elem c
    c.push (.pointer (some e))
  | .slice elem, c =>
    let (e, c) := intern elem c
    c.push (.slice (some e))
  | .array length elem, c =>
    let (e, c) := intern elem c
    c.push (.array length (some e))
  | .map key elem, c =>
    let (e, c) := intern elem c
    let (k, c) := intern key c
    c.push (.map (some k) (some e))
  | .chan elem, c =>
    let (e, c) := intern elem c
    c.push (.chan (some e))
  | .struct fields, c =>
    let (fs, c) := internFields fields c
    c.push (.struct fs)
  | .func params results, c =>
    let (ps, c) := internAll params c
    let (rs, c) := internAll results c
    c.push (.func ps rs)
  | .interface, c => c.push .interface

def internFields : List (Field Ty) → TypeCache → List (Field (Option Nat)) × TypeCache
  | [], c => ([], c)
  | ⟨name, type, embedded⟩ :: fields, c =>
    let (t, c) := intern type c
    let (fs, c) := internFields fields c
    (⟨name, some t, embedded⟩ :: fs, c)

def internAll : List Ty → TypeCache → List (Option Nat) × TypeCache
  | [], c => ([], c)
  | type :: types, c =>
    let (t, c) := intern type c
    let (ts, c) := internAll types c
    (some t :: ts, c)

end

def size (c : TypeCache) : Nat := c.entries.length

def get (c : TypeCache) (text : String) : Except Ty.ReadError (TypeEntry × TypeCache) :=
  match c.entries.find? (·.text == text) with
  | some entry => .ok (entry, c)
  | none =>
    match Ty.read text with
    | .error e => .error e
    | .ok type =>
      let (root, c) := intern type c
      let entry : TypeEntry := ⟨text, type, root⟩
      .ok (entry, { c with entries := c.entries ++ [entry] })

end TypeCache

end ReadGuard
