import ReadGuard.Code.Render
import ReadGuard.Text.Quoted

namespace ReadGuard

/-- What is known of a declared function: whether it mutates protected data, the parameters that
received a pointer to a protected field, in the order of their indices, the first such field by the
index, and the keys of the functions it calls, in the order of the calls. A negative index counts
the parameters from the end. -/
structure FuncRecord where
  key : String
  decl : FuncDecl
  modifies : Bool := false
  tainted : List Int := []
  sources : List (Int × Expr) := []
  calls : List String := []

inductive BindingFault
  /-- An index counts to before the first parameter. -/
  | beforeFirst (index : Int)
  /-- No field is known for an index. -/
  | sourceless (index : Int)
deriving DecidableEq, Repr

namespace FuncRecord

def isTainted (f : FuncRecord) (index : Int) : Bool := f.tainted.contains index

def source? (f : FuncRecord) (index : Int) : Option Expr := f.sources.lookup index

def uniqueCalls (f : FuncRecord) : List String := f.calls.eraseDups

def insertIndex (index : Int) : List Int → List Int
  | [] => [index]
  | i :: rest => if index < i then index :: i :: rest else i :: insertIndex index rest

/-- Marks a parameter, unless it is tainted already. A field that is known for it stays. -/
def taint (f : FuncRecord) (index : Int) (source : Expr) : FuncRecord :=
  if f.isTainted index then f
  else
    { f with
      tainted := insertIndex index f.tainted
      sources := if (f.source? index).isSome then f.sources else f.sources ++ [(index, source)] }

def param? (f : FuncRecord) (index : Int) : Option Param :=
  if index < 0 then f.decl.params.reverse[index.natAbs - 1]? else f.decl.params[index.toNat]?

def paramName? (f : FuncRecord) (index : Int) : Option String :=
  ((f.param? index).map (·.name)).filter fun name => !name.isEmpty && name ≠ "_"

/-- The name and the field of a tainted parameter. An index after the last parameter and a
parameter that cannot be used give nothing. -/
def binding? (f : FuncRecord) (index : Int) : Except BindingFault (Option (String × Expr)) :=
  if index < -f.decl.params.length then .error (.beforeFirst index)
  else
    match f.paramName? index with
    | none => .ok none
    | some name =>
      match f.source? index with
      | none => .error (.sourceless index)
      | some source => .ok (some (name, source))

def bindings (f : FuncRecord) : Except BindingFault (List (String × Expr)) :=
  (f.tainted.mapM f.binding?).map List.reduceOption

def shown (f : FuncRecord) : String :=
  "FunctionInfo(" ++ Text.quote f.key ++ ", modifies=" ++
    (if f.modifies then "True" else "False") ++ ")"

end FuncRecord

/-- How a called key is resolved: to a function of the unit, to one of another unit, or not. -/
inductive Resolution
  | direct
  | outer
  | unresolved
deriving DecidableEq, Repr

def Resolution.name : Resolution → String
  | .direct => "direct"
  | .outer => "external"
  | .unresolved => "unresolved"

/-- The functions of a unit and their calls. `reported` holds the pairs of a caller and a mutating
callee that have been reported. -/
structure CallGraph where
  unitName : String
  unitPath : String
  functions : List FuncRecord := []
  reported : List (String × String) := []

namespace CallGraph

def empty (name path : String) : CallGraph where
  unitName := name
  unitPath := if path.isEmpty then name else path

def size (g : CallGraph) : Nat := g.functions.length

def get? (g : CallGraph) (key : String) : Option FuncRecord :=
  g.functions.find? (·.key == key)

def declares (g : CallGraph) (key : String) : Bool := (g.get? key).isSome

def keys (g : CallGraph) : List String := g.functions.map (·.key)

def update (g : CallGraph) (key : String) (change : FuncRecord → FuncRecord) : CallGraph :=
  { g with functions := g.functions.map fun f => if f.key = key then change f else f }

def unitOf (g : CallGraph) (path : String) : String :=
  if path = g.unitName ∨ path = g.unitPath ∨ Ty.packageName path = g.unitName then g.unitName
  else Ty.packageName path

def methodKey? (unitOf : String → String) (type : Option Ty) (method : String) : Option String :=
  match type.map Ty.stripPointers with
  | some (.named path name) => some (unitOf path ++ "." ++ name ++ "." ++ method)
  | _ => none

def functionKey (g : CallGraph) (decl : FuncDecl) : String :=
  (methodKey? (fun _ => g.unitName) (decl.receiver.bind (·.info.type)) decl.name).getD
    (g.unitName ++ "." ++ decl.name)

def identKey (g : CallGraph) (id : Ident) : String :=
  if id.object = some .var ∨ id.object = some .builtin then id.name
  else if id.package ≠ "" ∧ id.package ≠ g.unitName ∧ id.package ≠ g.unitPath then
    Ty.packageName id.package ++ "." ++ id.name
  else if id.package ≠ "" ∨ g.declares (g.unitName ++ "." ++ id.name) then
    g.unitName ++ "." ++ id.name
  else id.name

/-- Does an identifier before a dot name a package? An untyped one of unknown kind does. -/
def isPackage (id : Ident) : Bool :=
  id.object = some .pkg || (id.object = none && id.info.type.isNone)

def selectorKey (g : CallGraph) (x : Expr) (field : String) : String :=
  match x.unparen with
  | .ident id =>
    if isPackage id then id.name ++ "." ++ field
    else (methodKey? g.unitOf id.info.type field).getD field
  | base => (methodKey? g.unitOf base.type field).getD field

/-- The key of the function that a call is to. What cannot be named goes by its text. -/
def calleeKey (g : CallGraph) (c : Call) : String :=
  match c.fn.unparen with
  | .ident id => g.identKey id
  | .selector x field _ => g.selectorKey x field
  | fn => fn.render

def resolutionOf (g : CallGraph) (key : String) : Resolution :=
  if g.declares key then .direct
  else if key.toList.contains '.' then .outer
  else .unresolved

def register (g : CallGraph) (decl : FuncDecl) : CallGraph :=
  let key := g.functionKey decl
  if g.declares key then g
  else { g with functions := g.functions ++ [{ key := key, decl := decl }] }

def recordCall (g : CallGraph) (caller callee : String) : CallGraph :=
  g.update caller fun f => { f with calls := f.calls ++ [callee] }

def setModifies (g : CallGraph) (key : String) : CallGraph :=
  g.update key fun f => { f with modifies := true }

def known {α : Type} (g : CallGraph) (read : FuncRecord → α) (unknown : α) (key : String) : α :=
  ((g.get? key).map read).getD unknown

def modifies (g : CallGraph) (key : String) : Bool := g.known (·.modifies) false key

def taint (g : CallGraph) (key : String) (index : Int) (source : Expr) : CallGraph :=
  g.update key fun f => f.taint index source

def findCall? (g : CallGraph) (caller : FuncRecord) (callee : String) : Option Call :=
  match caller.decl.body with
  | some body => body.calls.find? fun c => g.calleeKey c == callee
  | none => none

def callees (g : CallGraph) (f : FuncRecord) : List FuncRecord :=
  f.uniqueCalls.filterMap g.get?

def shown (g : CallGraph) : String :=
  "CallGraph(" ++ Text.quote g.unitName ++ ", functions=" ++ toString g.size ++ ")"

end CallGraph

structure CallEdge where
  caller : String
  callee : String
  call : Option Call
  resolution : Resolution

namespace CallEdge

def pos (e : CallEdge) : Position :=
  match e.call with
  | some c => c.info.pos
  | none => {}

def shown (e : CallEdge) : String :=
  "CallEdge(" ++ e.caller ++ " -> " ++ e.callee ++ ", " ++ e.resolution.name ++ ")"

end CallEdge

def CallGraph.edges (g : CallGraph) : List CallEdge :=
  g.functions.flatMap fun f =>
    f.uniqueCalls.map fun callee => ⟨f.key, callee, g.findCall? f callee, g.resolutionOf callee⟩

end ReadGuard
