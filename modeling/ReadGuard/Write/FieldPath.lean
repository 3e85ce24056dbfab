import ReadGuard.AliasStore
import ReadGuard.Code.Basic
import ReadGuard.Protection

namespace ReadGuard

/-- The names of a function that hold pointers to protected fields, with those fields. -/
abbrev Aliases := AliasStore Expr

namespace Protection

def isFieldRef (p : Protection) (e : Expr) : Bool :=
  match e.unparen with
  | .selector x _ _ => p.holds? x.type
  | _ => false

def isPlainValue (e : Expr) : Bool :=
  match e.type with
  | some t => !t.isPointer
  | none => false

def isArrayValue (e : Expr) : Bool :=
  match e.type with
  | some t => t.isArray
  | none => false

/-- The protected field in which a path of selectors and indices ends up. The path must not leave
the storage of that field: it goes through no pointer, and only the field itself may be a slice or
a map. -/
def fieldRoot (p : Protection) : Expr → Option Expr
  | .paren x _ => p.fieldRoot x
  | .selector x field info =>
    if p.holds? x.type then some (.selector x field info)
    else if isPlainValue x.unparen then p.fieldRoot x
    else none
  | .index x _ _ =>
    if p.isFieldRef x then some x.unparen
    else if isArrayValue x.unparen then p.fieldRoot x
    else none
  | _ => none

def addressed (p : Protection) : Expr → Option Expr
  | .unary "&" x _ => p.fieldRoot x
  | _ => none

end Protection

namespace Aliases

/-- The name and the field of an identifier that holds a pointer to a field. -/
def ofExpr (s : Aliases) (e : Expr) : Option (String × Expr) :=
  match e.unparen with
  | .ident id => (s.resolve id.name).map fun field => (id.name, field)
  | _ => none

def root (s : Aliases) : Expr → Option (String × Expr)
  | .paren x _ => s.root x
  | .star x _ => s.root x
  | .selector x _ _ => s.root x
  | .ident id => (s.resolve id.name).map fun field => (id.name, field)
  | _ => none

end Aliases

end ReadGuard
