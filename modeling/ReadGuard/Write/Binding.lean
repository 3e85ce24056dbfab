import ReadGuard.Write.FieldPath

namespace ReadGuard.Aliases

structure Bound where
  name : String
  field : Expr

def assign (p : Protection) (s : Aliases) (name : String) (value : Option Expr) :
    Aliases × List Bound :=
  match value.map Expr.unparen with
  | some (.ident id) =>
    if s.isBound id.name then ((s.copy name id.name).2, []) else (s.forget name, [])
  | some e =>
    match p.addressed e with
    | some field => (s.record name field, [⟨name, field⟩])
    | none => (s.forget name, [])
  | none => (s.forget name, [])

/-- The values of names, one for each; if their numbers differ, nothing is known of them. -/
def pairs (names values : List Expr) : List (Expr × Option Expr) :=
  if names.length = values.length then names.zip (values.map some)
  else names.map fun n => (n, none)

def assignTo (p : Protection) (s : Aliases) (target : Expr) (value : Option Expr) :
    Aliases × List Bound :=
  match target.unparen with
  | .ident id => if id.name = "_" then (s, []) else s.assign p id.name value
  | _ => (s, [])

def assignEach (p : Protection) : List (Expr × Option Expr) → Aliases → Aliases × List Bound
  | [], s => (s, [])
  | (target, value) :: rest, s =>
    let (s, now) := s.assignTo p target value
    let (s, later) := assignEach p rest s
    (s, now ++ later)

def assignAll (p : Protection) (s : Aliases) (names values : List Expr) : Aliases × List Bound :=
  assignEach p (pairs names values) s

end ReadGuard.Aliases
