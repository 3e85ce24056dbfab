import ReadGuard.Load.Basic

namespace ReadGuard.Load

/-- What an S-expression stands for, by the place where it is found. -/
structure Form where
  raw : Sexp
  expr : Load Expr
  stmt : Load Stmt
  block : Load Block
  clause : Load Clause
  func : Load FuncDecl
  file : Load SourceFile

abbrev FormArgs := Args Form

namespace Form

def head? (f : Form) : Option String := f.raw.head?

end Form

namespace FormArgs

def keys (a : FormArgs) : Keys := fun key => (a.get? key).map (·.raw)

def optional {α : Type} (a : FormArgs) (key : String) (read : Form → Load α) :
    Load (Option α) :=
  match a.get? key with
  | some f => some <$> read f
  | none => pure none

def one (a : FormArgs) (form : String) : Load Form :=
  match a.items with
  | [x] => pure x
  | items => fail (.operandCount form 1 items.length)

def two (a : FormArgs) (form : String) : Load (Form × Form) :=
  match a.items with
  | [x, y] => pure (x, y)
  | items => fail (.operandCount form 2 items.length)

def three (a : FormArgs) (form : String) : Load (Form × Form × Form) :=
  match a.items with
  | [x, y, z] => pure (x, y, z)
  | items => fail (.operandCount form 3 items.length)

end FormArgs

/-- The loaders of the forms that may stand in one place, by the head of the form. -/
abbrev Table (α : Type) := List (String × (FormArgs → Load α))

def Table.load {α : Type} (table : Table α) (unknown : Sexp → Fault) (raw : Sexp)
    (tail : List Form) : Load α :=
  match raw.head? with
  | none => fail (unknown raw)
  | some tag =>
    match table.lookup tag with
    | none => fail (unknown raw)
    | some load => do load (← splitArgs Form.raw (some tag) tail)

end ReadGuard.Load
