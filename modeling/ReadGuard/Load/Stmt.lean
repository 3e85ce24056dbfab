import ReadGuard.Load.Expr

namespace ReadGuard.Load

open FormArgs

def exprStmt (a : FormArgs) : Load Stmt := do
  let x ← a.one "expr"
  let x ← x.expr
  return .expr x (← position a.keys [x.pos])

def string? : Sexp → Option String
  | .str s => some s
  | _ => none

/-- The operands around the only operator of an assignment, which is its only string. -/
def splitAssign : List Form → Option (List Form × String × List Form)
  | [] => none
  | f :: rest =>
    match string? f.raw with
    | some op => if rest.any fun f => (string? f.raw).isSome then none else some ([], op, rest)
    | none => (splitAssign rest).map fun (left, op, right) => (f :: left, op, right)

def assign (a : FormArgs) : Load Stmt := do
  match splitAssign a.items with
  | none => failAt a.keys .assignOperator
  | some (left, op, right) =>
    let left ← left.mapM (·.expr)
    let right ← right.mapM (·.expr)
    match left, right with
    | x :: _, _ :: _ => return .assign left op right (← position a.keys [x.pos])
    | _, _ => failAt a.keys .assignSides

def incDec (a : FormArgs) : Load Stmt := do
  let (x, op) ← a.two "incdec"
  let op ← text op.raw
  if op ≠ "++" ∧ op ≠ "--" then failAt a.keys (.badIncDec op)
  let x ← x.expr
  return .incDec x op (← position a.keys [x.pos])

def isList : Sexp → Bool
  | .list _ => true
  | _ => false

def declParts (a : FormArgs) (type : Option Ty) :
    List Form → List Ident → List Expr → Load (List Ident × List Expr)
  | [], names, values => pure (names, values)
  | f :: rest, names, values =>
    if isList f.raw then do
      let value ← f.expr
      declParts a type rest names (values ++ [value])
    else if values.isEmpty then do
      let name ← text f.raw
      let pos ← position a.keys []
      declParts a type rest (names ++ [⟨name, some .var, "", ⟨type, pos⟩⟩]) values
    else failAt a.keys .nameAfterValue

def decl (a : FormArgs) : Load Stmt := do
  let type ← typeOf a.keys
  let (names, values) ← declParts a type a.items [] []
  if names.isEmpty then failAt a.keys .declWithoutName
  return .decl names values type (← position a.keys (values.map (·.pos)))

def ret (a : FormArgs) : Load Stmt := do
  let results ← a.items.mapM (·.expr)
  return .ret results (← position a.keys (results.map (·.pos)))

def block (a : FormArgs) : Load Block := do
  let stmts ← a.items.mapM (·.stmt)
  return .mk stmts (← position a.keys (stmts.map (·.pos)))

def cond (a : FormArgs) : Load Stmt := do
  let (test, body, other) ← match a.items with
    | [test, body] => pure (test, body, none)
    | [test, body, other] => pure (test, body, some other)
    | _ => failAt a.keys .badCond
  let test ← test.expr
  let body ← body.block
  let other ← other.mapM (·.stmt)
  let init ← a.optional "init" (·.stmt)
  let pos ← position a.keys (init.toList.map (·.pos) ++ [test.pos])
  return .cond test body other init pos

def loop (a : FormArgs) : Load Stmt := do
  let body ← a.one "for"
  let body ← body.block
  let init ← a.optional "init" (·.stmt)
  let test ← a.optional "cond" (·.expr)
  let post ← a.optional "post" (·.stmt)
  let pos ← position a.keys
    (init.toList.map (·.pos) ++ test.toList.map (·.pos) ++ [body.pos])
  return .loop body init test post pos

def range (a : FormArgs) : Load Stmt := do
  let (x, body) ← a.two "range"
  let x ← x.expr
  let body ← body.block
  let key ← a.optional "key" (·.expr)
  let value ← a.optional "value" (·.expr)
  let op ← textOr a.keys "tok" ":="
  let pos ← position a.keys (key.toList.map (·.pos) ++ [x.pos])
  return .range x body key value op pos

def clauseParts (a : FormArgs) :
    List Form → List Expr → List Stmt → Load (List Expr × List Stmt)
  | [], exprs, body => pure (exprs, body)
  | f :: rest, exprs, body =>
    if isExprHead f.head? then
      if body.isEmpty then do
        let e ← f.expr
        clauseParts a rest (exprs ++ [e]) body
      else failAt a.keys .exprAfterStmt
    else do
      let s ← f.stmt
      clauseParts a rest exprs (body ++ [s])

def clause (a : FormArgs) : Load Clause := do
  let (exprs, body) ← clauseParts a a.items [] []
  return .mk exprs body (← position a.keys (exprs.map (·.pos) ++ body.map (·.pos)))

def switch (a : FormArgs) : Load Stmt := do
  let clauses ← a.items.mapM (·.clause)
  let tag ← a.optional "tag" (·.expr)
  let init ← a.optional "init" (·.stmt)
  let pos ← position a.keys
    (init.toList.map (·.pos) ++ tag.toList.map (·.pos) ++ clauses.map (·.pos))
  return .switch clauses tag init pos

def defer (a : FormArgs) : Load Stmt := do
  let call ← a.one "defer"
  let call ← call.expr
  return .defer call (← position a.keys [call.pos])

def go (a : FormArgs) : Load Stmt := do
  let call ← a.one "go"
  let call ← call.expr
  return .go call (← position a.keys [call.pos])

def branch (a : FormArgs) : Load Stmt := do
  let (keyword, label) ← match a.items with
    | [keyword] => pure (keyword, "")
    | [keyword, label] => pure (keyword, ← text label.raw)
    | _ => failAt a.keys .badBranch
  let keyword ← text keyword.raw
  return .branch keyword label (← position a.keys [])

def stmtTable : Table Stmt :=
  [("expr", exprStmt), ("assign", assign), ("incdec", incDec), ("var", decl), ("return", ret),
   ("block", fun a => .block <$> block a), ("if", cond), ("for", loop), ("range", range),
   ("switch", switch), ("case", fun a => .clause <$> clause a), ("defer", defer), ("go", go),
   ("branch", branch)]

end ReadGuard.Load
