import ReadGuard.Load.Form

namespace ReadGuard.Load

open FormArgs

def objectOf (keys : Keys) : Load (Option ObjectKind) :=
  match keys "obj" with
  | none => pure none
  | some s => do
    let name ← text s
    match ObjectKind.ofName? name with
    | some kind => return some kind
    | none => failAt keys (.unknownObject name)

def ident (a : FormArgs) : Load Expr := do
  let x ← a.one "ident"
  let object ← objectOf a.keys
  let name ← text x.raw
  let type ← typeOf a.keys
  let package ← textOr a.keys "pkg" ""
  let pos ← position a.keys []
  return .ident ⟨name, object, package, ⟨type, pos⟩⟩

def lit (a : FormArgs) : Load Expr := do
  let (kind, value) ← a.two "lit"
  let kind ← text kind.raw
  let value ← text value.raw
  return .lit kind value (← info a.keys [])

def composite (a : FormArgs) : Load Expr := do
  let elems ← a.items.mapM (·.expr)
  return .composite elems (← info a.keys (elems.map (·.pos)))

def keyValue (a : FormArgs) : Load Expr := do
  let (key, value) ← a.two "kv"
  let key ← key.expr
  let value ← value.expr
  return .keyValue key value (← info a.keys [key.pos])

def funcParts : List Form → List Param → Block → Load (List Param × Block)
  | [], ps, body => pure (ps, body)
  | f :: rest, ps, body =>
    if f.head? = some "params" then do
      funcParts rest (← params f.raw) body
    else do
      funcParts rest ps (← f.block)

def funcLit (a : FormArgs) : Load Expr := do
  let (ps, body) ← funcParts a.items [] (.mk [] {})
  return .funcLit ps body (← info a.keys [body.pos])

/-- Parentheses without a type of their own have that of their operand. -/
def paren (a : FormArgs) : Load Expr := do
  let x ← a.one "paren"
  let x ← x.expr
  let own ← info a.keys [x.pos]
  return .paren x ⟨own.type <|> x.type, own.pos⟩

def selector (a : FormArgs) : Load Expr := do
  let (x, field) ← a.two "sel"
  let x ← x.expr
  let field ← text field.raw
  return .selector x field (← info a.keys [x.pos])

def index (a : FormArgs) : Load Expr := do
  let (x, i) ← a.two "index"
  let x ← x.expr
  let i ← i.expr
  return .index x i (← info a.keys [x.pos])

def star (a : FormArgs) : Load Expr := do
  let x ← a.one "star"
  let x ← x.expr
  return .star x (← info a.keys [x.pos])

def unary (a : FormArgs) : Load Expr := do
  let (op, x) ← a.two "unary"
  let x ← x.expr
  let op ← text op.raw
  return .unary op x (← info a.keys [x.pos])

def binary (a : FormArgs) : Load Expr := do
  let (op, x, y) ← a.three "binary"
  let x ← x.expr
  let y ← y.expr
  let op ← text op.raw
  return .binary op x y (← info a.keys [x.pos])

def call (a : FormArgs) : Load Expr := do
  match a.items with
  | [] => failAt a.keys .callWithoutFunction
  | fn :: args =>
    let fn ← fn.expr
    let args ← args.mapM (·.expr)
    return .call fn args (← info a.keys [fn.pos])

def exprTable : Table Expr :=
  [("ident", ident), ("lit", lit), ("composite", composite), ("kv", keyValue),
   ("funclit", funcLit), ("paren", paren), ("sel", selector), ("index", index), ("star", star),
   ("unary", unary), ("binary", binary), ("call", call)]

def isExprHead (head : Option String) : Bool :=
  match head with
  | some tag => (exprTable.lookup tag).isSome
  | none => false

end ReadGuard.Load
