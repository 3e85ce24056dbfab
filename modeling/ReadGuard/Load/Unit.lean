import ReadGuard.Load.Stmt

namespace ReadGuard

namespace Load

open FormArgs

def declaredParts (name : String) (keys : Keys) :
    List Form → List Param → Option Block → Load (List Param × Option Block)
  | [], ps, body => pure (ps, body)
  | f :: rest, ps, body =>
    if f.head? = some "params" then do
      declaredParts name keys rest (← params f.raw) body
    else if f.head? = some "block" then do
      declaredParts name keys rest ps (some (← f.block))
    else failAt keys (.strayInFunc name f.raw)

def func (a : FormArgs) : Load FuncDecl := do
  match a.items with
  | [] => fail .funcWithoutName
  | name :: items =>
    let name ← text name.raw
    let (ps, body) ← declaredParts name a.keys items [] none
    let receiver ← a.optional "recv" fun f => param f.raw
    return ⟨name, ps, body, receiver, ← position a.keys []⟩

def file (a : FormArgs) : Load SourceFile := do
  match a.items with
  | [] => fail .fileWithoutName
  | name :: items =>
    let name ← text name.raw
    modify fun state => { state with file := name }
    let decls ← items.mapM (·.func)
    return ⟨name, ← textOr a.keys "package" "", decls⟩

def unit (a : FormArgs) : Load SourceUnit := do
  match a.items with
  | [] => fail .unitWithoutName
  | name :: items =>
    let name ← text name.raw
    let files ← items.mapM (·.file)
    return ⟨name, ← textOr a.keys "path" name, files⟩

/-- The form of an S-expression whose further items have the given forms. -/
def ofTail (raw : Sexp) (tail : List Form) : Form where
  raw := raw
  expr := exprTable.load .unknownExpr raw tail
  stmt := stmtTable.load .unknownStmt raw tail
  block := Table.load [("block", Load.block)] .notBlock raw tail
  clause := Table.load [("case", Load.clause)] .notClause raw tail
  func := Table.load [("func", Load.func)] .notFunc raw tail
  file := Table.load [("file", Load.file)] .notFile raw tail

mutual

def formOf : Sexp → Form
  | .list (head :: items) => ofTail (.list (head :: items)) (formsOf items)
  | s => ofTail s []

def formsOf : List Sexp → List Form
  | [] => []
  | s :: rest => formOf s :: formsOf rest

end

def tailForms : Sexp → List Form
  | .list (_ :: items) => formsOf items
  | _ => []

def unitOf (raw : Sexp) : Load SourceUnit := do
  let file := (← get).file
  Table.load [("unit", unit)] (fun _ => .notUnit file) raw (tailForms raw)

def unitOfText (text : String) : Load SourceUnit := do
  match Sexp.read text with
  | .ok raw => unitOf raw
  | .error cause => fail (.notSexp (← get).file cause)

/-- The outcome of loading, and the types read on the way. Places belong to the named file until a
form says otherwise. -/
def runIn {α : Type} (file : String) (load : Load α) : Except LoadError α × State :=
  (ExceptT.run load).run { file := file }

end Load

def SourceUnit.ofText (file text : String) : Except LoadError SourceUnit :=
  (Load.runIn file (Load.unitOfText text)).1

end ReadGuard
