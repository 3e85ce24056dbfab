import ReadGuard.Code.Basic

namespace ReadGuard

mutual

def Expr.size : Expr → Nat
  | .ident _ => 1
  | .lit _ _ _ => 1
  | .composite elems _ => 1 + Expr.sizes elems
  | .keyValue key value _ => 1 + key.size + value.size
  | .funcLit params (.mk ss _) _ => 2 + params.length + Stmt.sizes ss
  | .paren x _ => 1 + x.size
  | .selector x _ _ => 1 + x.size
  | .index x i _ => 1 + x.size + i.size
  | .star x _ => 1 + x.size
  | .unary _ x _ => 1 + x.size
  | .binary _ x y _ => 1 + x.size + y.size
  | .call fn args _ => 1 + fn.size + Expr.sizes args

def Expr.sizes : List Expr → Nat
  | [] => 0
  | e :: es => e.size + Expr.sizes es

def Stmt.size : Stmt → Nat
  | .expr x _ => 1 + x.size
  | .assign left _ right _ => 1 + Expr.sizes left + Expr.sizes right
  | .incDec x _ _ => 1 + x.size
  | .decl names values _ _ => 1 + names.length + Expr.sizes values
  | .ret results _ => 1 + Expr.sizes results
  | .block (.mk ss _) => 1 + Stmt.sizes ss
  | .cond test (.mk ss _) other init _ =>
    2 + (match init with | some s => s.size | none => 0) + test.size + Stmt.sizes ss +
      (match other with | some s => s.size | none => 0)
  | .loop (.mk ss _) init test post _ =>
    2 + (match init with | some s => s.size | none => 0) +
      (match test with | some e => e.size | none => 0) +
      (match post with | some s => s.size | none => 0) + Stmt.sizes ss
  | .range x (.mk ss _) key value _ _ =>
    2 + (match key with | some e => e.size | none => 0) +
      (match value with | some e => e.size | none => 0) + x.size + Stmt.sizes ss
  | .switch clauses tag init _ =>
    1 + (match init with | some s => s.size | none => 0) +
      (match tag with | some e => e.size | none => 0) + Clause.sizes clauses
  | .clause (.mk es ss _) => 1 + Expr.sizes es + Stmt.sizes ss
  | .defer call _ => 1 + call.size
  | .go call _ => 1 + call.size
  | .branch _ _ _ => 1

def Stmt.sizes : List Stmt → Nat
  | [] => 0
  | s :: ss => s.size + Stmt.sizes ss

def Clause.sizes : List Clause → Nat
  | [] => 0
  | .mk es ss _ :: cs => 1 + Expr.sizes es + Stmt.sizes ss + Clause.sizes cs

end

def FuncDecl.size (f : FuncDecl) : Nat :=
  1 + f.receiver.toList.length + f.params.length +
    (match f.body with | some b => (Stmt.block b).size | none => 0)

def SourceFile.size (f : SourceFile) : Nat :=
  1 + (f.decls.map FuncDecl.size).foldr (· + ·) 0

def SourceUnit.size (u : SourceUnit) : Nat :=
  1 + (u.files.map SourceFile.size).foldr (· + ·) 0

end ReadGuard
