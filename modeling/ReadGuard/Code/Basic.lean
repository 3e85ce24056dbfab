import ReadGuard.Code.Position
import ReadGuard.Ty.Printer

namespace ReadGuard

inductive ObjectKind
  | var
  | const
  | func
  | type
  | pkg
  | builtin
  | nil
deriving DecidableEq, Repr

def ObjectKind.all : List ObjectKind :=
  [.var, .const, .func, .type, .pkg, .builtin, .nil]

def ObjectKind.name : ObjectKind → String
  | .var => "var"
  | .const => "const"
  | .func => "func"
  | .type => "type"
  | .pkg => "pkg"
  | .builtin => "builtin"
  | .nil => "nil"

def ObjectKind.ofName? (name : String) : Option ObjectKind :=
  ObjectKind.all.find? (·.name == name)

structure Info where
  type : Option Ty := none
  pos : Position := {}
deriving Repr, Inhabited

/-- A name. The package is that of the declaration, for objects declared in a package. -/
structure Ident where
  name : String
  object : Option ObjectKind := none
  package : String := ""
  info : Info := {}
deriving Repr, Inhabited

structure Param where
  name : String
  info : Info := {}
deriving Repr, Inhabited

mutual

inductive Expr
  | ident (id : Ident)
  | lit (kind value : String) (info : Info)
  | composite (elems : List Expr) (info : Info)
  | keyValue (key value : Expr) (info : Info)
  | funcLit (params : List Param) (body : Block) (info : Info)
  | paren (x : Expr) (info : Info)
  | selector (x : Expr) (field : String) (info : Info)
  | index (x i : Expr) (info : Info)
  | star (x : Expr) (info : Info)
  | unary (op : String) (x : Expr) (info : Info)
  | binary (op : String) (x y : Expr) (info : Info)
  | call (fn : Expr) (args : List Expr) (info : Info)

inductive Stmt
  | expr (x : Expr) (pos : Position)
  | assign (left : List Expr) (op : String) (right : List Expr) (pos : Position)
  | incDec (x : Expr) (op : String) (pos : Position)
  | decl (names : List Ident) (values : List Expr) (type : Option Ty) (pos : Position)
  | ret (results : List Expr) (pos : Position)
  | block (b : Block)
  | cond (test : Expr) (body : Block) (other init : Option Stmt) (pos : Position)
  | loop (body : Block) (init : Option Stmt) (test : Option Expr) (post : Option Stmt)
      (pos : Position)
  | range (x : Expr) (body : Block) (key value : Option Expr) (op : String) (pos : Position)
  | switch (clauses : List Clause) (tag : Option Expr) (init : Option Stmt) (pos : Position)
  | clause (c : Clause)
  | defer (call : Expr) (pos : Position)
  | go (call : Expr) (pos : Position)
  | branch (keyword label : String) (pos : Position)

inductive Block
  | mk (stmts : List Stmt) (pos : Position)

/-- One case of a switch; without expressions it is the default. -/
inductive Clause
  | mk (exprs : List Expr) (body : List Stmt) (pos : Position)

end

deriving instance Repr for Expr, Stmt, Block, Clause

instance : Inhabited Block := ⟨.mk [] {}⟩

instance : Inhabited Expr := ⟨.ident { name := "" }⟩

structure FuncDecl where
  name : String
  params : List Param := []
  body : Option Block := none
  receiver : Option Param := none
  pos : Position := {}
deriving Repr, Inhabited

structure SourceFile where
  name : String
  package : String := ""
  decls : List FuncDecl := []
deriving Repr, Inhabited

structure SourceUnit where
  name : String
  path : String := ""
  files : List SourceFile := []
deriving Repr, Inhabited

def SourceUnit.functions (u : SourceUnit) : List FuncDecl :=
  u.files.flatMap (·.decls)

structure Call where
  fn : Expr
  args : List Expr
  info : Info
deriving Repr, Inhabited

def Block.stmts : Block → List Stmt
  | .mk stmts _ => stmts

def Block.pos : Block → Position
  | .mk _ pos => pos

def Clause.pos : Clause → Position
  | .mk _ _ pos => pos

namespace Expr

def info : Expr → Info
  | .ident id => id.info
  | .lit _ _ info | .composite _ info | .keyValue _ _ info | .funcLit _ _ info | .paren _ info
  | .selector _ _ info | .index _ _ info | .star _ info | .unary _ _ info | .binary _ _ _ info
  | .call _ _ info => info

def type (e : Expr) : Option Ty := e.info.type

def pos (e : Expr) : Position := e.info.pos

def unparen : Expr → Expr
  | .paren x _ => x.unparen
  | e => e

def call? : Expr → Option Call
  | .call fn args info => some ⟨fn, args, info⟩
  | _ => none

end Expr

def Stmt.pos : Stmt → Position
  | .block b => b.pos
  | .clause c => c.pos
  | .expr _ pos | .assign _ _ _ pos | .incDec _ _ pos | .decl _ _ _ pos | .ret _ pos
  | .cond _ _ _ _ pos | .loop _ _ _ _ pos | .range _ _ _ _ _ pos | .switch _ _ _ pos
  | .defer _ pos | .go _ pos | .branch _ _ pos => pos

def isPlainAssign (op : String) : Bool :=
  op == "=" || op == ":="

end ReadGuard
