import ReadGuard.Code.Size

namespace ReadGuard

/-- Any piece of code that has a place in the tree of a unit. -/
inductive Node
  | expr (e : Expr)
  | stmt (s : Stmt)
  | param (p : Param)
  | func (f : FuncDecl)
  | file (f : SourceFile)
  | unit (u : SourceUnit)
deriving Repr

namespace Node

def exprs (es : List Expr) : List Node := es.map .expr

def stmts (ss : List Stmt) : List Node := ss.map .stmt

def expr? (e : Option Expr) : List Node := exprs e.toList

def stmt? (s : Option Stmt) : List Node := stmts s.toList

def ofExpr : Expr → List Node
  | .ident _ => []
  | .lit _ _ _ => []
  | .composite elems _ => exprs elems
  | .keyValue key value _ => [.expr key, .expr value]
  | .funcLit params body _ => params.map .param ++ [.stmt (.block body)]
  | .paren x _ => [.expr x]
  | .selector x _ _ => [.expr x]
  | .index x i _ => [.expr x, .expr i]
  | .star x _ => [.expr x]
  | .unary _ x _ => [.expr x]
  | .binary _ x y _ => [.expr x, .expr y]
  | .call fn args _ => .expr fn :: exprs args

def ofStmt : Stmt → List Node
  | .expr x _ => [.expr x]
  | .assign left _ right _ => exprs left ++ exprs right
  | .incDec x _ _ => [.expr x]
  | .decl names values _ _ => exprs (names.map .ident) ++ exprs values
  | .ret results _ => exprs results
  | .block (.mk ss _) => stmts ss
  | .cond test body other init _ =>
    stmt? init ++ .expr test :: .stmt (.block body) :: stmt? other
  | .loop body init test post _ =>
    stmt? init ++ expr? test ++ stmt? post ++ [.stmt (.block body)]
  | .range x body key value _ _ =>
    expr? key ++ expr? value ++ [.expr x, .stmt (.block body)]
  | .switch clauses tag init _ =>
    stmt? init ++ expr? tag ++ stmts (clauses.map .clause)
  | .clause (.mk es ss _) => exprs es ++ stmts ss
  | .defer call _ => [.expr call]
  | .go call _ => [.expr call]
  | .branch _ _ _ => []

def children : Node → List Node
  | .expr e => ofExpr e
  | .stmt s => ofStmt s
  | .param _ => []
  | .func f =>
    f.receiver.toList.map .param ++ f.params.map .param ++
      f.body.toList.map fun b => .stmt (.block b)
  | .file f => f.decls.map .func
  | .unit u => u.files.map .file

def size : Node → Nat
  | .expr e => e.size
  | .stmt s => s.size
  | .param _ => 1
  | .func f => f.size
  | .file f => f.size
  | .unit u => u.size

/-- Takes the next node off a stack and puts its children in its place, at most `steps` times. -/
def walkFrom : Nat → List Node → List Node
  | 0, _ => []
  | _ + 1, [] => []
  | steps + 1, n :: rest => n :: walkFrom steps (n.children ++ rest)

/-- A node and all nodes below it, each before its parts. Every step yields one of them. -/
def walk (n : Node) : List Node :=
  walkFrom n.size [n]

def call? : Node → Option Call
  | .expr e => e.call?
  | _ => none

def calls (n : Node) : List Call :=
  n.walk.filterMap call?

end Node

def Block.calls (b : Block) : List Call :=
  (Node.stmt (.block b)).calls

end ReadGuard
