import ReadGuard.Code.Basic

namespace ReadGuard

/-- What code does that the rules look at, once its parts have been evaluated. -/
inductive Event
  | call (c : Call)
  | assign (left : List Expr) (op : String) (right : List Expr)
  | incDec (x : Expr) (pos : Position)
  | declare (names : List Ident) (values : List Expr)
  /-- The start of a round of a range loop. -/
  | range (key value : Option Expr) (op : String)

mutual

def Expr.events : Expr → List Event
  | .ident _ => []
  | .lit _ _ _ => []
  | .composite elems _ => Expr.eventsAll elems
  | .keyValue key value _ => key.events ++ value.events
  | .funcLit _ (.mk ss _) _ => Stmt.eventsAll ss
  | .paren x _ => x.events
  | .selector x _ _ => x.events
  | .index x i _ => x.events ++ i.events
  | .star x _ => x.events
  | .unary _ x _ => x.events
  | .binary _ x y _ => x.events ++ y.events
  | .call fn args info => fn.events ++ Expr.eventsAll args ++ [.call ⟨fn, args, info⟩]

def Expr.eventsAll : List Expr → List Event
  | [] => []
  | e :: es => e.events ++ Expr.eventsAll es

/-- The events of a statement: an assignment evaluates its right side first, a loop its header. The
variables of a range loop are not evaluated. -/
def Stmt.events : Stmt → List Event
  | .expr x _ => x.events
  | .assign left op right _ =>
    Expr.eventsAll right ++ Expr.eventsAll left ++ [.assign left op right]
  | .incDec x _ pos => x.events ++ [.incDec x pos]
  | .decl names values _ _ => Expr.eventsAll values ++ [.declare names values]
  | .ret results _ => Expr.eventsAll results
  | .block (.mk ss _) => Stmt.eventsAll ss
  | .cond test (.mk ss _) other init _ =>
    (match init with | some s => s.events | none => []) ++ test.events ++ Stmt.eventsAll ss ++
      (match other with | some s => s.events | none => [])
  | .loop (.mk ss _) init test post _ =>
    (match init with | some s => s.events | none => []) ++
      (match test with | some e => e.events | none => []) ++
      (match post with | some s => s.events | none => []) ++ Stmt.eventsAll ss
  | .range x (.mk ss _) key value op _ =>
    x.events ++ .range key value op :: Stmt.eventsAll ss
  | .switch clauses tag init _ =>
    (match init with | some s => s.events | none => []) ++
      (match tag with | some e => e.events | none => []) ++ Clause.eventsAll clauses
  | .clause (.mk es ss _) => Expr.eventsAll es ++ Stmt.eventsAll ss
  | .defer call _ => call.events
  | .go call _ => call.events
  | .branch _ _ _ => []

def Stmt.eventsAll : List Stmt → List Event
  | [] => []
  | s :: ss => s.events ++ Stmt.eventsAll ss

def Clause.eventsAll : List Clause → List Event
  | [] => []
  | .mk es ss _ :: cs => Expr.eventsAll es ++ Stmt.eventsAll ss ++ Clause.eventsAll cs

end

def FuncDecl.events (f : FuncDecl) : List Event :=
  match f.body with
  | some b => (Stmt.block b).events
  | none => []

end ReadGuard
