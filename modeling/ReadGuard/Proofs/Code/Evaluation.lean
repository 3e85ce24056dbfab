import Mathlib.Data.List.Perm.Basic
import ReadGuard.Proofs.Code.Preorder

namespace ReadGuard

namespace Node

def loopVariables : Node → List Node
  | .stmt (.range _ _ key value _ _) => expr? key ++ expr? value
  | _ => []

/-- The parts of a node that are evaluated with it: all but the variables of a range loop. -/
def evaluated : Node → List Node
  | .stmt (.range x body _ _ _ _) => [.expr x, .stmt (.block body)]
  | n => n.children

theorem children_eq (n : Node) : n.children = n.loopVariables ++ n.evaluated := by
  cases n with
  | stmt s => cases s <;> rfl
  | _ => rfl

theorem mem_children_of_evaluated {n m : Node} (hm : m ∈ n.evaluated) : m ∈ n.children := by
  rw [children_eq]
  exact List.mem_append_right _ hm

def reached (n : Node) : List Node :=
  n :: n.evaluated.attach.flatMap fun m => m.1.reached
termination_by n.size
decreasing_by exact size_lt_of_child (mem_children_of_evaluated m.2)

theorem reached_eq (n : Node) : n.reached = n :: n.evaluated.flatMap reached := by
  rw [reached, List.flatMap_subtype fun _ _ => rfl, List.unattach_attach]

theorem mem_reached_self (n : Node) : n ∈ n.reached := by
  rw [reached_eq]
  exact List.mem_cons_self

theorem mem_reached_of_evaluated {n m k : Node} (hm : m ∈ n.evaluated) (hk : k ∈ m.reached) :
    k ∈ n.reached := by
  rw [reached_eq]
  exact List.mem_cons_of_mem _ (List.mem_flatMap.mpr ⟨m, hm, hk⟩)

/-- What is met on a walk is reached, or it is met on a walk through a loop variable. -/
theorem walk_perm (n : Node) :
    n.walk.Perm (n.reached ++ n.reached.flatMap fun m => m.loopVariables.flatMap walk) := by
  induction hs : n.size using Nat.strongRecOn generalizing n with
  | _ k ih =>
    subst hs
    have hparts : (n.evaluated.flatMap walk).Perm (n.evaluated.flatMap fun m =>
        m.reached ++ m.reached.flatMap fun m => m.loopVariables.flatMap walk) := by
      apply List.Perm.flatMap_left
      intro m hm
      exact ih m.size (size_lt_of_child (mem_children_of_evaluated hm)) m rfl
    have hsplit := hparts.trans (List.flatMap_append_perm _ _ _).symm
    rw [← List.flatMap_assoc] at hsplit
    rw [walk_eq, children_eq, reached_eq, List.flatMap_append, List.flatMap_cons, List.cons_append]
    exact ((hsplit.append_left _).trans (List.perm_append_comm_assoc _ _ _)).cons n

theorem mem_walk_of_reached {n m : Node} (hm : m ∈ n.reached) : m ∈ n.walk :=
  (walk_perm n).mem_iff.mpr (List.mem_append_left _ hm)

def own : Node → List Event
  | .expr (.call fn args info) => [.call ⟨fn, args, info⟩]
  | .stmt (.assign left op right _) => [.assign left op right]
  | .stmt (.incDec x _ pos) => [.incDec x pos]
  | .stmt (.decl names values _ _) => [.declare names values]
  | .stmt (.range _ _ key value op _) => [.range key value op]
  | _ => []

theorem call_mem_own {n : Node} {c : Call} : .call c ∈ n.own ↔ n.call? = some c := by
  cases n with
  | expr e => cases e <;> simp [own, call?, Expr.call?, eq_comm]
  | stmt s => cases s <;> simp [own, call?]
  | _ => simp [own, call?]

section Events

theorem events_params (params : List Param) : (params.map Node.param).flatMap events = [] := by
  simp [List.flatMap_map, events]

theorem eventsAll_idents (names : List Ident) : Expr.eventsAll (names.map .ident) = [] := by
  simp [eventsAll_exprs, exprs, List.flatMap_map, events, Expr.events]

theorem events_expr? (e : Option Expr) :
    (expr? e).flatMap events = match e with | some e => e.events | none => [] := by
  cases e with
  | none => rfl
  | some e => exact List.append_nil _

theorem events_stmt? (s : Option Stmt) :
    (stmt? s).flatMap events = match s with | some s => s.events | none => [] := by
  cases s with
  | none => rfl
  | some s => exact List.append_nil _

theorem events_perm_expr (e : Expr) :
    e.events.Perm (own (.expr e) ++ (evaluated (.expr e)).flatMap events) := by
  cases e with
  | ident id | lit kind value info => exact .refl _
  | composite elems info => exact .of_eq (eventsAll_exprs elems)
  | keyValue x y info | index x y info | binary op x y info =>
    exact .of_eq (congrArg (x.events ++ ·) (List.append_nil y.events).symm)
  | funcLit params body info =>
    obtain ⟨ss, pos⟩ := body
    have hp : (params.map Node.param ++ [Node.stmt (.block (.mk ss pos))]).flatMap events =
        Stmt.eventsAll ss := by
      rw [List.flatMap_append, events_params, List.nil_append, List.flatMap_singleton]
      rfl
    exact .of_eq hp.symm
  | paren x info | selector x field info | star x info | unary op x info =>
    exact .of_eq (List.append_nil x.events).symm
  | call fn args info =>
    have hp : (evaluated (.expr (.call fn args info))).flatMap events =
        fn.events ++ Expr.eventsAll args := by
      rw [eventsAll_exprs]
      rfl
    rw [hp]
    exact List.perm_append_comm

theorem events_perm_stmt (s : Stmt) :
    s.events.Perm (own (.stmt s) ++ (evaluated (.stmt s)).flatMap events) := by
  have hblock : ∀ ss pos, events (.stmt (.block (.mk ss pos))) = Stmt.eventsAll ss :=
    fun _ _ => rfl
  cases s with
  | expr x pos | defer x pos | go x pos => exact .of_eq (List.append_nil x.events).symm
  | assign left op right pos =>
    have hp : (evaluated (.stmt (.assign left op right pos))).flatMap events =
        Expr.eventsAll left ++ Expr.eventsAll right := by
      rw [eventsAll_exprs, eventsAll_exprs, ← List.flatMap_append]
      rfl
    rw [hp]
    exact List.perm_append_comm.trans (List.perm_append_comm.append_left _)
  | incDec x op pos =>
    have hp : (evaluated (.stmt (.incDec x op pos))).flatMap events = x.events :=
      List.append_nil x.events
    rw [hp]
    exact List.perm_append_comm
  | decl names values type pos =>
    have hp : (evaluated (.stmt (.decl names values type pos))).flatMap events =
        Expr.eventsAll (names.map .ident) ++ Expr.eventsAll values := by
      rw [eventsAll_exprs, eventsAll_exprs, ← List.flatMap_append]
      rfl
    rw [hp, eventsAll_idents]
    exact List.perm_append_comm
  | ret results pos => exact .of_eq (eventsAll_exprs results)
  | block b =>
    obtain ⟨ss, pos⟩ := b
    exact .of_eq (eventsAll_stmts ss)
  | cond test body other init pos =>
    obtain ⟨ss, p⟩ := body
    have hp : (evaluated (.stmt (.cond test (.mk ss p) other init pos))).flatMap events =
        (stmt? init).flatMap events ++ test.events ++ Stmt.eventsAll ss ++
          (stmt? other).flatMap events := by
      simp only [evaluated, children, ofStmt, List.flatMap_append, List.flatMap_cons, hblock,
        List.append_assoc]
      rfl
    rw [hp, events_stmt?, events_stmt?]
    cases other <;> cases init <;> exact .refl _
  | loop body init test post pos =>
    obtain ⟨ss, p⟩ := body
    have hp : (evaluated (.stmt (.loop (.mk ss p) init test post pos))).flatMap events =
        (stmt? init).flatMap events ++ (expr? test).flatMap events ++
          (stmt? post).flatMap events ++ Stmt.eventsAll ss := by
      simp only [evaluated, children, ofStmt, List.flatMap_append, List.flatMap_singleton, hblock]
    rw [hp, events_stmt?, events_expr?, events_stmt?]
    cases init <;> cases test <;> cases post <;> exact .refl _
  | range x body key value op pos =>
    obtain ⟨ss, p⟩ := body
    have hp : (evaluated (.stmt (.range x (.mk ss p) key value op pos))).flatMap events =
        x.events ++ Stmt.eventsAll ss :=
      congrArg (x.events ++ ·) (List.append_nil (Stmt.eventsAll ss))
    rw [hp]
    exact List.perm_middle
  | switch clauses tag init pos =>
    have hp : (evaluated (.stmt (.switch clauses tag init pos))).flatMap events =
        (stmt? init).flatMap events ++ (expr? tag).flatMap events ++ Clause.eventsAll clauses := by
      rw [eventsAll_clauses, ← List.flatMap_append, ← List.flatMap_append]
      rfl
    rw [hp, events_stmt?, events_expr?]
    cases tag <;> cases init <;> exact .refl _
  | clause c =>
    obtain ⟨es, ss, pos⟩ := c
    have hp : (evaluated (.stmt (.clause (.mk es ss pos)))).flatMap events =
        Expr.eventsAll es ++ Stmt.eventsAll ss := by
      rw [eventsAll_exprs, eventsAll_stmts, ← List.flatMap_append]
      rfl
    exact .of_eq hp.symm
  | branch word label pos => exact .refl _

def isCode : Node → Bool
  | .expr _ | .stmt _ | .param _ => true
  | _ => false

theorem all_isCode_exprs (es : List Expr) : (exprs es).all isCode = true := by
  simp [exprs, isCode]

theorem all_isCode_stmts (ss : List Stmt) : (stmts ss).all isCode = true := by
  simp [stmts, isCode]

theorem all_isCode_params (ps : List Param) : (ps.map Node.param).all isCode = true := by
  simp [isCode]

theorem all_isCode_evaluated {n : Node} (hn : n.isCode = true) :
    n.evaluated.all isCode = true := by
  cases n with
  | expr e => cases e <;> simp only [evaluated, children, ofExpr, isCode, List.all_append,
      List.all_cons, List.all_nil, all_isCode_exprs, all_isCode_params, Bool.and_self]
  | stmt s =>
    rcases s with _ | _ | _ | _ | _ | ⟨⟨_, _⟩⟩ | _ | _ | _ | _ | ⟨⟨_, _, _⟩⟩ | _ | _ | _ <;>
      simp only [evaluated, children, ofStmt, isCode, expr?, stmt?, List.all_append, List.all_cons,
        List.all_nil, all_isCode_exprs, all_isCode_stmts, Bool.and_self]
  | param p => rfl
  | func f => cases hn
  | file f => cases hn
  | unit u => cases hn

/-- Some code evaluates to the events of all that it reaches, in some order. -/
theorem events_perm {n : Node} (hn : n.isCode = true) : n.events.Perm (n.reached.flatMap own) := by
  induction hs : n.size using Nat.strongRecOn generalizing n with
  | _ k ih =>
    subst hs
    have hstep : n.events.Perm (n.own ++ n.evaluated.flatMap events) := by
      cases n with
      | expr e => exact events_perm_expr e
      | stmt s => exact events_perm_stmt s
      | param p => exact .refl _
      | func f => cases hn
      | file f => cases hn
      | unit u => cases hn
    have hparts : (n.evaluated.flatMap events).Perm
        (n.evaluated.flatMap fun m => m.reached.flatMap own) := by
      apply List.Perm.flatMap_left
      intro m hm
      have hcode := List.all_eq_true.mp (all_isCode_evaluated hn) m hm
      exact ih m.size (size_lt_of_child (mem_children_of_evaluated hm)) hcode rfl
    rw [reached_eq, List.flatMap_cons, List.flatMap_assoc]
    exact hstep.trans (hparts.append_left _)

end Events

end Node

namespace FuncDecl

def reached (f : FuncDecl) : List Node :=
  match f.body with
  | some b => (Node.stmt (.block b)).reached
  | none => []

theorem events_perm (f : FuncDecl) : f.events.Perm (f.reached.flatMap Node.own) := by
  unfold events reached
  cases f.body with
  | none => exact .refl _
  | some b => exact Node.events_perm (n := .stmt (.block b)) rfl

theorem exists_body_of_reached {f : FuncDecl} {n : Node} (hn : n ∈ f.reached) :
    ∃ body, f.body = some body ∧ n ∈ (Node.stmt (.block body)).walk := by
  unfold reached at hn
  cases hb : f.body with
  | none => simp [hb] at hn
  | some body =>
    rw [hb] at hn
    exact ⟨body, rfl, Node.mem_walk_of_reached hn⟩

theorem mem_events {f : FuncDecl} {event : Event} :
    event ∈ f.events ↔ ∃ n ∈ f.reached, event ∈ n.own := by
  rw [f.events_perm.mem_iff, List.mem_flatMap]

/-- Every call that is an event of a function is met on the walk through its body. -/
theorem call_mem_calls {f : FuncDecl} {body : Block} (hb : f.body = some body) {c : Call}
    (h : .call c ∈ f.events) : c ∈ body.calls := by
  obtain ⟨n, hn, hc⟩ := mem_events.mp h
  unfold reached at hn
  rw [hb] at hn
  exact List.mem_filterMap.mpr ⟨n, Node.mem_walk_of_reached hn, Node.call_mem_own.mp hc⟩

end FuncDecl

end ReadGuard
