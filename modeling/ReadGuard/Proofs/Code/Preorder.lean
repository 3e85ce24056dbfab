import ReadGuard.Check.Event
import ReadGuard.Code.Walk

namespace ReadGuard

namespace Node

def sizes (ns : List Node) : Nat := (ns.map size).foldr (· + ·) 0

@[simp] theorem sizes_nil : sizes [] = 0 := rfl

@[simp] theorem sizes_cons (n : Node) (ns : List Node) : sizes (n :: ns) = n.size + sizes ns := rfl

@[simp] theorem sizes_append (ns ms : List Node) : sizes (ns ++ ms) = sizes ns + sizes ms := by
  induction ns with
  | nil => rw [List.nil_append, sizes_nil, Nat.zero_add]
  | cons n ns ih => rw [List.cons_append, sizes_cons, sizes_cons, ih, Nat.add_assoc]

@[simp] theorem sizes_exprs (es : List Expr) : sizes (exprs es) = Expr.sizes es := by
  induction es with
  | nil => rfl
  | cons e es ih =>
    rw [exprs, List.map_cons, sizes_cons, Expr.sizes, ← ih]
    rfl

@[simp] theorem sizes_stmts (ss : List Stmt) : sizes (stmts ss) = Stmt.sizes ss := by
  induction ss with
  | nil => rfl
  | cons s ss ih =>
    rw [stmts, List.map_cons, sizes_cons, Stmt.sizes, ← ih]
    rfl

@[simp] theorem sizes_clauses (cs : List Clause) :
    Stmt.sizes (cs.map .clause) = Clause.sizes cs := by
  induction cs with
  | nil => rfl
  | cons c cs ih =>
    obtain ⟨es, ss, pos⟩ := c
    have hs : Stmt.sizes ((Clause.mk es ss pos :: cs).map .clause) =
        1 + Expr.sizes es + Stmt.sizes ss + Stmt.sizes (cs.map .clause) := rfl
    rw [hs, ih]
    rfl

@[simp] theorem sizes_params (ps : List Param) : sizes (ps.map .param) = ps.length := by
  induction ps with
  | nil => rfl
  | cons p ps ih =>
    rw [List.map_cons, sizes_cons, ih, List.length_cons, Nat.add_comm]
    rfl

@[simp] theorem sizes_idents (names : List Ident) :
    Expr.sizes (names.map .ident) = names.length := by
  induction names with
  | nil => rfl
  | cons id names ih =>
    have hs : Expr.sizes ((id :: names).map .ident) = 1 + Expr.sizes (names.map .ident) := rfl
    rw [hs, ih, List.length_cons, Nat.add_comm]

theorem sizes_ofExpr (e : Expr) : e.size = 1 + sizes (ofExpr e) := by
  cases e with
  | composite elems info =>
    rw [ofExpr, sizes_exprs]
    rfl
  | keyValue x y info | index x y info | binary op x y info => exact Nat.add_assoc 1 _ _
  | funcLit params body info =>
    obtain ⟨ss, pos⟩ := body
    have hs : (Expr.funcLit params (.mk ss pos) info).size = 2 + params.length + Stmt.sizes ss := rfl
    have hb : (Node.stmt (.block (.mk ss pos))).size = 1 + Stmt.sizes ss := rfl
    rw [ofExpr, sizes_append, sizes_params, sizes_cons, sizes_nil, hs, hb]
    omega
  | call fn args info =>
    rw [ofExpr, sizes_cons, sizes_exprs]
    exact Nat.add_assoc 1 _ _
  | _ => rfl

theorem sizes_ofStmt (s : Stmt) : s.size = 1 + sizes (ofStmt s) := by
  have hblock : ∀ ss pos, (Node.stmt (.block (.mk ss pos))).size = 1 + Stmt.sizes ss :=
    fun _ _ => rfl
  cases s with
  | assign left op right pos =>
    rw [ofStmt, sizes_append, sizes_exprs, sizes_exprs]
    exact Nat.add_assoc 1 _ _
  | decl names values type pos =>
    rw [ofStmt, sizes_append, sizes_exprs, sizes_exprs, sizes_idents]
    exact Nat.add_assoc 1 _ _
  | ret results pos =>
    rw [ofStmt, sizes_exprs]
    rfl
  | block b =>
    obtain ⟨ss, pos⟩ := b
    rw [ofStmt, sizes_stmts]
    rfl
  | cond test body other init pos =>
    obtain ⟨ss, p⟩ := body
    have hs : (Stmt.cond test (.mk ss p) other init pos).size =
        2 + sizes (stmt? init) + test.size + Stmt.sizes ss + sizes (stmt? other) := by
      cases other <;> cases init <;> rfl
    rw [ofStmt, sizes_append, sizes_cons, sizes_cons, hs, hblock, size]
    omega
  | loop body init test post pos =>
    obtain ⟨ss, p⟩ := body
    have hs : (Stmt.loop (.mk ss p) init test post pos).size =
        2 + sizes (stmt? init) + sizes (expr? test) + sizes (stmt? post) + Stmt.sizes ss := by
      cases init <;> cases test <;> cases post <;> rfl
    rw [ofStmt, sizes_append, sizes_append, sizes_append, sizes_cons, sizes_nil, hs, hblock]
    omega
  | range x body key value op pos =>
    obtain ⟨ss, p⟩ := body
    have hs : (Stmt.range x (.mk ss p) key value op pos).size =
        2 + sizes (expr? key) + sizes (expr? value) + x.size + Stmt.sizes ss := by
      cases key <;> cases value <;> rfl
    rw [ofStmt, sizes_append, sizes_append, sizes_cons, sizes_cons, sizes_nil, hs, hblock, size]
    omega
  | switch clauses tag init pos =>
    have hs : (Stmt.switch clauses tag init pos).size =
        1 + sizes (stmt? init) + sizes (expr? tag) + Clause.sizes clauses := by
      cases tag <;> cases init <;> rfl
    rw [ofStmt, sizes_append, sizes_append, sizes_stmts, sizes_clauses, hs]
    omega
  | clause c =>
    obtain ⟨es, ss, pos⟩ := c
    rw [ofStmt, sizes_append, sizes_exprs, sizes_stmts]
    exact Nat.add_assoc 1 _ _
  | _ => rfl

theorem sizes_children (n : Node) : n.size = 1 + sizes n.children := by
  cases n with
  | expr e => exact sizes_ofExpr e
  | stmt s => exact sizes_ofStmt s
  | param p => rfl
  | func f =>
    cases hb : f.body <;>
      simp [size, children, FuncDecl.size, hb, Nat.add_assoc]
  | file f =>
    simp [size, children, SourceFile.size, sizes, Function.comp_def]
  | unit u =>
    simp [size, children, SourceUnit.size, sizes, Function.comp_def]

/-- A stack loses one node when a node on it gives way to its parts. -/
theorem sizes_expand (n : Node) (rest : List Node) :
    sizes (n :: rest) = sizes (n.children ++ rest) + 1 := by
  rw [sizes_cons, sizes_append, sizes_children n]
  omega

/-- The stack of a walk is used up from the left. -/
theorem walkFrom_append (ns ms : List Node) (steps : Nat) :
    walkFrom (sizes ns + steps) (ns ++ ms) = walkFrom (sizes ns) ns ++ walkFrom steps ms := by
  induction hn : sizes ns using Nat.strongRecOn generalizing ns with
  | _ k ih =>
    subst hn
    cases ns with
    | nil => simp [walkFrom]
    | cons n rest =>
      have hs := sizes_expand n rest
      have hr := ih (sizes (n.children ++ rest)) (by omega) (n.children ++ rest) rfl
      rw [hs, Nat.add_right_comm]
      simp only [walkFrom, List.cons_append, ← List.append_assoc, hr]

theorem walkFrom_sizes (ns : List Node) : walkFrom (sizes ns) ns = ns.flatMap walk := by
  induction ns with
  | nil => rfl
  | cons n rest ih =>
    have h := walkFrom_append [n] rest (sizes rest)
    simp only [sizes_cons, sizes_nil, Nat.add_zero, List.singleton_append] at h
    rw [sizes_cons, h, ih]
    rfl

/-- A walk yields a node and then walks its parts in turn. -/
theorem walk_eq (n : Node) : n.walk = n :: n.children.flatMap walk := by
  rw [walk, sizes_children, Nat.add_comm, walkFrom, List.append_nil, walkFrom_sizes]

theorem size_lt_of_child {n m : Node} (hm : m ∈ n.children) : m.size < n.size := by
  obtain ⟨before, after, hs⟩ := List.append_of_mem hm
  rw [sizes_children n, hs, sizes_append, sizes_cons]
  omega

/-- A node, and then for each of its parts in turn the part and all below it. -/
def preorder (n : Node) : List Node :=
  n :: n.children.attach.flatMap fun m => m.1.preorder
termination_by n.size
decreasing_by exact size_lt_of_child m.2

theorem preorder_eq (n : Node) : n.preorder = n :: n.children.flatMap preorder := by
  rw [preorder, List.flatMap_subtype fun _ _ => rfl, List.unattach_attach]

/-- The walk with a stack goes through the nodes in preorder. -/
theorem walk_eq_preorder (n : Node) : n.walk = n.preorder := by
  induction hs : n.size using Nat.strongRecOn generalizing n with
  | _ k ih =>
    subst hs
    have hparts : n.children.flatMap walk = n.children.flatMap preorder := by
      simp only [List.flatMap]
      congr 1
      apply List.map_congr_left
      exact fun m hm => ih m.size (size_lt_of_child hm) m rfl
    rw [walk_eq, preorder_eq, hparts]

theorem mem_walk_self (n : Node) : n ∈ n.walk := by
  rw [walk_eq]
  exact List.mem_cons_self

theorem mem_walk_of_child {n m k : Node} (hm : m ∈ n.children) (hk : k ∈ m.walk) :
    k ∈ n.walk := by
  rw [walk_eq]
  exact List.mem_cons_of_mem _ (List.mem_flatMap.mpr ⟨m, hm, hk⟩)

theorem mem_walk_trans {n m k : Node} (hm : m ∈ n.walk) (hk : k ∈ m.walk) : k ∈ n.walk := by
  induction hs : n.size using Nat.strongRecOn generalizing n with
  | _ size ih =>
    subst hs
    rw [walk_eq, List.mem_cons, List.mem_flatMap] at hm
    rcases hm with rfl | ⟨child, hc, hm⟩
    · exact hk
    · exact mem_walk_of_child hc (ih child.size (size_lt_of_child hc) hm rfl)

theorem unparen_mem_walk (e : Expr) : .expr e.unparen ∈ (Node.expr e).walk := by
  fun_induction Expr.unparen e with
  | case1 x info ih => exact mem_walk_of_child List.mem_cons_self ih
  | case2 e _ => exact mem_walk_self _

def events : Node → List Event
  | .expr e => e.events
  | .stmt s => s.events
  | _ => []

theorem eventsAll_exprs (es : List Expr) : Expr.eventsAll es = (exprs es).flatMap events := by
  induction es with
  | nil => rfl
  | cons e es ih =>
    rw [Expr.eventsAll, ih]
    rfl

theorem eventsAll_stmts (ss : List Stmt) : Stmt.eventsAll ss = (stmts ss).flatMap events := by
  induction ss with
  | nil => rfl
  | cons s ss ih =>
    rw [Stmt.eventsAll, ih]
    rfl

theorem eventsAll_clauses (cs : List Clause) :
    Clause.eventsAll cs = (stmts (cs.map .clause)).flatMap events := by
  induction cs with
  | nil => rfl
  | cons c cs ih =>
    obtain ⟨es, ss, pos⟩ := c
    rw [Clause.eventsAll, ih]
    rfl

end Node

end ReadGuard
