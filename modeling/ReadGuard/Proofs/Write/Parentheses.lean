import ReadGuard.Proofs.Code.Preorder
import ReadGuard.Proofs.Write.FieldRoot
import ReadGuard.Write.Binding
import ReadGuard.Write.Target

namespace ReadGuard

mutual

def Expr.bare : Expr → Expr
  | .ident id => .ident id
  | .lit kind value info => .lit kind value info
  | .composite elems info => .composite (Expr.bareAll elems) info
  | .keyValue key value info => .keyValue key.bare value.bare info
  | .funcLit params body info => .funcLit params body.bare info
  | .paren x _ => x.bare
  | .selector x field info => .selector x.bare field info
  | .index x i info => .index x.bare i.bare info
  | .star x info => .star x.bare info
  | .unary op x info => .unary op x.bare info
  | .binary op x y info => .binary op x.bare y.bare info
  | .call fn args info => .call fn.bare (Expr.bareAll args) info

def Expr.bareAll : List Expr → List Expr
  | [] => []
  | e :: es => e.bare :: Expr.bareAll es

def Expr.bare? : Option Expr → Option Expr
  | none => none
  | some e => some e.bare

def Stmt.bare : Stmt → Stmt
  | .expr x pos => .expr x.bare pos
  | .assign left op right pos => .assign (Expr.bareAll left) op (Expr.bareAll right) pos
  | .incDec x op pos => .incDec x.bare op pos
  | .decl names values type pos => .decl names (Expr.bareAll values) type pos
  | .ret results pos => .ret (Expr.bareAll results) pos
  | .block b => .block b.bare
  | .cond test body other init pos =>
    .cond test.bare body.bare (Stmt.bare? other) (Stmt.bare? init) pos
  | .loop body init test post pos =>
    .loop body.bare (Stmt.bare? init) (Expr.bare? test) (Stmt.bare? post) pos
  | .range x body key value op pos =>
    .range x.bare body.bare (Expr.bare? key) (Expr.bare? value) op pos
  | .switch clauses tag init pos =>
    .switch (Clause.bareAll clauses) (Expr.bare? tag) (Stmt.bare? init) pos
  | .clause c => .clause c.bare
  | .defer call pos => .defer call.bare pos
  | .go call pos => .go call.bare pos
  | .branch keyword label pos => .branch keyword label pos

def Stmt.bareAll : List Stmt → List Stmt
  | [] => []
  | s :: ss => s.bare :: Stmt.bareAll ss

def Stmt.bare? : Option Stmt → Option Stmt
  | none => none
  | some s => some s.bare

def Block.bare : Block → Block
  | .mk stmts pos => .mk (Stmt.bareAll stmts) pos

def Clause.bare : Clause → Clause
  | .mk exprs body pos => .mk (Expr.bareAll exprs) (Stmt.bareAll body) pos

def Clause.bareAll : List Clause → List Clause
  | [] => []
  | c :: cs => c.bare :: Clause.bareAll cs

end

namespace Expr

/-- All parentheses in an expression have the type of what is inside them. -/
def ParensTyped (e : Expr) : Prop :=
  ∀ x info, .expr (.paren x info) ∈ (Node.expr e).walk → info.type = x.type

namespace ParensTyped

theorem part {e x : Expr} (h : e.ParensTyped) (hx : .expr x ∈ Node.ofExpr e) : x.ParensTyped :=
  fun y info hy => h y info (Node.mem_walk_of_child hx hy)

theorem inside {x : Expr} {info : Info} (h : (paren x info).ParensTyped) : x.ParensTyped :=
  h.part List.mem_cons_self

theorem type_bare {e : Expr} (h : e.ParensTyped) : e.bare.type = e.type := by
  cases e with
  | paren x info => exact h.inside.type_bare.trans (h x info (Node.mem_walk_self _)).symm
  | _ => rfl

theorem type_unparen {e : Expr} (h : e.ParensTyped) : e.unparen.type = e.type := by
  cases e with
  | paren x info => exact h.inside.type_unparen.trans (h x info (Node.mem_walk_self _)).symm
  | _ => rfl

end ParensTyped

theorem bare_unparen (e : Expr) : e.unparen.bare = e.bare := by
  cases e with
  | paren x info => exact bare_unparen x
  | _ => rfl

theorem unparen_bare (e : Expr) : e.bare.unparen = e.bare := by
  cases e with
  | paren x info => exact unparen_bare x
  | _ => rfl

theorem operand?_bare (e : Expr) : e.bare.operand? = e.unparen.operand?.map bare := by
  cases e with
  | paren x info => exact operand?_bare x
  | _ => rfl

end Expr

namespace Protection

open ReadGuard.Expr

theorem isPlainValue_congr {e e' : Expr} (h : e.type = e'.type) :
    isPlainValue e = isPlainValue e' := by
  rw [isPlainValue, h, isPlainValue]

theorem isArrayValue_congr {e e' : Expr} (h : e.type = e'.type) :
    isArrayValue e = isArrayValue e' := by
  rw [isArrayValue, h, isArrayValue]

theorem isFieldRef_bare {p : Protection} {e : Expr} (h : e.ParensTyped) :
    p.isFieldRef e.bare = p.isFieldRef e := by
  cases e with
  | paren x info =>
    have hx := isFieldRef_bare (p := p) h.inside
    exact hx
  | selector x field info => exact congrArg p.holds? (h.part List.mem_cons_self).type_bare
  | _ => rfl

theorem fieldRoot_bare {p : Protection} {e : Expr} (h : e.ParensTyped) :
    p.fieldRoot e.bare = (p.fieldRoot e).map bare := by
  induction e using spine_induction with
  | paren x info ih => exact ih h.inside
  | selector x field info ih =>
    have hx : x.ParensTyped := h.part List.mem_cons_self
    have hplain : isPlainValue x.bare.unparen = isPlainValue x.unparen := by
      apply isPlainValue_congr
      rw [unparen_bare, hx.type_bare, hx.type_unparen]
    have hb : (selector x field info).bare = selector x.bare field info := rfl
    rw [hb, fieldRoot, fieldRoot, hx.type_bare, hplain, ih hx]
    split
    · rfl
    · split <;> rfl
  | index x i info ih =>
    have hx : x.ParensTyped := h.part List.mem_cons_self
    have harray : isArrayValue x.bare.unparen = isArrayValue x.unparen := by
      apply isArrayValue_congr
      rw [unparen_bare, hx.type_bare, hx.type_unparen]
    have hb : (index x i info).bare = index x.bare i.bare info := rfl
    rw [hb, fieldRoot, fieldRoot, isFieldRef_bare hx, harray, ih hx]
    split
    · rw [unparen_bare, Option.map_some, bare_unparen]
    · split <;> rfl
  | stop e hu ho =>
    have hbare : e.bare.unparen.operand? = none := by
      rw [unparen_bare, operand?_bare, hu, ho, Option.map_none]
    rw [fieldRoot_eq_none hbare, fieldRoot_eq_none (by rw [hu, ho]), Option.map_none]

/-- An address is found with and without parentheses. -/
theorem addressed_bare {p : Protection} {e : Expr} (h : e.ParensTyped) :
    p.addressed e.bare = (p.addressed e.unparen).map bare := by
  cases e with
  | paren x info =>
    have hx := addressed_bare (p := p) h.inside
    exact hx
  | unary op x info =>
    have hb : (unary op x info).bare = unary op x.bare info := rfl
    have hu : (unary op x info).unparen = unary op x info := rfl
    rw [hb, hu]
    by_cases hop : op = "&"
    · subst hop
      exact fieldRoot_bare (h.part List.mem_cons_self)
    · simp [addressed, hop]
  | _ => rfl

end Protection

section Records

variable {α β : Type} (f : α → β)

def AliasLink.map : AliasLink α → AliasLink β
  | .field target => .field (f target)
  | .copied handle => .copied handle

def AliasRecord.map (r : AliasRecord α) : AliasRecord β := ⟨r.name, r.link.map f⟩

namespace AliasStore

variable (s : AliasStore α)

def map : AliasStore β := ⟨s.arena.map (AliasRecord.map f), s.heads⟩

theorem isBound_map (name : String) : (s.map f).isBound name = s.isBound name := rfl

theorem bind_map (name : String) (link : AliasLink α) :
    (s.map f).bind name (link.map f) = (s.bind name link).map f := by
  simp [bind, map, forget, AliasRecord.map]

theorem copy_map (name source : String) :
    ((s.map f).copy name source).2 = (s.copy name source).2.map f := by
  have hh : (s.map f).head? source = s.head? source := rfl
  rw [copy, copy, hh]
  cases s.head? source with
  | none => rfl
  | some handle =>
    by_cases he : source = name
    · simp only [if_pos he]
    · simp only [if_neg he]
      exact s.bind_map f name (.copied handle)

theorem follow_map (limit : Nat) (seen : List String) (handle : Nat) :
    (s.map f).follow limit seen handle = (s.follow limit seen handle).map f := by
  induction limit generalizing seen handle with
  | zero => rfl
  | succ limit ih =>
    have ha : (s.map f).arena = s.arena.map (AliasRecord.map f) := rfl
    rw [follow, follow, ha, Array.getElem?_map]
    cases s.arena[handle]? with
    | none => rfl
    | some r =>
      obtain ⟨name, link⟩ := r
      by_cases hs : name ∈ seen
      · simp [AliasRecord.map, hs]
      · cases link <;> simp [AliasRecord.map, AliasLink.map, hs, ih]

theorem resolve_map (name : String) : (s.map f).resolve name = (s.resolve name).map f := by
  have hh : (s.map f).head? name = s.head? name := rfl
  have hsize : (s.map f).arena.size = s.arena.size := Array.size_map
  rw [resolve, resolve, hh, hsize]
  cases s.head? name with
  | none => rfl
  | some handle => exact s.follow_map f _ _ _

end AliasStore

end Records

namespace Aliases

open ReadGuard.Expr

def bareAlias (found : String × Expr) : String × Expr := (found.1, found.2.bare)

theorem root_bare (s : Aliases) (e : Expr) :
    Aliases.root (s.map bare) e.bare = (s.root e).map bareAlias := by
  cases e with
  | paren x info => exact root_bare s x
  | star x info => exact root_bare s x
  | selector x field info => exact root_bare s x
  | ident id =>
    have hb : (ident id).bare = ident id := rfl
    rw [hb, root, root, AliasStore.resolve_map, Option.map_map, Option.map_map]
    rfl
  | _ => rfl

theorem ofExpr_bare (s : Aliases) (e : Expr) :
    Aliases.ofExpr (s.map bare) e.bare = (s.ofExpr e).map bareAlias := by
  cases e with
  | paren x info =>
    have hx := ofExpr_bare s x
    exact hx
  | ident id => exact root_bare s (.ident id)
  | _ => rfl

section Assign

variable (p : Protection) (s : Aliases) (name : String)

theorem assign_ident (id : Ident) : (s.assign p name (some (.ident id))).1 =
    if s.isBound id.name then (s.copy name id.name).2 else s.forget name := by
  simp only [assign, Option.map_some, unparen]
  split <;> rfl

theorem assign_unary (op : String) (x : Expr) (info : Info) :
    (s.assign p name (some (.unary op x info))).1 =
      (p.addressed (.unary op x info)).elim (s.forget name) (s.record name) := by
  simp only [assign, Option.map_some, unparen]
  cases p.addressed (.unary op x info) <;> rfl

end Assign

theorem assign_bare {p : Protection} {e : Expr} (h : e.ParensTyped) (s : Aliases) (name : String) :
    (Aliases.assign p (s.map bare) name (some e.bare)).1 =
      (s.assign p name (some e)).1.map bare := by
  cases e with
  | paren x info =>
    have hx := assign_bare (p := p) h.inside s name
    exact hx
  | ident id =>
    have hb : (ident id).bare = ident id := rfl
    rw [hb, assign_ident, assign_ident, AliasStore.isBound_map, AliasStore.copy_map]
    split <;> rfl
  | unary op x info =>
    have haddr := Protection.addressed_bare (p := p) h
    have hb : (unary op x info).bare = unary op x.bare info := rfl
    have hu : (unary op x info).unparen = unary op x info := rfl
    rw [hb, hu] at haddr
    rw [hb, assign_unary, assign_unary, haddr]
    cases p.addressed (unary op x info) with
    | none => rfl
    | some field => exact s.bind_map bare name (.field field)
  | _ => rfl

end Aliases

namespace WriteTarget

open ReadGuard.Expr

theorem classify_bare {p : Protection} {e : Expr} (h : e.ParensTyped) (s : Aliases) :
    (classify p (s.map bare) e.bare).map (fun t => (t.kind, t.field)) =
      (classify p s e).map fun t => (t.kind, t.field.bare) := by
  cases e with
  | paren x info =>
    have hx := classify_bare (p := p) h.inside s
    exact hx
  | index x i info =>
    have hx : x.ParensTyped := h.part List.mem_cons_self
    change (ofIndex p (s.map bare) (.index x.bare i.bare info) x.bare).map _ =
      (ofIndex p s (.index x i info) x).map _
    rw [ofIndex, ofIndex, Protection.fieldRoot_bare hx, Aliases.root_bare]
    cases p.fieldRoot x with
    | some field => rfl
    | none => cases s.root x <;> rfl
  | star x info =>
    have hx : x.ParensTyped := h.part List.mem_cons_self
    change (ofStar p (s.map bare) (.star x.bare info) x.bare).map _ =
      (ofStar p s (.star x info) x).map _
    rw [ofStar, ofStar, unparen_bare, Protection.addressed_bare hx, Aliases.ofExpr_bare]
    cases p.addressed x.unparen with
    | some field => rfl
    | none => cases s.ofExpr x <;> rfl
  | selector x field info =>
    have hb : (selector x field info).bare = selector x.bare field info := rfl
    have hroot := Protection.fieldRoot_bare (p := p) h
    rw [hb] at hroot
    change (ofSelector p (s.map bare) (.selector x.bare field info) x.bare).map _ =
      (ofSelector p s (.selector x field info) x).map _
    rw [ofSelector, ofSelector, hroot, Aliases.root_bare]
    cases p.fieldRoot (.selector x field info) with
    | some field => rfl
    | none => cases s.root x <;> rfl
  | _ => rfl

end WriteTarget

namespace Aliases

/-- Parentheses make no difference, wherever they stand: the same field is found in a path, a write
is of the same kind and to the same field, and an assignment leaves the same names bound to the same
fields. -/
theorem parens_transparent (p : Protection) (s : Aliases) (e e' : Expr)
    (he : e.bare = e'.bare) (h : e.ParensTyped) (h' : e'.ParensTyped) :
    (p.fieldRoot e).map Expr.bare = (p.fieldRoot e').map Expr.bare ∧
    ((WriteTarget.classify p s e).map fun t => (t.kind, t.field.bare)) =
      ((WriteTarget.classify p s e').map fun t => (t.kind, t.field.bare)) ∧
    ∀ name other,
      (s.assign p name (some e)).1.isBound other = (s.assign p name (some e')).1.isBound other ∧
      ((s.assign p name (some e)).1.resolve other).map Expr.bare =
        ((s.assign p name (some e')).1.resolve other).map Expr.bare := by
  refine ⟨?_, ?_, fun name other => ?_⟩
  · rw [← Protection.fieldRoot_bare h, ← Protection.fieldRoot_bare h', he]
  · rw [← WriteTarget.classify_bare h, ← WriteTarget.classify_bare h', he]
  · have hs : (s.assign p name (some e)).1.map Expr.bare =
        (s.assign p name (some e')).1.map Expr.bare := by
      rw [← assign_bare h, ← assign_bare h', he]
    constructor
    · rw [← AliasStore.isBound_map Expr.bare, hs, AliasStore.isBound_map]
    · rw [← AliasStore.resolve_map, ← AliasStore.resolve_map, hs]

section Row

def dataInfo : Info := { type := some (.pointer (.named "data" "BigStruct")) }

def gridInfo : Info := { type := some (.array 3 (.array 3 (.basic "int"))) }

def rowInfo : Info := { type := some (.array 3 (.basic "int")) }

def row : Expr :=
  .unary "&" (.index (.selector (.ident { name := "d", info := dataInfo }) "grid" gridInfo)
    (.lit "INT" "1" {}) rowInfo) {}

def wrappedRow : Expr :=
  .unary "&" (.paren (.index (.paren (.selector
    (.paren (.ident { name := "d", info := dataInfo }) dataInfo) "grid" gridInfo) gridInfo)
      (.lit "INT" "1" {}) rowInfo) rowInfo) {}

def holding (value : Expr) : Aliases :=
  (assign ⟨"data", "BigStruct"⟩ {} "q" (some value)).1

theorem parens_transparent_row :
    row.bare = wrappedRow.bare ∧ row.ParensTyped ∧ wrappedRow.ParensTyped ∧
    (holding row).isBound "q" = true ∧
    ((holding row).resolve "q").map Expr.bare =
      ((holding wrappedRow).resolve "q").map Expr.bare := by
  have h : row.ParensTyped := by
    intro x info hm
    simp [row, Node.walk_eq, Node.children, Node.ofExpr] at hm
  have h' : wrappedRow.ParensTyped := by
    intro x info hm
    simp [wrappedRow, Node.walk_eq, Node.children, Node.ofExpr] at hm
    obtain ⟨rfl, rfl⟩ | ⟨rfl, rfl⟩ | ⟨rfl, rfl⟩ := hm <;> rfl
  obtain ⟨-, -, hassign⟩ := parens_transparent ⟨"data", "BigStruct"⟩ {} row wrappedRow rfl h h'
  exact ⟨rfl, h, h', by decide, (hassign "q" "q").2⟩

end Row

end Aliases

end ReadGuard
