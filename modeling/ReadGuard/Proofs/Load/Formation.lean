import ReadGuard.Proofs.Load.Origin

namespace ReadGuard

namespace Load

open Node Relation

/-- A step of loading that gives nodes of the form `x`. -/
def Loads {α : Type} (file : String) (W : String → Prop) (x : Sexp) (m : Load α)
    (node : α → Node) : Prop :=
  Gives (InFile file) m fun r => ComesFrom file W (some x, node r)

/-- Whatever is loaded from the expression comes from what it has. -/
structure Traceable (file : String) (W : String → Prop) (y : Sexp) : Prop where
  texts : ∀ w ∈ y.texts, W w
  expr : Loads file W y (formOf y).expr .expr
  stmt : Loads file W y (formOf y).stmt .stmt
  block : Loads file W y (formOf y).block fun b => .stmt (.block b)
  clause : Loads file W y (formOf y).clause fun c => .stmt (.clause c)
  func : Loads file W y (formOf y).func .func
  param : Loads file W y (Load.param (formOf y).raw) .param
  params : Gives (InFile file) (Load.params (formOf y).raw) fun ps =>
    PartsFrom file W (itemsOf y) (ps.map .param)

theorem Traceable.text {file : String} {W : String → Prop} {y : Sexp} (h : Traceable file W y) :
    Gives (InFile file) (Load.text (formOf y).raw) W := by
  rw [raw_formOf]
  exact text_gives h.texts

structure Inside (file : String) (W : String → Prop) (x : Sexp) (a : Args Sexp) : Prop where
  args : ∃ head xs, x = .list (head :: xs) ∧ tail? xs = some a
  items : ∀ y ∈ a.items, Traceable file W y
  named : ∀ key y, a.get? key = some y → Traceable file W y
  empty : W ""
  define : W ":="

theorem forall₂_mapM_gives {α : Type} {I : State → Prop} {R : Sexp → α → Prop}
    {load : Form → Load α} {ys : List Sexp} (hl : ∀ y ∈ ys, Gives I (load (formOf y)) (R y)) :
    Gives I ((ys.map formOf).mapM load) fun rs => List.Forall₂ R ys rs := by
  induction ys with
  | nil => exact .pure .nil
  | cons y ys ih =>
    obtain ⟨hy, hys⟩ := List.forall_mem_cons.1 hl
    rw [List.map_cons, List.mapM_cons]
    exact hy.bind fun r hr => (ih hys).bind fun rs hrs => .pure (.cons hr hrs)

theorem mapM_gives {α : Type} {file : String} {W : String → Prop} {ys : List Sexp}
    (hys : ∀ y ∈ ys, Traceable file W y) {load : Form → Load α} {node : α → Node}
    (hl : ∀ {y}, Traceable file W y → Loads file W y (load (formOf y)) node) :
    Gives (InFile file) ((ys.map formOf).mapM load) fun rs =>
      PartsFrom file W ys (rs.map node) :=
  (forall₂_mapM_gives fun y hy => hl (hys y hy)).imp fun _ hr => List.forall₂_map_right_iff.2 hr

theorem splitAssign_forms {file : String} {W : String → Prop} {ys : List Sexp}
    (hys : ∀ y ∈ ys, Traceable file W y) {left right : List Form} {op : String}
    (h : splitAssign (ys.map formOf) = some (left, op, right)) :
    ∃ ls rs, left = ls.map formOf ∧ right = rs.map formOf ∧ W op ∧
      (ys.filter fun y => (string? y).isNone) = ls ++ rs ∧
      (∀ y ∈ ls, Traceable file W y) ∧ ∀ y ∈ rs, Traceable file W y := by
  induction ys generalizing left with
  | nil => cases h
  | cons y ys ih =>
    obtain ⟨hy, hys⟩ := List.forall_mem_cons.1 hys
    rw [List.map_cons, splitAssign, raw_formOf] at h
    cases hs : string? y with
    | some text =>
      simp only [hs] at h
      split at h
      · cases h
      · rename_i hany
        cases h
        have hnone : ∀ z ∈ ys, (string? z).isNone = true := by
          simpa [raw_formOf] using hany
        refine ⟨[], ys, rfl, rfl, ?_, ?_, by simp, hys⟩
        · cases y with
          | str s => cases hs; exact hy.texts _ (List.mem_singleton_self _)
          | _ => cases hs
        · rw [List.filter_cons, hs, if_neg (by simp), List.filter_eq_self.2 hnone]
          rfl
    | none =>
      simp only [hs] at h
      obtain ⟨⟨left', op', right'⟩, hsplit, he⟩ := Option.map_eq_some_iff.1 h
      cases he
      obtain ⟨ls, rs, rfl, rfl, hop, hfilter, hls, hrs⟩ := ih hys hsplit
      refine ⟨y :: ls, rs, rfl, rfl, hop, ?_, List.forall_mem_cons.2 ⟨hy, hls⟩, hrs⟩
      simp [hs, hfilter]

theorem head?_formOf (y : Sexp) : (formOf y).head? = y.head? := by
  rw [Form.head?, raw_formOf]

theorem paramsForm_cons (y : Sexp) (ys : List Sexp) :
    paramsForm (y :: ys) =
      if y.head? = some "params" then some ((paramsForm ys).getD y) else paramsForm ys := by
  unfold paramsForm
  rw [List.filter_cons]
  by_cases hy : y.head? = some "params"
  · simp [hy, List.getLast?_cons]
  · simp [hy]

theorem bodyForm_cons (y : Sexp) (ys : List Sexp) :
    bodyForm (y :: ys) =
      if y.head? = some "params" then bodyForm ys else some ((bodyForm ys).getD y) := by
  unfold bodyForm
  rw [List.filter_cons]
  by_cases hy : y.head? = some "params"
  · simp [hy]
  · simp [hy, List.getLast?_cons]

theorem funcParts_gives {file : String} {W : String → Prop} {ys : List Sexp}
    (hys : ∀ y ∈ ys, Traceable file W y) (ps : List Param) (body : Block) (forms : List Sexp)
    (form : Option Sexp) (hps : PartsFrom file W forms (ps.map .param))
    (hbody : ComesFrom file W (form, .stmt (.block body))) :
    Gives (InFile file) (funcParts (ys.map formOf) ps body) fun r =>
      PartsFrom file W ((paramsForm ys).elim forms itemsOf) (r.1.map .param) ∧
        ComesFrom file W ((bodyForm ys).or form, .stmt (.block r.2)) := by
  induction ys generalizing ps body forms form with
  | nil => exact .pure ⟨hps, hbody⟩
  | cons y ys ih =>
    obtain ⟨hy, hys⟩ := List.forall_mem_cons.1 hys
    rw [List.map_cons, funcParts, paramsForm_cons, bodyForm_cons, head?_formOf]
    by_cases hh : y.head? = some "params"
    · rw [if_pos hh, if_pos hh, if_pos hh]
      refine hy.params.bind fun ps' hps' =>
        (ih hys ps' body _ form hps' hbody).imp fun r hr => ⟨?_, hr.2⟩
      cases hp : paramsForm ys <;> rw [hp] at hr <;> exact hr.1
    · rw [if_neg hh, if_neg hh, if_neg hh]
      refine hy.block.bind fun body' hbody' =>
        (ih hys ps body' forms _ hps hbody').imp fun r hr => ⟨hr.1, ?_⟩
      cases hb : bodyForm ys <;> rw [hb] at hr <;> exact hr.2

theorem declaredParts_gives {file : String} {W : String → Prop} {ys : List Sexp}
    (hys : ∀ y ∈ ys, Traceable file W y) {name : String} {keys : Keys} (ps : List Param)
    (body : Option Block) (forms : List Sexp) (form : Option Sexp)
    (hps : PartsFrom file W forms (ps.map .param))
    (hbody : PartsFrom file W form.toList (body.toList.map fun b => .stmt (.block b))) :
    Gives (InFile file) (declaredParts name keys (ys.map formOf) ps body) fun r =>
      PartsFrom file W ((paramsForm ys).elim forms itemsOf) (r.1.map .param) ∧
        PartsFrom file W ((bodyForm ys).or form).toList
          (r.2.toList.map fun b => .stmt (.block b)) := by
  induction ys generalizing ps body forms form with
  | nil => exact .pure ⟨hps, hbody⟩
  | cons y ys ih =>
    obtain ⟨hy, hys⟩ := List.forall_mem_cons.1 hys
    rw [List.map_cons, declaredParts, paramsForm_cons, bodyForm_cons, head?_formOf]
    by_cases hh : y.head? = some "params"
    · rw [if_pos hh, if_pos hh, if_pos hh]
      refine hy.params.bind fun ps' hps' =>
        (ih hys ps' body _ form hps' hbody).imp fun r hr => ⟨?_, hr.2⟩
      cases hp : paramsForm ys <;> rw [hp] at hr <;> exact hr.1
    · rw [if_neg hh, if_neg hh, if_neg hh]
      split
      · refine hy.block.bind fun body' hbody' =>
          (ih hys ps (some body') forms (some y) hps (.cons hbody' .nil)).imp fun r hr => ⟨hr.1, ?_⟩
        cases hb : bodyForm ys <;> rw [hb] at hr <;> exact hr.2
      · exact .failAt _ _

theorem clauseParts_gives {file : String} {W : String → Prop} {ys : List Sexp}
    (hys : ∀ y ∈ ys, Traceable file W y) (a : FormArgs) (es ss : List Sexp) (exprs : List Expr)
    (body : List Stmt)
    (he : PartsFrom file W es (Node.exprs exprs)) (hs : PartsFrom file W ss (Node.stmts body)) :
    Gives (InFile file) (clauseParts a (ys.map formOf) exprs body) fun r =>
      PartsFrom file W (es ++ ss ++ ys) (Node.exprs r.1 ++ Node.stmts r.2) := by
  induction ys generalizing es ss exprs body with
  | nil =>
    rw [List.append_nil]
    exact .pure (he.append hs)
  | cons y ys ih =>
    obtain ⟨hy, hys⟩ := List.forall_mem_cons.1 hys
    rw [List.map_cons, clauseParts]
    split
    · split
      · rename_i hempty
        -- an expression comes before all statements
        obtain rfl : body = [] := List.isEmpty_iff.1 hempty
        cases hs
        refine hy.expr.bind fun e hexpr => ?_
        have hnext := ih hys (es ++ [y]) [] (exprs ++ [e]) []
          (by simpa [Node.exprs] using he.append (.cons hexpr .nil)) .nil
        simpa using hnext
      · exact .failAt _ _
    · refine hy.stmt.bind fun s hstmt => ?_
      have hnext := ih hys es (ss ++ [y]) exprs (body ++ [s]) he
        (by simpa [Node.stmts] using hs.append (.cons hstmt .nil))
      simpa using hnext

theorem map_pos_exprs (es : List Expr) : es.map (·.pos) = (Node.exprs es).map Node.pos := by
  rw [Node.exprs, List.map_map]
  rfl

theorem map_pos_stmts (ss : List Stmt) : ss.map (·.pos) = (Node.stmts ss).map Node.pos := by
  rw [Node.stmts, List.map_map]
  rfl

theorem map_pos_clauses (cs : List Clause) :
    cs.map (·.pos) = (Node.stmts (cs.map .clause)).map Node.pos := by
  rw [Node.stmts, List.map_map, List.map_map]
  rfl

theorem map_pos_append {ps qs : List Position} {ns ms : List Node} (hn : ps = ns.map Node.pos)
    (hm : qs = ms.map Node.pos) : ps ++ qs = (ns ++ ms).map Node.pos := by
  rw [List.map_append, hn, hm]

theorem two_words {W : String → Prop} {v w : String} (hv : W v) (hw : W w) :
    ∀ u ∈ [v, w], W u :=
  List.forall_mem_cons.2 ⟨hv, List.forall_mem_singleton.2 hw⟩

/-- Of a node without a type nothing is asked. -/
theorem untyped {P : Ty → Prop} : ∀ t ∈ (none : Option Ty), P t := nofun

namespace Inside

variable {file : String} {W : String → Prop} {x : Sexp} {a : Args Sexp}

theorem keys_map (a : Args Sexp) : FormArgs.keys (a.map formOf) = a.get? := by
  funext key
  unfold FormArgs.keys
  rw [Args.get?_map, Option.map_map]
  simp [Function.comp_def, raw_formOf]

theorem position (a : Args Sexp) (fallback : List Position) :
    Gives (InFile file) (Load.position (FormArgs.keys (a.map formOf)) fallback)
      (PlacedBy file (a.get? "at") fallback) := by
  rw [keys_map]
  exact position_gives a.get? fallback

theorem info (a : Args Sexp) (fallback : List Position) :
    Gives (InFile file) (Load.info (FormArgs.keys (a.map formOf)) fallback) fun i =>
      (∀ t ∈ i.type, t.Everywhere Ty.Proper) ∧ PlacedBy file (a.get? "at") fallback i.pos := by
  rw [keys_map]
  exact info_gives a.get? fallback

variable (h : Inside file W x a)
include h

theorem args_expr (e : Expr) : (Node.expr e).args? x = some a := by
  obtain ⟨head, xs, rfl, ha⟩ := h.args
  exact ha

theorem args_stmt (s : Stmt) : (Node.stmt s).args? x = some a := by
  obtain ⟨head, xs, rfl, ha⟩ := h.args
  exact ha

theorem args_func (f : FuncDecl) : (Node.func f).args? x = some a := by
  obtain ⟨head, xs, rfl, ha⟩ := h.args
  exact ha

theorem exprs : Gives (InFile file) ((a.map formOf).items.mapM (·.expr)) fun es =>
    PartsFrom file W a.items (Node.exprs es) :=
  mapM_gives h.items Traceable.expr

theorem one (form : String) {α : Type} {k : Form → Load α} {P : α → Prop}
    (hk : ∀ y, a.items = [y] → Traceable file W y → Gives (InFile file) (k (formOf y)) P) :
    Gives (InFile file) (FormArgs.one (a.map formOf) form >>= k) P := by
  have hitems := h.items
  unfold FormArgs.one Args.map
  match hi : a.items with
  | [y] => exact hk y hi (hitems y (by simp [hi]))
  | [] => exact .of_fail fun _ => rfl
  | _ :: _ :: _ => exact .of_fail fun _ => rfl

theorem two (form : String) {α : Type} {k : Form × Form → Load α} {P : α → Prop}
    (hk : ∀ y z, a.items = [y, z] → Traceable file W y → Traceable file W z →
      Gives (InFile file) (k (formOf y, formOf z)) P) :
    Gives (InFile file) (FormArgs.two (a.map formOf) form >>= k) P := by
  have hitems := h.items
  unfold FormArgs.two Args.map
  match hi : a.items with
  | [y, z] => exact hk y z hi (hitems y (by simp [hi])) (hitems z (by simp [hi]))
  | [] => exact .of_fail fun _ => rfl
  | [_] => exact .of_fail fun _ => rfl
  | _ :: _ :: _ :: _ => exact .of_fail fun _ => rfl

theorem three (form : String) {α : Type} {k : Form × Form × Form → Load α} {P : α → Prop}
    (hk : ∀ y z w, a.items = [y, z, w] → Traceable file W y → Traceable file W z →
      Traceable file W w → Gives (InFile file) (k (formOf y, formOf z, formOf w)) P) :
    Gives (InFile file) (FormArgs.three (a.map formOf) form >>= k) P := by
  have hitems := h.items
  unfold FormArgs.three Args.map
  match hi : a.items with
  | [y, z, w] =>
    exact hk y z w hi (hitems y (by simp [hi])) (hitems z (by simp [hi])) (hitems w (by simp [hi]))
  | [] => exact .of_fail fun _ => rfl
  | [_] => exact .of_fail fun _ => rfl
  | [_, _] => exact .of_fail fun _ => rfl
  | _ :: _ :: _ :: _ :: _ => exact .of_fail fun _ => rfl

theorem textOr {key default : String} (hd : W default) :
    Gives (InFile file) (Load.textOr (FormArgs.keys (a.map formOf)) key default) W := by
  rw [keys_map]
  exact textOr_gives hd fun y hy => (h.named key y hy).texts

theorem optional {α : Type} (key : String) {load : Form → Load α} {node : α → Node}
    (hl : ∀ {y}, Traceable file W y → Loads file W y (load (formOf y)) node) :
    Gives (InFile file) (FormArgs.optional (a.map formOf) key load) fun r =>
      PartsFrom file W (a.get? key).toList (r.toList.map node) := by
  unfold FormArgs.optional
  rw [Args.get?_map]
  cases hk : a.get? key with
  | none => exact .pure .nil
  | some y => exact (hl (h.named key y hk)).map fun r hr => .cons hr .nil

theorem lit : Loads file W x (Load.lit (a.map formOf)) .expr :=
  h.two _ fun _ _ _ hk hv => hk.text.bind fun _ hkind => hv.text.bind fun _ hvalue =>
    (info a []).bind fun _ hi => .pure <| Formed.comesFrom_forms
      ⟨h.args_expr _, hi.2, two_words hkind hvalue, hi.1⟩ rfl .nil

theorem composite : Loads file W x (Load.composite (a.map formOf)) .expr :=
  h.exprs.bind fun elems he => (info a _).bind fun _ hi => .pure <| Formed.comesFrom_forms
    ⟨h.args_expr _, hi.2.of_eq (map_pos_exprs elems), List.forall_mem_nil _, hi.1⟩ rfl he

theorem keyValue : Loads file W x (Load.keyValue (a.map formOf)) .expr :=
  h.two _ fun _ _ hitems hk hv => hk.expr.bind fun _ hkey => hv.expr.bind fun _ hvalue =>
    (info a _).bind fun _ hi => .pure <| Formed.comesFrom_forms
      ⟨h.args_expr _, hi.2.first, List.forall_mem_nil _, hi.1⟩
      (congrArg (List.map some) hitems) (.cons hkey (.cons hvalue .nil))

theorem ident : Loads file W x (Load.ident (a.map formOf)) .expr :=
  h.one _ fun _ _ hy => (objectOf_gives _).bind fun _ _ => hy.text.bind fun _ hname =>
    (typeOf_gives _).bind fun _ ht => (h.textOr h.empty).bind fun _ hpackage =>
      (position a []).bind fun _ hpos => .pure <| Formed.comesFrom_forms
        ⟨h.args_expr _, hpos, two_words hname hpackage, ht⟩ rfl .nil

theorem paren : Loads file W x (Load.paren (a.map formOf)) .expr :=
  h.one _ fun y hitems hy => hy.expr.bind fun e he => (info a _).bind fun i hi => by
    refine .pure (Formed.comesFrom_forms
      ⟨h.args_expr _, hi.2.first, List.forall_mem_nil _,
        fun t ht => ?_⟩ (congrArg (List.map some) hitems) (.cons he .nil))
    have ht' : (i.type <|> e.type) = some t := ht
    cases hown : i.type with
    | some own =>
      rw [hown] at ht'
      exact hi.1 t (hown.trans ht')
    | none =>
      rw [hown] at ht'
      exact he.types t ht'

theorem selector : Loads file W x (Load.selector (a.map formOf)) .expr :=
  h.two _ fun _ _ hitems hy hz => hy.expr.bind fun _ he => hz.text.bind fun _ hfield =>
    (info a _).bind fun _ hi => .pure <| Formed.comesFrom_forms
      ⟨h.args_expr _, hi.2.first, List.forall_mem_singleton.2 hfield, hi.1⟩
      (congrArg (fun ys => (ys.take 1).map some) hitems) (.cons he .nil)

theorem index : Loads file W x (Load.index (a.map formOf)) .expr :=
  h.two _ fun _ _ hitems hy hz => hy.expr.bind fun _ he => hz.expr.bind fun _ hi =>
    (info a _).bind fun _ hown => .pure <| Formed.comesFrom_forms
      ⟨h.args_expr _, hown.2.first, List.forall_mem_nil _, hown.1⟩
      (congrArg (List.map some) hitems) (.cons he (.cons hi .nil))

theorem star : Loads file W x (Load.star (a.map formOf)) .expr :=
  h.one _ fun _ hitems hy => hy.expr.bind fun _ he => (info a _).bind fun _ hi =>
    .pure <| Formed.comesFrom_forms
      ⟨h.args_expr _, hi.2.first, List.forall_mem_nil _, hi.1⟩
      (congrArg (List.map some) hitems) (.cons he .nil)

theorem unary : Loads file W x (Load.unary (a.map formOf)) .expr :=
  h.two _ fun _ _ hitems hy hz => hz.expr.bind fun _ he => hy.text.bind fun _ hop =>
    (info a _).bind fun _ hi => .pure <| Formed.comesFrom_forms
      ⟨h.args_expr _, hi.2.first, List.forall_mem_singleton.2 hop, hi.1⟩
      (congrArg (fun ys => (ys.drop 1).map some) hitems) (.cons he .nil)

theorem binary : Loads file W x (Load.binary (a.map formOf)) .expr :=
  h.three _ fun _ _ _ hitems hy hz hw => hz.expr.bind fun _ he => hw.expr.bind fun _ he' =>
    hy.text.bind fun _ hop => (info a _).bind fun _ hi => .pure <| Formed.comesFrom_forms
      ⟨h.args_expr _, hi.2.first, List.forall_mem_singleton.2 hop, hi.1⟩
      (congrArg (fun ys => (ys.drop 1).map some) hitems) (.cons he (.cons he' .nil))

theorem call : Loads file W x (Load.call (a.map formOf)) .expr := by
  have htrace := h.items
  unfold Load.call
  match hitems : a.items with
  | [] =>
    simp only [Args.map, hitems]
    exact .failAt _ _
  | fn :: args =>
    rw [hitems] at htrace
    obtain ⟨hfn, hargs⟩ := List.forall_mem_cons.1 htrace
    simp only [Args.map, hitems, List.map_cons]
    exact hfn.expr.bind fun e he => (mapM_gives hargs Traceable.expr).bind fun es hes =>
      (info a _).bind fun i hi => .pure <| Formed.comesFrom_forms
        ⟨h.args_expr _, hi.2.first, List.forall_mem_nil _, hi.1⟩
        (congrArg (List.map some) hitems) (.cons he hes)

theorem exprStmt : Loads file W x (Load.exprStmt (a.map formOf)) .stmt :=
  h.one _ fun _ hitems hy => hy.expr.bind fun _ he => (position a _).bind fun _ hpos =>
    .pure <| Formed.comesFrom_forms
      ⟨h.args_stmt _, hpos.first, List.forall_mem_nil _, untyped⟩
      (congrArg (List.map some) hitems) (.cons he .nil)

theorem incDec : Loads file W x (Load.incDec (a.map formOf)) .stmt :=
  h.two _ fun y z hitems hy hz => hz.text.bind fun op hop => by
    by_cases hbad : op ≠ "++" ∧ op ≠ "--"
    · rw [if_pos hbad]
      exact .failAt_bind _ _ _
    · rw [if_neg hbad]
      exact hy.expr.bind fun e he => (position a _).bind fun pos hpos =>
        .pure <| Formed.comesFrom_forms
          ⟨h.args_stmt _, hpos.first, List.forall_mem_singleton.2 hop, untyped⟩
          (congrArg (fun ys => (ys.take 1).map some) hitems) (.cons he .nil)

theorem ret : Loads file W x (Load.ret (a.map formOf)) .stmt :=
  h.exprs.bind fun es hes => (position a _).bind fun _ hpos => .pure <| Formed.comesFrom_forms
    ⟨h.args_stmt _, hpos.of_eq (map_pos_exprs es), List.forall_mem_nil _, untyped⟩ rfl hes

theorem block : Loads file W x (Load.block (a.map formOf)) fun b => .stmt (.block b) :=
  (mapM_gives h.items Traceable.stmt).bind fun ss hss => (position a _).bind fun _ hpos =>
    .pure <| Formed.comesFrom_forms
      ⟨h.args_stmt _, hpos.of_eq (map_pos_stmts ss), List.forall_mem_nil _, untyped⟩ rfl hss

theorem comesFrom_cond {y z : Sexp} {rest : List Sexp} {test : Expr} {body : Block}
    {other init : Option Stmt} {pos : Position} (hitems : a.items = y :: z :: rest)
    (ht : ComesFrom file W (some y, .expr test))
    (hb : ComesFrom file W (some z, .stmt (.block body)))
    (ho : PartsFrom file W rest (stmt? other))
    (hi : PartsFrom file W (a.get? "init").toList (stmt? init))
    (hpos : PlacedBy file (a.get? "at") (init.toList.map (·.pos) ++ [test.pos]) pos) :
    ComesFrom file W (some x, .stmt (.cond test body other init pos)) := by
  have hplace : PlacedBy file (a.get? "at")
      ((Node.stmt (.cond test body other init pos)).children.map Node.pos) pos :=
    (hpos.after fun _ hq => hq).of_eq (map_pos_append (map_pos_stmts init.toList) rfl)
  exact Formed.comesFrom_forms ⟨h.args_stmt _, hplace, List.forall_mem_nil _, untyped⟩
    (by rw [partForms, hitems]) (hi.append (.cons ht (.cons hb ho)))

theorem cond : Loads file W x (Load.cond (a.map formOf)) .stmt := by
  have htrace := h.items
  unfold Load.cond
  match hitems : a.items with
  | [y, z] =>
    obtain ⟨hy, hz⟩ : Traceable file W y ∧ Traceable file W z := by simpa [hitems] using htrace
    simp only [Args.map, hitems, List.map_cons, List.map_nil, pure_bind]
    exact hy.expr.bind fun test ht => hz.block.bind fun body hb => (Gives.pure rfl).bind
      fun other ho => (h.optional "init" Traceable.stmt).bind fun init hi =>
        (position a _).bind fun pos hpos =>
          .pure (h.comesFrom_cond hitems ht hb (ho ▸ .nil) hi hpos)
  | [y, z, w] =>
    obtain ⟨hy, hz, hw⟩ : Traceable file W y ∧ Traceable file W z ∧ Traceable file W w := by
      simpa [hitems] using htrace
    simp only [Args.map, hitems, List.map_cons, List.map_nil, pure_bind, Option.mapM_some]
    exact hy.expr.bind fun test ht => hz.block.bind fun body hb =>
      (hw.stmt.map fun s hs => .cons hs .nil).bind
        fun other (ho : PartsFrom file W [w] (stmt? other)) =>
          (h.optional "init" Traceable.stmt).bind fun init hi => (position a _).bind fun pos hpos =>
            .pure (h.comesFrom_cond hitems ht hb ho hi hpos)
  | [] =>
    simp only [Args.map, hitems]
    exact .failAt_bind _ _ _
  | [_] =>
    simp only [Args.map, hitems, List.map_cons, List.map_nil]
    exact .failAt_bind _ _ _
  | _ :: _ :: _ :: _ :: _ =>
    simp only [Args.map, hitems, List.map_cons]
    exact .failAt_bind _ _ _

theorem loop : Loads file W x (Load.loop (a.map formOf)) .stmt :=
  h.one _ fun y hitems hy => hy.block.bind fun body hb =>
    (h.optional "init" Traceable.stmt).bind fun init hi =>
    (h.optional "cond" Traceable.expr).bind fun test ht =>
    (h.optional "post" Traceable.stmt).bind fun post hp =>
    (position a _).bind fun pos hpos => .pure <| Formed.comesFrom_forms
      ⟨h.args_stmt _, (hpos.after fun _ hq => List.mem_append_left _ hq).of_eq
          (map_pos_append (map_pos_append (map_pos_append (map_pos_stmts _) (map_pos_exprs _))
            (map_pos_stmts post.toList)) rfl),
        List.forall_mem_nil _, untyped⟩
      (by rw [partForms, hitems]) (((hi.append ht).append hp).append (.cons hb .nil))

theorem range : Loads file W x (Load.range (a.map formOf)) .stmt :=
  h.two _ fun y z hitems hy hz => hy.expr.bind fun e he => hz.block.bind fun body hb =>
    (h.optional "key" Traceable.expr).bind fun key hk =>
    (h.optional "value" Traceable.expr).bind fun value hv =>
    (h.textOr h.define).bind fun op hop =>
    (position a _).bind fun pos hpos => .pure <| Formed.comesFrom_forms
      ⟨h.args_stmt _, (hpos.after fun _ hq => List.mem_append_left _ hq).of_eq
          (map_pos_append (map_pos_append (map_pos_exprs _) (map_pos_exprs value.toList)) rfl),
        List.forall_mem_singleton.2 hop, untyped⟩
      (by rw [partForms, hitems]) ((hk.append hv).append (.cons he (.cons hb .nil)))

theorem switch : Loads file W x (Load.switch (a.map formOf)) .stmt :=
  (mapM_gives h.items Traceable.clause).bind fun clauses hc =>
    (h.optional "tag" Traceable.expr).bind fun tag ht =>
    (h.optional "init" Traceable.stmt).bind fun init hi =>
    (position a _).bind fun pos hpos => .pure <| Formed.comesFrom_forms
      ⟨h.args_stmt _, hpos.of_eq (map_pos_append (map_pos_append (map_pos_stmts _)
          (map_pos_exprs _)) (map_pos_clauses clauses)), List.forall_mem_nil _, untyped⟩ rfl
      ((hi.append ht).append (by rwa [Node.stmts, List.map_map]))

theorem defer : Loads file W x (Load.defer (a.map formOf)) .stmt :=
  h.one _ fun _ hitems hy => hy.expr.bind fun _ he => (position a _).bind fun _ hpos =>
    .pure <| Formed.comesFrom_forms
      ⟨h.args_stmt _, hpos.first, List.forall_mem_nil _, untyped⟩
      (congrArg (List.map some) hitems) (.cons he .nil)

theorem go : Loads file W x (Load.go (a.map formOf)) .stmt :=
  h.one _ fun _ hitems hy => hy.expr.bind fun _ he => (position a _).bind fun _ hpos =>
    .pure <| Formed.comesFrom_forms
      ⟨h.args_stmt _, hpos.first, List.forall_mem_nil _, untyped⟩
      (congrArg (List.map some) hitems) (.cons he .nil)

theorem funcLit : Loads file W x (Load.funcLit (a.map formOf)) .expr :=
  (funcParts_gives h.items [] _ [] none .nil comesFrom_noBody).bind fun r hr =>
    (info a _).bind fun i hi => by
      refine .pure (Formed.comesFrom ⟨h.args_expr _, ?_, List.forall_mem_nil _, hi.1⟩ ?_)
      · exact (PlacedBy.after (A := []) hi.2 (List.forall_mem_nil _)).of_eq (map_pos_append rfl rfl)
      · rw [Option.or_none] at hr
        exact List.rel_append hr.1.forms (.cons hr.2 .nil)

theorem assign : Loads file W x (Load.assign (a.map formOf)) .stmt := by
  unfold Load.assign
  cases hsplit : splitAssign (a.map formOf).items with
  | none => exact .failAt _ _
  | some parts =>
    obtain ⟨left, op, right⟩ := parts
    obtain ⟨ls, rs, rfl, rfl, hop, hforms, hls, hrs⟩ := splitAssign_forms h.items hsplit
    refine (mapM_gives hls Traceable.expr).bind fun es hes => (mapM_gives hrs Traceable.expr).bind
      fun es' hes' => ?_
    match es, es' with
    | e :: es, e' :: es' =>
      exact (position a _).bind fun pos hpos => .pure <| Formed.comesFrom_forms
        ⟨h.args_stmt _, hpos.first, List.forall_mem_singleton.2 hop, untyped⟩
        (congrArg (List.map some) hforms) (hes.append hes')
    | [], _ => exact .failAt _ _
    | _ :: _, [] => exact .failAt _ _

theorem declParts {type : Option Ty} (ht : ∀ t ∈ type, t.Everywhere Ty.Proper) {ys : List Sexp}
    (hys : ∀ y ∈ ys, Traceable file W y) (vs : List Sexp) (names : List Ident) (values : List Expr)
    (hn : ∀ id ∈ names, ComesFrom file W (some x, .expr (.ident id)))
    (hv : PartsFrom file W vs (Node.exprs values)) :
    Gives (InFile file) (Load.declParts (a.map formOf) type (ys.map formOf) names values) fun r =>
      (∀ id ∈ r.1, ComesFrom file W (some x, .expr (.ident id))) ∧
        PartsFrom file W (vs ++ ys.filter Load.isList) (Node.exprs r.2) := by
  induction ys generalizing vs names values with
  | nil => exact .pure ⟨hn, by simpa using hv⟩
  | cons y ys ih =>
    obtain ⟨hy, hys⟩ := List.forall_mem_cons.1 hys
    rw [List.map_cons, Load.declParts, raw_formOf, List.filter_cons]
    by_cases hl : Load.isList y = true
    · rw [if_pos hl, if_pos hl]
      refine hy.expr.bind fun e he => ?_
      have hnext := ih hys (vs ++ [y]) names (values ++ [e]) hn
        (by simpa [Node.exprs] using hv.append (.cons he .nil))
      simpa using hnext
    · rw [if_neg hl, if_neg hl]
      split
      · refine (text_gives hy.texts).bind fun name hname => (position a _).bind fun pos hpos => ?_
        refine ih hys vs _ values (fun id hid => ?_) hv
        obtain hid | hid := List.mem_append.1 hid
        · exact hn id hid
        · cases List.mem_singleton.1 hid
          exact Formed.comesFrom_forms
            ⟨h.args_expr _, hpos, two_words hname h.empty, ht⟩ rfl .nil
      · exact .failAt _ _

theorem decl : Loads file W x (Load.decl (a.map formOf)) .stmt :=
  (typeOf_gives _).bind fun type ht =>
    (h.declParts ht h.items [] [] [] (by simp) .nil).bind fun (names, values) hparts => by
      cases hempty : names.isEmpty <;> simp only [hempty]
      · refine (position a _).bind fun pos hpos => .pure (Formed.comesFrom
          ⟨h.args_stmt _, ?_, List.forall_mem_nil _, ht⟩ ?_)
        · exact (hpos.mono fun _ hq => List.mem_append_right _ hq).of_eq
            (map_pos_append rfl (map_pos_exprs values))
        · refine List.rel_append ?_ hparts.2.forms
          rw [List.forall₂_map_left_iff, Node.exprs, List.map_map, List.forall₂_map_right_iff,
            List.forall₂_same]
          exact hparts.1
      · exact .failAt_bind _ _ _

theorem clause : Loads file W x (Load.clause (a.map formOf)) fun c => .stmt (.clause c) :=
  (clauseParts_gives h.items _ [] [] [] [] .nil .nil).bind fun r hr =>
    (position a _).bind fun _ hpos => .pure <| Formed.comesFrom_forms
      ⟨h.args_stmt _, hpos.of_eq (map_pos_append (map_pos_exprs r.1) (map_pos_stmts r.2)),
        List.forall_mem_nil _, untyped⟩ rfl hr

theorem branch : Loads file W x (Load.branch (a.map formOf)) .stmt := by
  have htrace := h.items
  have hdone {keyword label : String} {pos : Position} (hk : W keyword) (hl : W label)
      (hpos : PlacedBy file (a.get? "at") [] pos) :
      ComesFrom file W (some x, .stmt (.branch keyword label pos)) :=
    Formed.comesFrom_forms
      ⟨h.args_stmt _, hpos, two_words hk hl, untyped⟩ rfl .nil
  unfold Load.branch
  match hitems : a.items with
  | [y] =>
    have hy : Traceable file W y := by simpa [hitems] using htrace
    simp only [Args.map, hitems, List.map_cons, List.map_nil, pure_bind]
    exact hy.text.bind fun keyword hk => (position a _).bind fun pos hpos =>
      .pure (hdone hk h.empty hpos)
  | [y, z] =>
    obtain ⟨hy, hz⟩ : Traceable file W y ∧ Traceable file W z := by simpa [hitems] using htrace
    simp only [Args.map, hitems, List.map_cons, List.map_nil, pure_bind]
    exact hz.text.bind fun label hl => hy.text.bind fun keyword hk =>
      (position a _).bind fun pos hpos => .pure (hdone hk hl hpos)
  | [] =>
    simp only [Args.map, hitems]
    exact .failAt_bind _ _ _
  | _ :: _ :: _ :: _ =>
    simp only [Args.map, hitems, List.map_cons]
    exact .failAt_bind _ _ _

theorem func : Loads file W x (Load.func (a.map formOf)) .func := by
  have htrace := h.items
  unfold Load.func
  match hitems : a.items with
  | [] =>
    simp only [Args.map, hitems]
    exact .of_fail fun _ => rfl
  | y :: ys =>
    rw [hitems] at htrace
    obtain ⟨hy, hys⟩ := List.forall_mem_cons.1 htrace
    simp only [Args.map, hitems, List.map_cons]
    refine hy.text.bind fun name hname => (declaredParts_gives hys [] none [] none .nil .nil).bind
      fun r hr => (h.optional "recv" Traceable.param).bind fun receiver hrecv =>
        (position a _).bind fun pos hpos => .pure ?_
    rw [Option.or_none] at hr
    refine Formed.comesFrom_forms ⟨h.args_func _, hpos.mono (List.forall_mem_nil _),
      List.forall_mem_singleton.2 hname, untyped⟩ (by rw [partForms, hitems]; rfl)
      ((hrecv.append hr.1).append hr.2)

theorem exprTable : ∀ entry ∈ Load.exprTable,
    Loads file W x (entry.2 (a.map formOf)) .expr := by
  simp only [Load.exprTable, List.forall_mem_cons]
  exact ⟨h.ident, h.lit, h.composite, h.keyValue, h.funcLit, h.paren, h.selector, h.index, h.star,
    h.unary, h.binary, h.call, by simp⟩

theorem stmtTable : ∀ entry ∈ Load.stmtTable,
    Loads file W x (entry.2 (a.map formOf)) .stmt := by
  simp only [Load.stmtTable, List.forall_mem_cons]
  exact ⟨h.exprStmt, h.assign, h.incDec, h.decl, h.ret, h.block.map fun _ hb => hb, h.cond, h.loop,
    h.range, h.switch, h.clause.map fun _ hc => hc, h.defer, h.go, h.branch, by simp⟩

end Inside

theorem mem_textsAll {y : Sexp} {ys : List Sexp} (hy : y ∈ ys) {w : String} (hw : w ∈ y.texts) :
    w ∈ Sexp.textsAll ys := by
  induction hy with
  | head => exact List.mem_append_left _ hw
  | tail _ _ ih => exact List.mem_append_right _ ih

theorem Splits.mem {xs : List Sexp} {a : Args Sexp} (h : Splits xs a) :
    (∀ y ∈ a.items, y ∈ xs) ∧ ∀ p ∈ a.named, p.2 ∈ xs := by
  induction h with
  | nil => simp
  | item _ _ ih =>
    exact ⟨List.forall_mem_cons.2 ⟨List.mem_cons_self, fun y hy => .tail _ (ih.1 y hy)⟩,
      fun p hp => .tail _ (ih.2 p hp)⟩
  | named _ _ ih =>
    exact ⟨fun y hy => .tail _ (.tail _ (ih.1 y hy)), List.forall_mem_cons.2
      ⟨.tail _ List.mem_cons_self, fun p hp => .tail _ (.tail _ (ih.2 p hp))⟩⟩

theorem mem_of_get? {α : Type} {a : Args α} {key : String} {y : α} (h : a.get? key = some y) :
    (key, y) ∈ a.named := by
  obtain ⟨l₁, l₂, he, -⟩ := List.lookup_eq_some_iff.1 h
  rw [← List.mem_reverse, he]
  simp

section

variable {file : String} {W : String → Prop}

theorem param_gives (hempty : W "") {xs : List Sexp} (hxs : ∀ w ∈ Sexp.textsAll xs, W w) :
    Loads file W (.list xs) (param (.list xs)) .param := by
  intro s s' p hs hp
  rw [ok?_param] at hp
  obtain ⟨a, ha, hp⟩ := Option.bind_eq_some_iff.1 hp
  obtain ⟨⟨name, type⟩, hparts, hp⟩ := Option.bind_eq_some_iff.1 hp
  obtain ⟨⟨word, s₁⟩, hword, hp⟩ := Option.bind_eq_some_iff.1 hp
  obtain ⟨⟨i, s₂⟩, hi, he⟩ := Option.map_eq_some_iff.1 hp
  cases he
  have hname : Gives (InFile file) (name.elim (pure "") text) W := by
    cases name with
    | none => exact .pure hempty
    | some y =>
      have hy : y ∈ a.items := by
        match hitems : a.items with
        | [_, _] => rw [hitems] at hparts; cases hparts; exact List.mem_cons_self
        | [] | [_] | _ :: _ :: _ :: _ => rw [hitems] at hparts; cases hparts
      exact text_gives fun w hw => hxs w (mem_textsAll ((splits_of_tail? ha).mem.1 y hy) hw)
  obtain ⟨hs₁, hw⟩ := hname _ _ _ hs hword
  obtain ⟨hs₂, htypes, hplace⟩ := info_gives _ _ _ _ _ hs₁ hi
  have hat : paramKeys a type "at" = a.get? "at" := Option.or_none
  rw [hat] at hplace
  exact ⟨hs₂, Formed.comesFrom_forms ⟨ha, hplace, List.forall_mem_singleton.2 hw, htypes⟩ rfl .nil⟩

theorem params_gives (hempty : W "") {y : Sexp} (hy : ∀ w ∈ y.texts, W w) :
    Gives (InFile file) (params y) fun ps => PartsFrom file W (itemsOf y) (ps.map .param) := by
  unfold params
  split
  · rename_i items
    have hitems : ∀ z ∈ items, ∀ w ∈ z.texts, W w := fun z hz w hw =>
      hy w (mem_textsAll (.tail _ hz) hw)
    change Gives (InFile file) (items.mapM param) fun ps => PartsFrom file W items (ps.map .param)
    clear hy
    induction items with
    | nil => exact .pure .nil
    | cons z items ih =>
      obtain ⟨hz, hrest⟩ := List.forall_mem_cons.1 hitems
      rw [List.mapM_cons]
      refine Gives.bind (P := fun p => ComesFrom file W (some z, .param p)) ?_ fun p hp =>
        (ih hrest).bind fun ps hps => .pure (.cons hp hps)
      cases z with
      | list xs => exact param_gives hempty hz
      | _ => exact .of_fail fun _ => rfl
  · exact .of_fail fun _ => rfl

theorem load_gives {α : Type} {I : State → Prop} {P : α → Prop} {table : Table α}
    {unknown : Sexp → Fault} {y : Sexp}
    (ht : ∀ head xs a, y = .list (.sym head :: xs) → tail? xs = some a →
      ∀ entry ∈ table, Gives I (entry.2 (a.map formOf)) P) :
    Gives I (table.load unknown y (tailForms y)) P := by
  cases hh : y.head? with
  | none => exact .of_fail (ok?_load_headless table unknown hh _)
  | some _ =>
    match y with
    | .list (.sym head :: xs) =>
      intro s s' r hs hr
      rw [tailForms, ok?_load] at hr
      obtain ⟨load, hl, hr⟩ := Option.bind_eq_some_iff.1 hr
      obtain ⟨a, ha, hr⟩ := Option.bind_eq_some_iff.1 hr
      exact ht head xs a rfl ha _ (mem_of_lookup hl) _ _ _ hs hr

theorem inside_of_traceable (hempty : W "") (hdefine : W ":=") {head : Sexp} {xs : List Sexp}
    (hxs : ∀ y ∈ xs, Traceable file W y) {a : Args Sexp} (ha : tail? xs = some a) :
    Inside file W (.list (head :: xs)) a := by
  have hmem := (splits_of_tail? ha).mem
  exact ⟨⟨head, xs, rfl, ha⟩, fun y hy => hxs y (hmem.1 y hy),
    fun key y hy => hxs y (hmem.2 _ (mem_of_get? hy)), hempty, hdefine⟩

theorem traceable_of_items (hempty : W "") (hdefine : W ":=") {y : Sexp} (hy : ∀ w ∈ y.texts, W w)
    (hitems : ∀ head xs, y = .list (head :: xs) → ∀ z ∈ xs, Traceable file W z) :
    Traceable file W y := by
  have hin : ∀ {head xs a}, y = .list (.sym head :: xs) → tail? xs = some a →
      Inside file W y a := by
    rintro head xs a rfl ha
    exact inside_of_traceable hempty hdefine (hitems _ xs rfl) ha
  constructor
  case texts => exact hy
  case param =>
    rw [raw_formOf]
    cases y with
    | list xs => exact param_gives hempty hy
    | _ => exact .of_fail fun _ => rfl
  case params =>
    rw [raw_formOf]
    exact params_gives hempty hy
  all_goals rw [formOf_eq_ofTail]
  case expr => exact load_gives fun _ _ _ hx ha => (hin hx ha).exprTable
  case stmt => exact load_gives fun _ _ _ hx ha => (hin hx ha).stmtTable
  case block => exact load_gives fun _ _ _ hx ha => List.forall_mem_singleton.2 (hin hx ha).block
  case clause => exact load_gives fun _ _ _ hx ha => List.forall_mem_singleton.2 (hin hx ha).clause
  case func => exact load_gives fun _ _ _ hx ha => List.forall_mem_singleton.2 (hin hx ha).func

mutual

theorem traceable (hempty : W "") (hdefine : W ":=") :
    (y : Sexp) → (∀ w ∈ y.texts, W w) → Traceable file W y
  | .list (head :: xs), hy => traceable_of_items hempty hdefine hy fun _ _ he => by
      cases he
      exact traceable_all hempty hdefine xs fun w hw => hy w (List.mem_append_right _ hw)
  | .list [], hy | .int _, hy | .float _, hy | .str _, hy | .sym _, hy | .brackets _, hy
  | .quoted _, hy => traceable_of_items hempty hdefine hy fun _ _ he => by cases he

theorem traceable_all (hempty : W "") (hdefine : W ":=") :
    (ys : List Sexp) → (∀ w ∈ Sexp.textsAll ys, W w) → ∀ y ∈ ys, Traceable file W y
  | [], _ => by simp
  | y :: ys, hys => List.forall_mem_cons.2
      ⟨traceable hempty hdefine y fun w hw => hys w (List.mem_append_left _ hw),
        traceable_all hempty hdefine ys fun w hw => hys w (List.mem_append_right _ hw)⟩

end

end

structure FileFrom (W : String → Prop) (y : Sexp) (f : SourceFile) : Prop where
  words : ∀ w ∈ (Node.file f).words, W w
  decls : ∃ a, (Node.file f).args? y = some a ∧
    PartsFrom f.name W (a.items.drop 1) (f.decls.map .func)

structure UnitFrom (W : String → Prop) (y : Sexp) (u : SourceUnit) : Prop where
  words : ∀ w ∈ (Node.unit u).words, W w
  files : ∃ a, (Node.unit u).args? y = some a ∧
    List.Forall₂ (FileFrom W) (a.items.drop 1) u.files

section

variable {W : String → Prop} {x : Sexp} {a : Args Sexp}

theorem Inside.file (h : ∀ file, Inside file W x a) :
    Gives ValidTypes (Load.file (a.map formOf)) (FileFrom W x) := by
  unfold Load.file
  match hitems : a.items with
  | [] =>
    simp only [Args.map, hitems]
    exact .of_fail fun _ => rfl
  | z :: zs =>
    have htrace (file : String) : Traceable file W z ∧ ∀ y ∈ zs, Traceable file W y := by
      simpa [hitems] using (h file).items
    simp only [Args.map, hitems, List.map_cons, raw_formOf]
    refine (text_gives (htrace "").1.texts).bind fun name hname => .enter <|
      (mapM_gives (htrace name).2 Traceable.func).bind fun decls hd =>
        ((h name).textOr (h name).empty).bind fun package hp => .pure ?_
    obtain ⟨head, xs, rfl, ha⟩ := (h name).args
    exact ⟨two_words hname hp, a, ha, hitems ▸ hd⟩

theorem Inside.unit (h : ∀ file, Inside file W x a)
    (hfiles : ∀ y ∈ a.items, Gives ValidTypes (formOf y).file (FileFrom W y)) :
    Gives ValidTypes (Load.unit (a.map formOf)) (UnitFrom W x) := by
  unfold Load.unit
  match hitems : a.items with
  | [] =>
    simp only [Args.map, hitems]
    exact .of_fail fun _ => rfl
  | z :: zs =>
    have hz : Traceable "" W z := (h "").items z (by simp [hitems])
    have hzs : ∀ y ∈ zs, Gives ValidTypes (formOf y).file (FileFrom W y) := fun y hy =>
      hfiles y (by simp [hitems, hy])
    simp only [Args.map, hitems, List.map_cons, raw_formOf]
    refine (text_gives hz.texts).bind fun name hname => (forall₂_mapM_gives hzs).bind
      fun files hf => Gives.bind (P := W) ?_ fun path hpath => .pure ?_
    · have hkeys : FormArgs.keys (a.map formOf) = a.get? := keys_map a
      refine (?_ : Gives ValidTypes (Load.textOr (FormArgs.keys (a.map formOf)) "path" name) W)
      rw [hkeys]
      exact textOr_gives hname fun y hy => ((h "").named _ y hy).texts
    · obtain ⟨head, xs, rfl, ha⟩ := (h "").args
      exact ⟨two_words hname hpath, a, ha, hitems ▸ hf⟩

variable (hempty : W "") (hdefine : W ":=")
include hempty hdefine

theorem file_gives {y : Sexp} (hy : ∀ w ∈ y.texts, W w) :
    Gives ValidTypes (formOf y).file (FileFrom W y) := by
  rw [formOf_eq_ofTail]
  refine load_gives fun head xs a he ha => List.forall_mem_singleton.2 (Inside.file fun file => ?_)
  subst he
  exact inside_of_traceable hempty hdefine
    (traceable_all hempty hdefine xs fun w hw => hy w (List.mem_append_right _ hw)) ha

theorem unitOf_gives {y : Sexp} (hy : ∀ w ∈ y.texts, W w) :
    Gives ValidTypes (unitOf y) (UnitFrom W y) := by
  refine Gives.bind (P := fun _ => True) (fun s s' a hs ha => by cases ha; exact ⟨hs, trivial⟩)
    fun _ _ => load_gives fun head xs a he ha => List.forall_mem_singleton.2 ?_
  subst he
  have hxs : ∀ w ∈ Sexp.textsAll xs, W w := fun w hw => hy w (List.mem_append_right _ hw)
  refine Inside.unit (fun file => ?_) fun z hz => file_gives hempty hdefine fun w hw => ?_
  · exact inside_of_traceable hempty hdefine (traceable_all hempty hdefine xs hxs) ha
  · exact hxs w (mem_textsAll ((splits_of_tail? ha).mem.1 z hz) hw)

/-- A unit read from a text comes from the expression that the text writes. -/
theorem unitFrom_of_ofText {file text : String} {u : SourceUnit} {raw : Sexp}
    (hr : Sexp.read text = .ok raw) (hraw : ∀ w ∈ raw.texts, W w)
    (hu : SourceUnit.ofText file text = .ok u) : UnitFrom W raw u := by
  have hrun : runIn file (unitOf raw) = (.ok u, (runIn file (unitOf raw)).2) := by
    refine Prod.ext ?_ rfl
    rw [← hu, SourceUnit.ofText, unitOfText, hr]
  exact (unitOf_gives hempty hdefine hraw { file := file } _ u TypeCache.valid_empty
    (runIn_eq_ok_iff.1 hrun)).2

end

theorem read_of_ofText {file text : String} {u : SourceUnit}
    (hu : SourceUnit.ofText file text = .ok u) : ∃ raw, Sexp.read text = .ok raw := by
  cases hr : Sexp.read text with
  | ok raw => exact ⟨raw, rfl⟩
  | error cause =>
    rw [SourceUnit.ofText, unitOfText, hr] at hu
    cases hu

end Load

end ReadGuard
