import ReadGuard.Proofs.Load.Outcome

namespace ReadGuard.Load

variable {α β : Type}

/-- Two loads that succeed on the same states, with the same result. -/
def Alike (m n : Load α) : Prop := ok? m = ok? n

namespace Alike

protected theorem rfl {m : Load α} : Alike m m := Eq.refl _

theorem of_fail {m n : Load α} (hm : ∀ s, ok? m s = none) (hn : ∀ s, ok? n s = none) :
    Alike m n := by
  funext s
  rw [hm, hn]

theorem bind {m n : Load α} {k l : α → Load β} (h : Alike m n) (hk : ∀ a, Alike (k a) (l a)) :
    Alike (m >>= k) (n >>= l) := by
  funext s
  rw [ok?_bind, ok?_bind, h]
  cases ok? n s with
  | none => rfl
  | some r => exact congrFun (hk r.1) r.2

theorem map {m n : Load α} (f : α → β) (h : Alike m n) : Alike (f <$> m) (f <$> n) := by
  funext s
  rw [ok?_map, ok?_map, h]

theorem failAt (keys others : Keys) (fault fault' : Fault) :
    Alike (Load.failAt keys fault : Load α) (Load.failAt others fault') :=
  .of_fail (fun s => ok?_failAt s keys fault) fun s => ok?_failAt s others fault'

theorem failAt_bind (keys others : Keys) (fault fault' : Fault) {k l : α → Load β} :
    Alike (Load.failAt keys fault >>= k) (Load.failAt others fault' >>= l) := by
  refine .of_fail (fun s => ?_) fun s => ?_ <;> rw [ok?_bind, ok?_failAt] <;> rfl

end Alike

@[ext]
structure View where
  keyword : Option String
  head : Option String
  string : Option String
  isList : Bool
  integer : Option Int
  place : Option (Int × Int × Int)
  text : State → Option (String × State)
  params : State → Option (List Param × State)
  expr : State → Option (Expr × State)
  stmt : State → Option (Stmt × State)
  block : State → Option (Block × State)
  clause : State → Option (Clause × State)
  func : State → Option (FuncDecl × State)
  file : State → Option (SourceFile × State)
  unit : State → Option (SourceUnit × State)

def Form.view (f : Form) : View where
  keyword := keyword? f.raw
  head := f.head?
  string := string? f.raw
  isList := Load.isList f.raw
  integer := integer? f.raw
  place := placeOf f.raw
  text := ok? (Load.text f.raw)
  params := ok? (Load.params f.raw)
  expr := ok? f.expr
  stmt := ok? f.stmt
  block := ok? f.block
  clause := ok? f.clause
  func := ok? f.func
  file := ok? f.file
  unit := ok? (unitOf f.raw)

def Form.Same (f g : Form) : Prop := f.view = g.view

namespace Form.Same

variable {f g : Form} (h : f.Same g)
include h

theorem head : f.head? = g.head? := congrArg View.head h
theorem string : string? f.raw = string? g.raw := congrArg View.string h
theorem isList : Load.isList f.raw = Load.isList g.raw := congrArg View.isList h
theorem keyword : keyword? f.raw = keyword? g.raw := congrArg View.keyword h
theorem integer : integer? f.raw = integer? g.raw := congrArg View.integer h
theorem place : placeOf f.raw = placeOf g.raw := congrArg View.place h
theorem text : Alike (Load.text f.raw) (Load.text g.raw) := congrArg View.text h
theorem params : Alike (Load.params f.raw) (Load.params g.raw) := congrArg View.params h
theorem expr : Alike f.expr g.expr := congrArg View.expr h
theorem stmt : Alike f.stmt g.stmt := congrArg View.stmt h
theorem block : Alike f.block g.block := congrArg View.block h
theorem clause : Alike f.clause g.clause := congrArg View.clause h
theorem func : Alike f.func g.func := congrArg View.func h
theorem file : Alike f.file g.file := congrArg View.file h
theorem unit : Alike (unitOf f.raw) (unitOf g.raw) := congrArg View.unit h

end Form.Same

structure Keys.Same (keys others : Keys) : Prop where
  place : (keys "at").map placeOf = (others "at").map placeOf
  text : ∀ key, key ≠ "recv" →
    (keys key).map (fun x => ok? (Load.text x)) = (others key).map fun x => ok? (Load.text x)

theorem Keys.Same.of_rel {keys others : Keys} (h : ∀ key, key ≠ "recv" →
    Option.Rel (fun x y => placeOf x = placeOf y ∧ Alike (Load.text x) (Load.text y))
      (keys key) (others key)) : keys.Same others := by
  have hview : ∀ (key : String) {γ : Type} (v : Sexp → γ), key ≠ "recv" →
      (∀ x y, placeOf x = placeOf y ∧ Alike (Load.text x) (Load.text y) → v x = v y) →
      (keys key).map v = (others key).map v := by
    intro key γ v hkey hv
    have hk := h key hkey
    revert hk
    generalize keys key = u
    generalize others key = w
    rintro (hs | _)
    · exact congrArg some (hv _ _ hs)
    · rfl
  exact ⟨hview "at" placeOf (by decide) fun _ _ hs => hs.1,
    fun key hkey => hview key _ hkey fun _ _ hs => hs.2⟩

namespace Keys.Same

variable {keys others : Keys} (h : keys.Same others)
include h

theorem position (fallback : List Position) :
    Alike (Load.position keys fallback) (Load.position others fallback) := by
  funext s
  have hp := h.place
  rw [ok?_position, ok?_position]
  cases hk : keys "at" <;> cases hk' : others "at" <;> simp_all

theorem textOr (key default : String) (hkey : key ≠ "recv") :
    Alike (Load.textOr keys key default) (Load.textOr others key default) := by
  have ht := h.text key hkey
  unfold Load.textOr
  cases hk : keys key <;> cases hk' : others key <;> simp_all [Alike]

theorem typeOf : Alike (Load.typeOf keys) (Load.typeOf others) := by
  have ht := h.text "type" (by decide)
  unfold Load.typeOf
  cases hk : keys "type" <;> cases hk' : others "type" <;> simp only [hk, hk'] at ht
  · exact .rfl
  · cases ht
  · cases ht
  · refine Alike.bind (Option.some.inj ht) fun text => Alike.bind .rfl fun state => ?_
    cases state.types.get text with
    | ok r => exact .rfl
    | error cause => exact .failAt ..

theorem objectOf : Alike (Load.objectOf keys) (Load.objectOf others) := by
  have ht := h.text "obj" (by decide)
  unfold Load.objectOf
  cases hk : keys "obj" <;> cases hk' : others "obj" <;> simp only [hk, hk'] at ht
  · exact .rfl
  · cases ht
  · cases ht
  · refine Alike.bind (Option.some.inj ht) fun name => ?_
    cases ObjectKind.ofName? name with
    | some kind => exact .rfl
    | none => exact .failAt ..

theorem info (fallback : List Position) :
    Alike (Load.info keys fallback) (Load.info others fallback) :=
  h.typeOf.bind fun _ => (h.position fallback).bind fun _ => .rfl

end Keys.Same

structure FormArgs.Same (a b : FormArgs) : Prop where
  items : List.Forall₂ Form.Same a.items b.items
  named : ∀ key, key ≠ "recv" → Option.Rel Form.Same (a.get? key) (b.get? key)

/-- What is loaded of every form of a list. -/
theorem alike_mapM {fs gs : List Form} (h : List.Forall₂ Form.Same fs gs) {load : Form → Load α}
    (hl : ∀ {f g : Form}, f.Same g → Alike (load f) (load g)) :
    Alike (fs.mapM load) (gs.mapM load) := by
  induction h with
  | nil => exact .rfl
  | cons hf _ ih =>
    rw [List.mapM_cons, List.mapM_cons]
    exact (hl hf).bind fun _ => ih.bind fun _ => .rfl

theorem alike_funcParts {fs gs : List Form} (h : List.Forall₂ Form.Same fs gs) (ps : List Param)
    (body : Block) : Alike (funcParts fs ps body) (funcParts gs ps body) := by
  induction h generalizing ps body with
  | nil => exact .rfl
  | cons hf _ ih =>
    unfold funcParts
    rw [hf.head]
    split
    · exact hf.params.bind fun ps => ih ps body
    · exact hf.block.bind fun body => ih ps body

theorem alike_declaredParts {fs gs : List Form} (h : List.Forall₂ Form.Same fs gs) (name : String)
    (keys others : Keys) (ps : List Param) (body : Option Block) :
    Alike (declaredParts name keys fs ps body) (declaredParts name others gs ps body) := by
  induction h generalizing ps body with
  | nil => exact .rfl
  | cons hf _ ih =>
    unfold declaredParts
    rw [hf.head]
    split
    · exact hf.params.bind fun ps => ih ps body
    · split
      · exact hf.block.bind fun body => ih ps (some body)
      · exact .failAt ..

theorem alike_clauseParts {fs gs : List Form} (h : List.Forall₂ Form.Same fs gs) (a b : FormArgs)
    (exprs : List Expr) (body : List Stmt) :
    Alike (clauseParts a fs exprs body) (clauseParts b gs exprs body) := by
  induction h generalizing exprs body with
  | nil => exact .rfl
  | cons hf _ ih =>
    unfold clauseParts
    rw [hf.head]
    split
    · split
      · exact hf.expr.bind fun e => ih (exprs ++ [e]) body
      · exact .failAt ..
    · exact hf.stmt.bind fun s => ih exprs (body ++ [s])

theorem any_string {fs gs : List Form} (h : List.Forall₂ Form.Same fs gs) :
    (fs.any fun f => (string? f.raw).isSome) = gs.any fun f => (string? f.raw).isSome := by
  induction h with
  | nil => rfl
  | cons hf _ ih => rw [List.any_cons, List.any_cons, hf.string, ih]

theorem splitAssign_cases {fs gs : List Form} (h : List.Forall₂ Form.Same fs gs) :
    splitAssign fs = none ∧ splitAssign gs = none ∨
      ∃ left right left' right' op,
        splitAssign fs = some (left, op, right) ∧ splitAssign gs = some (left', op, right') ∧
        List.Forall₂ Form.Same left left' ∧ List.Forall₂ Form.Same right right' := by
  induction h with
  | nil => exact .inl ⟨rfl, rfl⟩
  | @cons f g fs gs hf hfs ih =>
    unfold splitAssign
    rw [hf.string, any_string hfs]
    cases string? g.raw with
    | some op =>
      simp only
      split
      · exact .inl ⟨rfl, rfl⟩
      · exact .inr ⟨[], fs, [], gs, op, rfl, rfl, .nil, hfs⟩
    | none =>
      obtain ⟨ha, hb⟩ | ⟨left, right, left', right', op, ha, hb, hl, hr⟩ := ih
      · exact .inl ⟨by rw [ha]; rfl, by rw [hb]; rfl⟩
      · exact .inr ⟨f :: left, right, g :: left', right', op, by rw [ha]; rfl, by rw [hb]; rfl,
          .cons hf hl, hr⟩

namespace FormArgs.Same

variable {a b : FormArgs} (h : FormArgs.Same a b)
include h

theorem get?_cases {key : String} (hkey : key ≠ "recv") :
    a.get? key = none ∧ b.get? key = none ∨
      ∃ f g, a.get? key = some f ∧ b.get? key = some g ∧ f.Same g := by
  have hn := h.named key hkey
  revert hn
  generalize a.get? key = x
  generalize b.get? key = y
  rintro (hs | _)
  · exact .inr ⟨_, _, rfl, rfl, hs⟩
  · exact .inl ⟨rfl, rfl⟩

theorem keys : Keys.Same (FormArgs.keys a) (FormArgs.keys b) := by
  refine .of_rel fun key hkey => ?_
  unfold FormArgs.keys
  obtain ⟨ha, hb⟩ | ⟨f, g, ha, hb, hs⟩ := h.get?_cases hkey
  · rw [ha, hb]
    exact .none
  · rw [ha, hb]
    exact .some ⟨hs.place, hs.text⟩

theorem optional {key : String} (hkey : key ≠ "recv") {load : Form → Load α}
    (hl : ∀ {f g : Form}, f.Same g → Alike (load f) (load g)) :
    Alike (FormArgs.optional a key load) (FormArgs.optional b key load) := by
  unfold FormArgs.optional
  obtain ⟨ha, hb⟩ | ⟨f, g, ha, hb, hs⟩ := h.get?_cases hkey
  · rw [ha, hb]
    exact .rfl
  · rw [ha, hb]
    exact (hl hs).map some

theorem one (form : String) {k l : Form → Load α}
    (hk : ∀ {f g : Form}, f.Same g → Alike (k f) (l g)) :
    Alike (FormArgs.one a form >>= k) (FormArgs.one b form >>= l) := by
  have hi := h.items
  unfold FormArgs.one
  generalize a.items = fs at hi
  generalize b.items = gs at hi
  match fs, gs, hi with
  | [], [], _ => exact .rfl
  | [_], [_], .cons hf .nil => exact hk hf
  | _ :: _ :: _, _ :: _ :: _, _ => exact .rfl

theorem two (form : String) {k l : Form × Form → Load α}
    (hk : ∀ {f g f' g' : Form}, f.Same g → f'.Same g' → Alike (k (f, f')) (l (g, g'))) :
    Alike (FormArgs.two a form >>= k) (FormArgs.two b form >>= l) := by
  have hi := h.items
  unfold FormArgs.two
  generalize a.items = fs at hi
  generalize b.items = gs at hi
  match fs, gs, hi with
  | [], [], _ => exact .rfl
  | [_], [_], _ => exact .rfl
  | [_, _], [_, _], .cons hf (.cons hf' .nil) => exact hk hf hf'
  | _ :: _ :: _ :: _, _ :: _ :: _ :: _, _ => exact .rfl

theorem three (form : String) {k l : Form × Form × Form → Load α}
    (hk : ∀ {f g f' g' f'' g'' : Form}, f.Same g → f'.Same g' → f''.Same g'' →
      Alike (k (f, f', f'')) (l (g, g', g''))) :
    Alike (FormArgs.three a form >>= k) (FormArgs.three b form >>= l) := by
  have hi := h.items
  unfold FormArgs.three
  generalize a.items = fs at hi
  generalize b.items = gs at hi
  match fs, gs, hi with
  | [], [], _ => exact .rfl
  | [_], [_], _ => exact .rfl
  | [_, _], [_, _], _ => exact .rfl
  | [_, _, _], [_, _, _], .cons hf (.cons hf' (.cons hf'' .nil)) => exact hk hf hf' hf''
  | _ :: _ :: _ :: _ :: _, _ :: _ :: _ :: _ :: _, _ => exact .rfl

theorem ident : Alike (Load.ident a) (Load.ident b) :=
  h.one _ fun hx => h.keys.objectOf.bind fun _ => hx.text.bind fun _ => h.keys.typeOf.bind fun _ =>
    (h.keys.textOr "pkg" _ (by decide)).bind fun _ => (h.keys.position _).bind fun _ => .rfl

theorem lit : Alike (Load.lit a) (Load.lit b) :=
  h.two _ fun hk hv => hk.text.bind fun _ => hv.text.bind fun _ =>
    (h.keys.info _).bind fun _ => .rfl

theorem composite : Alike (Load.composite a) (Load.composite b) :=
  (alike_mapM h.items Form.Same.expr).bind fun _ => (h.keys.info _).bind fun _ => .rfl

theorem keyValue : Alike (Load.keyValue a) (Load.keyValue b) :=
  h.two _ fun hk hv => hk.expr.bind fun _ => hv.expr.bind fun _ =>
    (h.keys.info _).bind fun _ => .rfl

theorem funcLit : Alike (Load.funcLit a) (Load.funcLit b) :=
  (alike_funcParts h.items _ _).bind fun _ => (h.keys.info _).bind fun _ => .rfl

theorem paren : Alike (Load.paren a) (Load.paren b) :=
  h.one _ fun hx => hx.expr.bind fun _ => (h.keys.info _).bind fun _ => .rfl

theorem selector : Alike (Load.selector a) (Load.selector b) :=
  h.two _ fun hx hf => hx.expr.bind fun _ => hf.text.bind fun _ =>
    (h.keys.info _).bind fun _ => .rfl

theorem index : Alike (Load.index a) (Load.index b) :=
  h.two _ fun hx hi => hx.expr.bind fun _ => hi.expr.bind fun _ =>
    (h.keys.info _).bind fun _ => .rfl

theorem star : Alike (Load.star a) (Load.star b) :=
  h.one _ fun hx => hx.expr.bind fun _ => (h.keys.info _).bind fun _ => .rfl

theorem unary : Alike (Load.unary a) (Load.unary b) :=
  h.two _ fun ho hx => hx.expr.bind fun _ => ho.text.bind fun _ =>
    (h.keys.info _).bind fun _ => .rfl

theorem binary : Alike (Load.binary a) (Load.binary b) :=
  h.three _ fun ho hx hy => hx.expr.bind fun _ => hy.expr.bind fun _ => ho.text.bind fun _ =>
    (h.keys.info _).bind fun _ => .rfl

theorem call : Alike (Load.call a) (Load.call b) := by
  have hi := h.items
  unfold Load.call
  generalize a.items = fs at hi
  generalize b.items = gs at hi
  cases hi with
  | nil => exact .failAt ..
  | cons hf hargs =>
    exact hf.expr.bind fun _ => (alike_mapM hargs Form.Same.expr).bind fun _ =>
      (h.keys.info _).bind fun _ => .rfl

theorem exprStmt : Alike (Load.exprStmt a) (Load.exprStmt b) :=
  h.one _ fun hx => hx.expr.bind fun _ => (h.keys.position _).bind fun _ => .rfl

theorem assign : Alike (Load.assign a) (Load.assign b) := by
  unfold Load.assign
  obtain ⟨ha, hb⟩ | ⟨left, right, left', right', op, ha, hb, hl, hr⟩ := splitAssign_cases h.items
  · rw [ha, hb]
    exact .failAt ..
  · rw [ha, hb]
    refine (alike_mapM hl Form.Same.expr).bind fun left =>
      (alike_mapM hr Form.Same.expr).bind fun right => ?_
    match left, right with
    | x :: _, _ :: _ => exact (h.keys.position _).bind fun _ => .rfl
    | [], _ => exact .failAt ..
    | _ :: _, [] => exact .failAt ..

theorem incDec : Alike (Load.incDec a) (Load.incDec b) :=
  h.two _ fun hx ho => ho.text.bind fun op => by
    by_cases hop : op ≠ "++" ∧ op ≠ "--"
    · rw [if_pos hop, if_pos hop]
      exact .failAt_bind ..
    · rw [if_neg hop, if_neg hop]
      exact hx.expr.bind fun _ => (h.keys.position _).bind fun _ => .rfl

theorem declParts (type : Option Ty) {fs gs : List Form} (hfs : List.Forall₂ Form.Same fs gs)
    (names : List Ident) (values : List Expr) :
    Alike (Load.declParts a type fs names values) (Load.declParts b type gs names values) := by
  induction hfs generalizing names values with
  | nil => exact .rfl
  | cons hf _ ih =>
    unfold Load.declParts
    rw [hf.isList]
    split
    · exact hf.expr.bind fun value => ih names (values ++ [value])
    · split
      · exact hf.text.bind fun _ => (h.keys.position _).bind fun _ => ih _ values
      · exact .failAt ..

theorem decl : Alike (Load.decl a) (Load.decl b) :=
  h.keys.typeOf.bind fun type => (h.declParts type h.items [] []).bind fun (names, values) => by
    cases hn : names.isEmpty <;> simp only [hn]
    · exact (h.keys.position _).bind fun _ => .rfl
    · exact .failAt_bind ..

theorem ret : Alike (Load.ret a) (Load.ret b) :=
  (alike_mapM h.items Form.Same.expr).bind fun _ => (h.keys.position _).bind fun _ => .rfl

theorem block : Alike (Load.block a) (Load.block b) :=
  (alike_mapM h.items Form.Same.stmt).bind fun _ => (h.keys.position _).bind fun _ => .rfl

theorem cond : Alike (Load.cond a) (Load.cond b) := by
  have hi := h.items
  unfold Load.cond
  generalize a.items = fs at hi
  generalize b.items = gs at hi
  match fs, gs, hi with
  | [], [], _ => exact .failAt_bind ..
  | [_], [_], _ => exact .failAt_bind ..
  | [_, _], [_, _], .cons ht (.cons hb .nil) =>
    simp only [pure_bind]
    exact ht.expr.bind fun _ => hb.block.bind fun _ => .bind .rfl fun _ =>
      (h.optional (by decide) Form.Same.stmt).bind fun _ => (h.keys.position _).bind fun _ => .rfl
  | [_, _, _], [_, _, _], .cons ht (.cons hb (.cons ho .nil)) =>
    simp only [pure_bind, Option.mapM_some]
    exact ht.expr.bind fun _ => hb.block.bind fun _ => (ho.stmt.map some).bind fun _ =>
      (h.optional (by decide) Form.Same.stmt).bind fun _ => (h.keys.position _).bind fun _ => .rfl
  | _ :: _ :: _ :: _ :: _, _ :: _ :: _ :: _ :: _, _ => exact .failAt_bind ..

theorem loop : Alike (Load.loop a) (Load.loop b) :=
  h.one _ fun hb => hb.block.bind fun _ =>
    (h.optional (by decide) Form.Same.stmt).bind fun _ =>
    (h.optional (by decide) Form.Same.expr).bind fun _ =>
    (h.optional (by decide) Form.Same.stmt).bind fun _ =>
    (h.keys.position _).bind fun _ => .rfl

theorem range : Alike (Load.range a) (Load.range b) :=
  h.two _ fun hx hb => hx.expr.bind fun _ => hb.block.bind fun _ =>
    (h.optional (by decide) Form.Same.expr).bind fun _ =>
    (h.optional (by decide) Form.Same.expr).bind fun _ =>
    (h.keys.textOr _ _ (by decide)).bind fun _ =>
    (h.keys.position _).bind fun _ => .rfl

theorem clause : Alike (Load.clause a) (Load.clause b) :=
  (alike_clauseParts h.items a b [] []).bind fun _ => (h.keys.position _).bind fun _ => .rfl

theorem switch : Alike (Load.switch a) (Load.switch b) :=
  (alike_mapM h.items Form.Same.clause).bind fun _ =>
    (h.optional (by decide) Form.Same.expr).bind fun _ =>
    (h.optional (by decide) Form.Same.stmt).bind fun _ =>
    (h.keys.position _).bind fun _ => .rfl

theorem defer : Alike (Load.defer a) (Load.defer b) :=
  h.one _ fun hx => hx.expr.bind fun _ => (h.keys.position _).bind fun _ => .rfl

theorem go : Alike (Load.go a) (Load.go b) :=
  h.one _ fun hx => hx.expr.bind fun _ => (h.keys.position _).bind fun _ => .rfl

theorem branch : Alike (Load.branch a) (Load.branch b) := by
  have hi := h.items
  unfold Load.branch
  generalize a.items = fs at hi
  generalize b.items = gs at hi
  match fs, gs, hi with
  | [], [], _ => exact .failAt_bind ..
  | [_], [_], .cons hk .nil => exact hk.text.bind fun _ => (h.keys.position _).bind fun _ => .rfl
  | [_, _], [_, _], .cons hk (.cons hl .nil) =>
    exact hl.text.bind fun _ => hk.text.bind fun _ => (h.keys.position _).bind fun _ => .rfl
  | _ :: _ :: _ :: _, _ :: _ :: _ :: _, _ => exact .failAt_bind ..

/-- The receiver is a parameter, and not read as the other items are. -/
theorem func (hr : Alike (FormArgs.optional a "recv" fun f => param f.raw)
    (FormArgs.optional b "recv" fun f => param f.raw)) : Alike (Load.func a) (Load.func b) := by
  have hi := h.items
  unfold Load.func
  generalize a.items = fs at hi
  generalize b.items = gs at hi
  cases hi with
  | nil => exact .rfl
  | cons hn hfs =>
    exact hn.text.bind fun _ => (alike_declaredParts hfs _ _ _ [] none).bind fun _ =>
      hr.bind fun _ => (h.keys.position _).bind fun _ => .rfl

theorem file : Alike (Load.file a) (Load.file b) := by
  have hi := h.items
  unfold Load.file
  generalize a.items = fs at hi
  generalize b.items = gs at hi
  cases hi with
  | nil => exact .rfl
  | cons hn hfs =>
    exact hn.text.bind fun _ => .bind .rfl fun _ => (alike_mapM hfs Form.Same.func).bind fun _ =>
      (h.keys.textOr _ _ (by decide)).bind fun _ => .rfl

theorem unit : Alike (Load.unit a) (Load.unit b) := by
  have hi := h.items
  unfold Load.unit
  generalize a.items = fs at hi
  generalize b.items = gs at hi
  cases hi with
  | nil => exact .rfl
  | cons hn hfs =>
    exact hn.text.bind fun _ => (alike_mapM hfs Form.Same.file).bind fun _ =>
      (h.keys.textOr _ _ (by decide)).bind fun _ => .rfl

theorem exprTable : ∀ entry ∈ Load.exprTable, Alike (entry.2 a) (entry.2 b) := by
  simp only [Load.exprTable, List.forall_mem_cons]
  exact ⟨h.ident, h.lit, h.composite, h.keyValue, h.funcLit, h.paren, h.selector, h.index, h.star,
    h.unary, h.binary, h.call, by simp⟩

theorem stmtTable : ∀ entry ∈ Load.stmtTable, Alike (entry.2 a) (entry.2 b) := by
  simp only [Load.stmtTable, List.forall_mem_cons]
  exact ⟨h.exprStmt, h.assign, h.incDec, h.decl, h.ret, h.block.map _, h.cond, h.loop, h.range,
    h.switch, h.clause.map _, h.defer, h.go, h.branch, by simp⟩

end FormArgs.Same

end ReadGuard.Load
