import ReadGuard.Proofs.Check.Reports

namespace ReadGuard

def Protection.isStorage (p : Protection) (e : Expr) : Bool :=
  match e.unparen with
  | .selector x name info => (p.fieldRoot (.selector x name info)).isSome
  | .index x _ _ => (p.fieldRoot x).isSome
  | _ => false

namespace Node

/-- Does a node itself give access to protected storage beyond reading it? It takes the address of a
field, writes to storage, has a loop variable of the protected type, or lets a function of the
language write into storage. -/
def touches (p : Protection) : Node → Bool
  | .expr (.unary op x _) => op == "&" && (p.fieldRoot x).isSome
  | .expr (.call fn (x :: _) _) =>
    match fn.unparen with
    | .ident id => ["copy", "delete", "clear"].contains id.name &&
        (id.object = none || id.object = some .builtin) && (p.fieldRoot x).isSome
    | _ => false
  | .stmt (.assign left _ _ _) => left.any p.isStorage
  | .stmt (.incDec x _ _) => p.isStorage x
  | .stmt (.range _ _ key value op _) => (key.toList ++ value.toList).any fun v =>
      if op = "=" then p.isStorage v else p.holds? v.type
  | _ => false

def ReadOnly (p : Protection) (n : Node) : Prop := ∀ m ∈ n.walk, m.touches p = false

namespace ReadOnly

variable {p : Protection} {n m : Node}

theorem of_mem (h : n.ReadOnly p) (hm : m ∈ n.walk) : m.ReadOnly p :=
  fun k hk => h k (mem_walk_trans hm hk)

theorem child (h : n.ReadOnly p) (hm : m ∈ n.children) : m.ReadOnly p :=
  h.of_mem (mem_walk_of_child hm (mem_walk_self m))

theorem self (h : n.ReadOnly p) : n.touches p = false := h n (mem_walk_self n)

theorem addressed {e : Expr} (h : ReadOnly p (.expr e)) : p.addressed e.unparen = none := by
  have hm := (h.of_mem (unparen_mem_walk e)).self
  cases he : e.unparen with
  | unary op x info =>
    by_cases hop : op = "&"
    · subst hop
      rw [he] at hm
      have hr : p.fieldRoot x = none := by simpa [touches] using hm
      exact hr
    · unfold Protection.addressed
      simp [hop]
  | _ => rfl

end ReadOnly

end Node

section Empty

variable {p : Protection}

theorem Aliases.root_empty : (x : Expr) → Aliases.root {} x = none
  | .paren x _ | .star x _ | .selector x _ _ => root_empty x
  | .ident _ | .lit .. | .composite .. | .keyValue .. | .funcLit .. | .index .. | .unary ..
  | .binary .. | .call .. => rfl

theorem Aliases.ofExpr_empty (e : Expr) : Aliases.ofExpr {} e = none := by
  unfold Aliases.ofExpr
  split <;> rfl

/-- While no name holds a pointer, only storage itself and addresses are targets. -/
theorem WriteTarget.classify_empty {e : Expr} (h : Node.ReadOnly p (.expr e))
    (hs : p.isStorage e = false) : classify p {} e = none := by
  have hu := h.of_mem (Node.unparen_mem_walk e)
  unfold Protection.isStorage at hs
  unfold classify
  cases he : e.unparen with
  | index x i info =>
    rw [he] at hs
    have hr : p.fieldRoot x = none := by simpa using hs
    simp [ofIndex, hr, Aliases.root_empty, ofAlias]
  | star x info =>
    rw [he] at hu
    have ha := (hu.child (m := .expr x) List.mem_cons_self).addressed
    simp [ofStar, ha, Aliases.ofExpr_empty, ofAlias]
  | selector x field info =>
    rw [he] at hs
    have hr : p.fieldRoot (.selector x field info) = none := by simpa using hs
    simp [ofSelector, hr, Aliases.root_empty, ofAlias]
  | _ => rfl

namespace Aliases

theorem assign_empty (name : String) {value : Option Expr}
    (h : ∀ v ∈ value, Node.ReadOnly p (.expr v)) : assign p {} name value = ({}, []) := by
  unfold assign
  cases value with
  | none => rfl
  | some v =>
    have ha := (h v rfl).addressed
    rw [Option.map_some]
    cases hv : v.unparen with
    | ident id => rfl
    | _ =>
      rw [hv] at ha
      simp only [ha]
      rfl

theorem assignTo_empty (target : Expr) {value : Option Expr}
    (h : ∀ v ∈ value, Node.ReadOnly p (.expr v)) : assignTo p {} target value = ({}, []) := by
  unfold assignTo
  cases target.unparen with
  | ident id =>
    dsimp only
    split
    · rfl
    · exact assign_empty id.name h
  | _ => rfl

theorem assignEach_empty {pairs : List (Expr × Option Expr)}
    (h : ∀ pair ∈ pairs, ∀ v ∈ pair.2, Node.ReadOnly p (.expr v)) :
    assignEach p pairs {} = ({}, []) := by
  induction pairs with
  | nil => rfl
  | cons pair rest ih =>
    obtain ⟨target, value⟩ := pair
    have hfirst := assignTo_empty target (h _ List.mem_cons_self)
    have hrest := ih fun pair hm => h pair (List.mem_cons_of_mem _ hm)
    simp only [assignEach, hfirst, hrest, List.append_nil]

/-- Values that are not addresses of fields bind no name. -/
theorem assignAll_empty (names : List Expr) {values : List Expr}
    (h : ∀ v ∈ values, Node.ReadOnly p (.expr v)) : assignAll p {} names values = ({}, []) := by
  apply assignEach_empty
  intro pair hm v hv
  unfold pairs at hm
  split at hm
  · have hsecond := (List.of_mem_zip hm).2
    rw [Option.mem_def.mp hv, List.mem_map] at hsecond
    obtain ⟨v', hv', he⟩ := hsecond
    exact h v (Option.some.inj he ▸ hv')
  · obtain ⟨n, -, rfl⟩ := List.mem_map.mp hm
    cases hv

end Aliases

variable {w : Watch}

namespace Watch

theorem inAssign_empty {left : List Expr} (h : ∀ e ∈ left, Node.ReadOnly w.protection (.expr e))
    (hs : ∀ e ∈ left, w.protection.isStorage e = false) : w.inAssign {} left = [] := by
  apply List.filterMap_eq_nil_iff.mpr
  intro e he
  rw [WriteTarget.classify_empty (h e he) (hs e he), Option.map_none]

theorem inIncDec_empty {x : Expr} (h : Node.ReadOnly w.protection (.expr x))
    (hs : w.protection.isStorage x = false) (pos : Position) : w.inIncDec {} x pos = [] := by
  rw [inIncDec, WriteTarget.classify_empty h hs]
  rfl

theorem inLoopVariable_empty {op : String} {v : Expr} (h : Node.ReadOnly w.protection (.expr v))
    (hs : (if op = "=" then w.protection.isStorage v else w.protection.holds? v.type) = false) :
    w.inLoopVariable {} op v = [] := by
  unfold inLoopVariable
  by_cases hop : op = "="
  · rw [if_pos hop] at hs ⊢
    exact inAssign_empty (by simpa using h) (by simpa using hs)
  · rw [if_neg hop] at hs ⊢
    rw [hs]
    rfl

theorem exists_of_writer? {c : Call} {name : String} (h : writer? c = some name) :
    ∃ id, c.fn.unparen = .ident id ∧ id.name ∈ writers ∧
      (id.object = none ∨ id.object = some .builtin) := by
  unfold writer? at h
  cases hf : c.fn.unparen with
  | ident id =>
    rw [hf] at h
    dsimp only at h
    split at h
    case isTrue hw => exact ⟨id, rfl, by simpa using hw⟩
    case isFalse => cases h
  | _ => simp [hf] at h

theorem inBuiltinCall_empty {c : Call}
    (h : Node.touches w.protection (.expr (.call c.fn c.args c.info)) = false) :
    w.inBuiltinCall {} c = [] := by
  unfold inBuiltinCall
  cases hw : writer? c with
  | none => rfl
  | some name =>
    obtain ⟨id, hf, hname, hobj⟩ := exists_of_writer? hw
    cases ha : c.args with
    | nil => rfl
    | cons x rest =>
      have htouch : id.name ∈ writers → w.protection.fieldRoot x = none := by
        simpa [Node.touches, writers, ha, hf, hobj] using h
      simp only [container, htouch hname, Aliases.root_empty]

end Watch

theorem Effect.ofArguments_empty {args : List Expr}
    (h : ∀ arg ∈ args, Node.ReadOnly w.protection (.expr arg)) (pos : Position) (callee : String)
    (index : Nat) : ofArguments w {} pos callee index args = [] := by
  induction args generalizing index with
  | nil => rfl
  | cons arg rest ih =>
    have hesc : Run.escaping w {} arg = none := by
      have ha := (h arg List.mem_cons_self).addressed
      unfold Run.escaping
      cases hu : arg.unparen with
      | ident id => rfl
      | _ => rwa [hu] at ha
    rw [ofArguments, hesc, ih fun a hm => h a (List.mem_cons_of_mem _ hm)]
    rfl

/-- While no name holds a pointer, the event finds nothing, and no name holds a pointer after it. -/
structure Event.Quiet (w : Watch) (event : Event) : Prop where
  effects : ∀ keyOf, ∀ e ∈ Effect.ofEvent w keyOf {} event, ∃ callee, e = .calls callee
  rebound : event.rebound w {} = {}

namespace Event

theorem quiet_call (hs : w.strict = false) {c : Call}
    (ht : Node.touches w.protection (.expr (.call c.fn c.args c.info)) = false)
    (ha : ∀ arg ∈ c.args, Node.ReadOnly w.protection (.expr arg)) : (call c).Quiet w := by
  have hmethod : w.inMethodCall c = [] := by simp [Watch.inMethodCall, hs]
  refine ⟨fun keyOf e hm => ⟨keyOf c, ?_⟩, rfl⟩
  rw [Effect.ofEvent, hmethod, Watch.inBuiltinCall_empty ht, Effect.ofArguments_empty ha] at hm
  exact List.mem_singleton.mp hm

theorem quiet_assign {left right : List Expr} (op : String)
    (hl : ∀ e ∈ left, Node.ReadOnly w.protection (.expr e))
    (hs : ∀ e ∈ left, w.protection.isStorage e = false)
    (hr : ∀ v ∈ right, Node.ReadOnly w.protection (.expr v)) : (assign left op right).Quiet w := by
  have hleft := Watch.inAssign_empty hl hs
  have hright := Aliases.assignAll_empty left hr
  constructor
  · intro keyOf e hm
    simp [Effect.ofEvent, hleft, hright] at hm
  · simp [Event.rebound, hright]

theorem quiet_incDec {x : Expr} (h : Node.ReadOnly w.protection (.expr x))
    (hs : w.protection.isStorage x = false) (pos : Position) : (incDec x pos).Quiet w := by
  have hx := Watch.inIncDec_empty h hs pos
  constructor
  · intro keyOf e hm
    simp [Effect.ofEvent, hx] at hm
  · rfl

theorem quiet_declare (names : List Ident) {values : List Expr}
    (h : ∀ v ∈ values, Node.ReadOnly w.protection (.expr v)) : (declare names values).Quiet w := by
  have hvalues := Aliases.assignAll_empty (names.map .ident) h
  constructor
  · intro keyOf e hm
    simp [Effect.ofEvent, hvalues] at hm
  · simp [Event.rebound, hvalues]

theorem quiet_range {key value : Option Expr} {op : String}
    (h : ∀ v ∈ key.toList ++ value.toList, Node.ReadOnly w.protection (.expr v))
    (hs : ∀ v ∈ key.toList ++ value.toList,
      (if op = "=" then w.protection.isStorage v else w.protection.holds? v.type) = false) :
    (range key value op).Quiet w := by
  have hvars : w.inRange {} key value op = [] := by
    apply List.flatMap_eq_nil_iff.mpr
    intro v hv
    exact Watch.inLoopVariable_empty (h v hv) (hs v hv)
  have hnone : Aliases.assignAll w.protection {} (key.toList ++ value.toList) [] = ({}, []) :=
    Aliases.assignAll_empty _ fun v hv => absurd hv List.not_mem_nil
  constructor
  · intro keyOf e hm
    simp [Effect.ofEvent, hvars, hnone] at hm
  · simp [Event.rebound, hnone]

/-- The events of code that touches nothing are quiet. -/
theorem quiet_of_readOnly (hs : w.strict = false) {n : Node} (h : n.ReadOnly w.protection)
    {event : Event} (he : event ∈ n.own) : event.Quiet w := by
  have hself := h.self
  have hexpr : ∀ {x : Expr}, .expr x ∈ n.children → Node.ReadOnly w.protection (.expr x) :=
    fun hx => h.child hx
  cases n with
  | expr e =>
    cases e with
    | call fn args info =>
      rw [List.mem_singleton.mp he]
      apply quiet_call hs hself
      intro arg ha
      exact hexpr (List.mem_cons_of_mem _ (List.mem_map_of_mem ha))
    | _ => simp [Node.own] at he
  | stmt st =>
    cases st with
    | assign left op right pos =>
      rw [List.mem_singleton.mp he]
      refine quiet_assign op (fun e hm => ?_) (by simpa [Node.touches] using hself) fun v hm => ?_
      · exact hexpr (List.mem_append_left _ (List.mem_map_of_mem hm))
      · exact hexpr (List.mem_append_right _ (List.mem_map_of_mem hm))
    | incDec x op pos =>
      rw [List.mem_singleton.mp he]
      exact quiet_incDec (hexpr List.mem_cons_self) hself pos
    | decl names values type pos =>
      rw [List.mem_singleton.mp he]
      apply quiet_declare
      intro v hm
      exact hexpr (List.mem_append_right _ (List.mem_map_of_mem hm))
    | range x body key value op pos =>
      rw [List.mem_singleton.mp he]
      refine quiet_range (fun v hm => ?_) fun v hm => ?_
      · have hvar : .expr v ∈ Node.expr? key ++ Node.expr? value := by
          rw [Node.expr?, Node.expr?, Node.exprs, Node.exprs, ← List.map_append]
          exact List.mem_map_of_mem hm
        exact hexpr (List.mem_append_left _ hvar)
      · exact eq_false_of_ne_true (List.any_eq_false.mp hself v hm)
    | _ => simp [Node.own] at he
  | _ => simp [Node.own] at he

end Event

theorem Effect.ofEvents_quiet {events : List Event} (h : ∀ event ∈ events, event.Quiet w)
    (keyOf : Call → String) {e : Effect} (he : e ∈ ofEvents w keyOf {} events) :
    ∃ callee, e = .calls callee := by
  induction events with
  | nil => simp [ofEvents] at he
  | cons event events ih =>
    have hfirst := h event List.mem_cons_self
    rw [ofEvents, hfirst.rebound, List.mem_append] at he
    rcases he with he | he
    · exact hfirst.effects keyOf e he
    · exact ih (fun a hm => h a (List.mem_cons_of_mem _ hm)) he

end Empty

def FuncDecl.pieces (f : FuncDecl) : List Node :=
  match f.body with
  | some b => (Node.stmt (.block b)).walk
  | none => []

theorem FuncDecl.quiet_events {w : Watch} (hs : w.strict = false) {f : FuncDecl}
    (h : ∀ n ∈ f.pieces, n.touches w.protection = false) {event : Event} (he : event ∈ f.events) :
    event.Quiet w := by
  obtain ⟨n, hn, hown⟩ := mem_events.mp he
  unfold reached at hn
  unfold pieces at h
  cases hb : f.body with
  | none => simp [hb] at hn
  | some b =>
    rw [hb] at hn h
    have hbody : Node.ReadOnly w.protection (.stmt (.block b)) := h
    exact Event.quiet_of_readOnly hs (hbody.of_mem (Node.mem_walk_of_reached hn)) hown

namespace CallGraph

variable {g : CallGraph} {c : Closure}

theorem marks_unmarked (hk : g.keys.Nodup) (h : ∀ key, g.modifies key = false) :
    g.marks = List.replicate g.size false := by
  apply List.eq_replicate_iff.mpr
  refine ⟨by simp [marks, size], fun mark hm => ?_⟩
  obtain ⟨f, hf, rfl⟩ := List.mem_map.mp hm
  rw [← modifies_of_get? (get?_of_mem hk hf)]
  exact h f.key

theorem not_contaminated (h : ∀ key, g.modifies key = false) (key : String) :
    ¬ g.Contaminated key := by
  rintro ⟨target, -, hm⟩
  rw [h target] at hm
  cases hm

/-- Where no function is marked, the first sweep is the last one and marks none. -/
theorem SweepsTo.unmarked (hc : SweepsTo g c) (hk : g.keys.Nodup)
    (h : ∀ key, g.modifies key = false) : c.passes = 1 ∧ ∀ key, c.graph.modifies key = false := by
  constructor
  · cases hc with
    | stable _ => rfl
    | again hne _ =>
      have hs := Sweep.run_holds g
      have hk' : (Sweep.run g).graph.keys.Nodup := by rwa [hs.spread.sameUnit.keys]
      have h' : ∀ key, (Sweep.run g).graph.modifies key = false := fun key =>
        Bool.eq_false_iff.mpr fun hm => not_contaminated h key (hs.sound key hm)
      rw [marks_unmarked hk' h', marks_unmarked hk h, size_of_spread hs.spread] at hne
      exact absurd rfl hne
  · intro key
    exact Bool.eq_false_iff.mpr fun hm => not_contaminated h key (hc.sound hm)

end CallGraph

namespace Run

structure Idle (r : Run) : Prop where
  issues : r.issues.issues = []
  modifies : ∀ key, r.graph.modifies key = false
  received : ∀ key, r.graph.received key = ([], [])

theorem Idle.absorb {r : Run} (h : r.Idle) (recording : Bool) (key callee : String) :
    (r.absorb recording key (.calls callee)).Idle := by
  cases recording with
  | false => exact h
  | true =>
    have hm := r.graph.modifies_recordCall key callee
    have hr := r.graph.received_recordCall key callee
    exact ⟨h.issues, fun k => (hm k).trans (h.modifies k), fun k => (hr k).trans (h.received k)⟩

theorem Idle.taints {r : Run} (h : r.Idle) (hk : r.graph.keys.Nodup) : r.graph.taints = [] := by
  apply List.flatMap_eq_nil_iff.mpr
  intro f hf
  have hr := h.received f.key
  rw [CallGraph.received_of_get? (CallGraph.get?_of_mem hk hf)] at hr
  simp [(Prod.mk.inj hr).1]

theorem kept_idle {w : Watch} (hs : w.strict = false) {g : CallGraph}
    (hg : ∀ f ∈ g.functions, ∀ n ∈ f.decl.pieces, n.touches w.protection = false) :
    Kept w (fun _ s => s = {}) fun r => r.graph.SameUnit g ∧ r.Idle where
  frame r queue aliases h := ⟨h.1, h.2.issues, h.2.modifies, h.2.received⟩
  absorb r recording f f' s e _ h hf hd hempty hm := by
    subst hempty
    obtain ⟨f₀, hf₀, -, hd₀⟩ := h.1.get?_decl hf
    have hquiet : ∀ event ∈ f.decl.events, event.Quiet w := by
      rw [hd, ← hd₀]
      exact fun event he => FuncDecl.quiet_events hs (hg f₀ (CallGraph.get?_mem hf₀)) he
    obtain ⟨callee, rfl⟩ := Effect.ofEvents_quiet hquiet _ hm
    exact ⟨(sameUnit_absorb recording f.key r _).symm.trans h.1, h.2.absorb recording f.key callee⟩
  first _ := rfl
  again r f _ h hf := by
    have hr := h.2.received f.key
    rw [CallGraph.received_of_get? hf] at hr
    simp [seeded, FuncRecord.bound, (Prod.mk.inj hr).1]

end Run

namespace Policy

variable {q : Policy} {u : SourceUnit}

theorem idle_start (u : SourceUnit) : (Run.start u).Idle :=
  have hb := CallGraph.blank_ofUnit u
  ⟨rfl, fun key => hb.known key (·.modifies) fun _ _ => rfl,
    fun key => hb.known key FuncRecord.received fun _ _ => rfl⟩

/-- Where no function touches anything, the first pass finds nothing and leaves nothing to look at
again. -/
theorem taintPass_idle (hs : q.strict = false)
    (h : ∀ f ∈ (CallGraph.ofUnit u).functions, ∀ n ∈ f.decl.pieces,
      n.touches q.protection = false) :
    (q.settled u).Idle ∧ (q.walked u).count = 0 := by
  have hkept := Run.kept_idle (w := q.watch) hs h
  have hw := Run.firstPass_walked q.watch u
  obtain ⟨-, hidle⟩ := hkept.walks (Run.valid_start u) ⟨.refl _, idle_start u⟩ _
    (Run.listed_start u)
  change (Run.firstPass q.watch (.start u)).Idle at hidle
  have hqueue : (Run.firstPass q.watch (.start u)).queue.pending = [] := by
    have hpaid := hw.paid.queue
    have htaints := hidle.taints hw.valid.budget.keys
    rw [htaints] at hpaid
    have hzero : (Run.start u).queue.pending.length = 0 := rfl
    apply List.length_eq_zero_iff.mp
    simp only [List.length_nil] at hpaid
    omega
  have hpass : q.walked u = { count := 0, run := Run.firstPass q.watch (.start u) } := by
    have hnone := Queue.pop?_eq_none_iff.mpr hqueue
    change Run.rewalk q.watch (Run.argumentCount _ + 1) (Run.firstPass q.watch (.start u)) = _
    rw [Run.rewalk, hnone]
  unfold settled
  rw [hpass]
  exact ⟨hidle, rfl⟩

section Idle

variable (hidle : (q.settled u).Idle)

include hidle

/-- No mark is set before the marks spread, so none is there to spread. -/
theorem unmarked_of_idle : (q.findings u).passes = 1 ∧
    ∀ f ∈ (q.findings u).graph.functions, f.modifies = false := by
  have hkeys := (q.settled_valid u).1.budget.keys
  obtain ⟨hpasses, hunmarked⟩ :=
    (CallGraph.propagate_sweepsTo _).unmarked hkeys hidle.modifies
  refine ⟨hpasses, fun f hf => ?_⟩
  rw [← CallGraph.modifies_of_get? (q.findings_get? u hf), findings_graph]
  exact hunmarked f.key

theorem issues_of_idle : (q.findings u).issues = [] := by
  apply List.eq_nil_iff_forall_not_mem.mpr
  intro i hi
  rcases (q.mem_findings_issues u).mp hi with hi | hi
  · rw [← (q.settled_accounted u).issues, hidle.issues] at hi
    cases hi
  · obtain ⟨x, hx, -⟩ := Run.mem_contaminatedIssues.mp hi
    obtain ⟨-, -, g, hg, -, -, hm, -⟩ := q.exists_of_found u hx
    rw [(unmarked_of_idle hidle).2 g hg] at hm
    cases hm

theorem tainted_of_idle {f : FuncRecord} (hf : f ∈ (q.findings u).graph.functions) :
    f.tainted = [] := by
  obtain ⟨f₀, hf₀, hff⟩ := (q.findings_spread u).get?_back (q.findings_get? u hf)
  have hr := hidle.received f.key
  rw [CallGraph.received_of_get? hf₀, ← hff.received] at hr
  exact (Prod.mk.inj hr).1

end Idle

/-- Pure readers are never accused: if no function touches protected storage, nothing is found, no
function is marked or has a tainted parameter, and nothing is looked at a second time. -/
theorem check_pure_reader (q : Policy) (u : SourceUnit) (found : Findings)
    (h : q.check u = .checked found) (hs : q.strict = false)
    (hread : ∀ f ∈ found.graph.functions, ∀ n ∈ f.decl.pieces, n.touches q.protection = false) :
    found.issues = [] ∧ (∀ f ∈ found.graph.functions, f.modifies = false ∧ f.tainted = []) ∧
      found.rewalks = 0 ∧ found.passes = 1 := by
  rw [check_eq_checked h] at hread ⊢
  have hdecls : ∀ f ∈ (CallGraph.ofUnit u).functions, ∀ n ∈ f.decl.pieces,
      n.touches q.protection = false := by
    intro f hf
    have hget := CallGraph.get?_of_mem (CallGraph.blank_ofUnit u).keys hf
    obtain ⟨f', hf', -, hd⟩ := (q.findings_sameUnit u).get?_decl hget
    rw [← hd]
    exact hread f' (CallGraph.get?_mem hf')
  obtain ⟨hidle, hrewalks⟩ := taintPass_idle hs hdecls
  obtain ⟨hpasses, hunmarked⟩ := unmarked_of_idle hidle
  refine ⟨issues_of_idle hidle, fun f hf => ?_, hrewalks, hpasses⟩
  exact ⟨hunmarked f hf, tainted_of_idle hidle hf⟩

end Policy

def FuncDecl.peek : FuncDecl where
  name := "peek"
  params := [{ name := "q" }]
  body := some (.mk [
    .assign [.ident { name := "x" }] ":=" [.ident { name := "q" }] {},
    .assign [.star (.ident { name := "x" }) {}] "=" [.selector (.ident
      { name := "d", info := ⟨some (.named "data" "BigStruct"), {}⟩ }) "n" {}] {},
    .expr (.call (.ident { name := "peek" }) [.ident { name := "x" }] {}) {}] {})

def SourceUnit.peeker : SourceUnit where
  name := "reader"
  files := [⟨"peek.go", "reader", [.peek]⟩]

theorem Policy.check_pure_reader_peeker :
    check {} .peeker = .checked (findings {} .peeker) ∧
      (findings {} .peeker).graph.functions.map (·.calls) = [["reader.peek"]] ∧
      (findings {} .peeker).issues = [] ∧
      (∀ f ∈ (findings {} .peeker).graph.functions, f.modifies = false ∧ f.tainted = []) ∧
      (findings {} .peeker).rewalks = 0 ∧ (findings {} .peeker).passes = 1 := by
  have hread : ((findings {} .peeker).graph.functions.all fun f =>
      f.decl.pieces.all fun n => !n.touches (protection {})) = true := by decide +kernel
  refine ⟨rfl, by decide +kernel, check_pure_reader {} .peeker _ rfl rfl fun f hf n hn => ?_⟩
  have htouch := List.all_eq_true.mp (List.all_eq_true.mp hread f hf) n hn
  simpa using htouch

end ReadGuard
