import ReadGuard.Proofs.Check.Provenance
import ReadGuard.Proofs.Check.Repetition
import ReadGuard.Proofs.Load.Plain

namespace ReadGuard

def Expr.Plain (e : Expr) : Prop := (Node.expr e).AllPlain

namespace Expr.Plain

variable {e x : Expr}

theorem part (h : e.Plain) (hx : .expr x ∈ Node.ofExpr e) : x.Plain := Node.AllPlain.child h hx

theorem unparen (h : e.Plain) : e.unparen.Plain := Node.AllPlain.unparen h

theorem render (h : e.Plain) : OneLine e.render := oneLine_render h

theorem ident {id : Ident} (h : (Expr.ident id).Plain) : OneLine id.name ∧ OneLine id.package :=
  ⟨h.self.words _ (by simp [Node.words]), h.self.words _ (by simp [Node.words])⟩

theorem selector {name : String} {info : Info} (h : (Expr.selector x name info).Plain) :
    x.Plain ∧ OneLine name :=
  ⟨h.part (by simp [Node.ofExpr]), h.self.words _ (by simp [Node.words])⟩

end Expr.Plain

theorem Protection.fieldRoot_mem_walk {p : Protection} {field : Expr} : (e : Expr) →
    p.fieldRoot e = some field → .expr field ∈ (Node.expr e).walk
  | .paren x _, h =>
    Node.mem_walk_of_child (by simp [Node.children, Node.ofExpr]) (fieldRoot_mem_walk x h)
  | .selector x name info, h => by
    rw [fieldRoot] at h
    split at h
    · cases h
      exact Node.mem_walk_self _
    · split at h
      · exact Node.mem_walk_of_child (by simp [Node.children, Node.ofExpr])
          (fieldRoot_mem_walk x h)
      · cases h
  | .index x i info, h => by
    rw [fieldRoot] at h
    split at h
    · cases h
      exact Node.mem_walk_of_child (by simp [Node.children, Node.ofExpr]) (Node.unparen_mem_walk x)
    · split at h
      · exact Node.mem_walk_of_child (by simp [Node.children, Node.ofExpr])
          (fieldRoot_mem_walk x h)
      · cases h

theorem Expr.Plain.fieldRoot {p : Protection} {e field : Expr} (h : e.Plain)
    (hf : p.fieldRoot e = some field) : field.Plain :=
  Node.AllPlain.of_mem h (p.fieldRoot_mem_walk e hf)

theorem Expr.Plain.addressed {p : Protection} {e field : Expr} (h : e.Plain)
    (hf : p.addressed e = some field) : field.Plain := by
  obtain ⟨x, info, rfl, hx⟩ := Protection.exists_of_addressed hf
  exact (h.part (by simp [Node.ofExpr])).fieldRoot hx

section Targets

variable {s : Aliases} (hs : s.LeadsTo Expr.Plain) {p : Protection}

include hs

theorem Aliases.root_plain {via : String} {field : Expr} : (x : Expr) → x.Plain →
    s.root x = some (via, field) → OneLine via ∧ field.Plain
  | .paren x _, hx, h | .star x _, hx, h | .selector x _ _, hx, h =>
    root_plain x (hx.part (by simp [Node.ofExpr])) h
  | .ident id, hx, h => by
    obtain ⟨field, hf, he⟩ := Option.map_eq_some_iff.1 h
    cases he
    exact ⟨hx.ident.1, hs.resolve hf⟩

theorem Aliases.ofExpr_plain {via : String} {x field : Expr} (hx : x.Plain)
    (h : s.ofExpr x = some (via, field)) : OneLine via ∧ field.Plain := by
  unfold ofExpr at h
  split at h
  · rename_i id hu
    exact root_plain hs (.ident id) (hu ▸ hx.unparen) h
  · cases h

end Targets

structure WriteTarget.Plain (t : WriteTarget) : Prop where
  expr : t.expr.Plain
  field : t.field.Plain
  via : OneLine t.via

namespace WriteTarget

variable {s : Aliases} {p : Protection} {t : WriteTarget}

theorem ofAlias_plain {kind : TargetKind} {target : Expr} (ht : target.Plain)
    {found : Option (String × Expr)}
    (hf : ∀ via field, found = some (via, field) → OneLine via ∧ field.Plain)
    (h : ofAlias kind target found = some t) : t.Plain := by
  obtain ⟨⟨via, field⟩, he, rfl⟩ := Option.map_eq_some_iff.1 h
  obtain ⟨hvia, hfield⟩ := hf via field he
  exact ⟨ht, hfield, hvia⟩

theorem classify_plain (hs : s.LeadsTo Expr.Plain) {e : Expr} (he : e.Plain)
    (h : classify p s e = some t) : t.Plain := by
  have hempty : OneLine "" := .fixed rfl
  have hu := he.unparen
  unfold classify at h
  split at h
  · rename_i x i info hx
    rw [hx] at hu
    have hpart : x.Plain := hu.part (by simp [Node.ofExpr])
    unfold ofIndex at h
    split at h
    · rename_i field hf
      cases h
      exact ⟨hu, hpart.fieldRoot hf, hempty⟩
    · exact ofAlias_plain hu (fun _ _ => Aliases.root_plain hs x hpart) h
  · rename_i x info hx
    rw [hx] at hu
    have hpart : x.Plain := hu.part (by simp [Node.ofExpr])
    unfold ofStar at h
    split at h
    · rename_i field hf
      cases h
      exact ⟨hu, hpart.unparen.addressed hf, hpart.unparen.render⟩
    · exact ofAlias_plain hu (fun _ _ => Aliases.ofExpr_plain hs hpart) h
  · rename_i x name info hx
    rw [hx] at hu
    have hpart : x.Plain := hu.part (by simp [Node.ofExpr])
    unfold ofSelector at h
    split at h
    · rename_i field hf
      cases h
      exact ⟨hu, hu.fieldRoot hf, hempty⟩
    · exact ofAlias_plain hu (fun _ _ => Aliases.root_plain hs x hpart) h
  · cases h

end WriteTarget

namespace Watch

variable {w : Watch} (hw : OneLine w.protectedName) {s : Aliases} {t : WriteTarget} {i : Issue}
  {pos : Position}

theorem oneLine_of_writer? {c : Call} {name : String} (hfn : c.fn.Plain)
    (h : writer? c = some name) : OneLine name := by
  unfold writer? at h
  split at h
  · rename_i id hu
    split at h
    · cases h
      exact (hu ▸ hfn.unparen).ident.1
    · cases h
  · cases h

theorem oneLine_throughText {via : String} (h : OneLine via) : OneLine (throughText via) := by
  unfold throughText
  split
  · exact .fixed rfl
  · exact oneLine_append.2 ⟨.fixed rfl, h⟩

include hw

theorem oneLine_targetText (ht : t.Plain) : OneLine (w.targetText t) := by
  unfold targetText
  split
  · simp only [oneLine_append]
    exact ⟨⟨ht.expr.render, .fixed rfl⟩, hw⟩
  · simp only [oneLine_append]
    exact ⟨⟨ht.field.render, .fixed rfl⟩, ht.via⟩
  · simp only [oneLine_append]
    exact ⟨⟨⟨ht.expr.render, .fixed rfl⟩, ht.field.render⟩, oneLine_throughText ht.via⟩

theorem written_plain (f : WriteForm) (hpos : OneLine pos.file) (ht : t.Plain) :
    (w.written f pos t).Plain := by
  have hwords : OneLine (f.words t.kind) := by cases f <;> cases t.kind <;> exact .fixed rfl
  exact ⟨hpos, oneLine_append.2 ⟨hwords, oneLine_targetText hw ht⟩⟩

theorem inMethodCall_plain {c : Call} (hfn : c.fn.Plain) (hpos : OneLine c.info.pos.file)
    (h : i ∈ w.inMethodCall c) : i.Plain := by
  unfold inMethodCall at h
  split at h
  · split at h
    · rename_i x method info hu
      split at h
      · rw [List.mem_singleton.1 h]
        refine ⟨hpos, ?_⟩
        simp only [oneLine_append]
        exact ⟨⟨⟨.fixed rfl, (hu ▸ hfn.unparen).selector.2⟩, .fixed rfl⟩, hw⟩
      · cases h
    · cases h
  · cases h

variable (hs : s.LeadsTo Expr.Plain)

include hs

theorem inAssign_plain {left : List Expr} (hl : ∀ e ∈ left, e.Plain) (h : i ∈ w.inAssign s left) :
    i.Plain := by
  obtain ⟨e, he, hi⟩ := List.mem_filterMap.1 h
  obtain ⟨t, ht, rfl⟩ := Option.map_eq_some_iff.1 hi
  exact written_plain hw .assign (hl e he).self.file (WriteTarget.classify_plain hs (hl e he) ht)

theorem inIncDec_plain {x : Expr} (hx : x.Plain) (hpos : OneLine pos.file)
    (h : i ∈ w.inIncDec s x pos) : i.Plain := by
  obtain ⟨t, ht, rfl⟩ := Option.map_eq_some_iff.1 (Option.mem_toList.1 h)
  exact written_plain hw .step hpos (WriteTarget.classify_plain hs hx ht)

theorem inRange_plain {key value : Option Expr} {op : String}
    (hl : ∀ e ∈ key.toList ++ value.toList, e.Plain) (h : i ∈ w.inRange s key value op) :
    i.Plain := by
  obtain ⟨v, hv, hi⟩ := List.mem_flatMap.1 h
  have hplain := hl v hv
  unfold inLoopVariable at hi
  split at hi
  · exact inAssign_plain hw hs (by simpa using hplain) hi
  · split at hi
    · rw [List.mem_singleton.1 hi]
      refine ⟨hplain.self.file, ?_⟩
      simp only [oneLine_append]
      exact ⟨⟨⟨.fixed rfl, hplain.render⟩, .fixed rfl⟩, hw⟩
    · cases hi

omit hw in
theorem inBuiltinCall_plain {c : Call} (hfn : c.fn.Plain) (hargs : ∀ e ∈ c.args, e.Plain)
    (hpos : OneLine c.info.pos.file) (h : i ∈ w.inBuiltinCall s c) : i.Plain := by
  unfold inBuiltinCall at h
  split at h
  · rename_i name x rest hn ha
    split at h
    · rename_i via field hc
      have hname : OneLine name := oneLine_of_writer? hfn hn
      have hx : x.Plain := hargs x (by simp [ha])
      have hfound : OneLine via ∧ field.Plain := by
        unfold container at hc
        split at hc
        · rename_i root hroot
          cases hc
          exact ⟨.fixed rfl, hx.fieldRoot hroot⟩
        · exact Aliases.root_plain hs x hx hc
      rw [List.mem_singleton.1 h]
      refine ⟨hpos, ?_⟩
      simp only [oneLine_append]
      exact ⟨⟨⟨⟨.fixed rfl, hname⟩, .fixed rfl⟩, hfound.2.render⟩, oneLine_throughText hfound.1⟩
    · cases h
  · cases h

end Watch

theorem Ty.Everywhere.stripPointers {P : Ty → Prop} {t : Ty} (h : t.Everywhere P) :
    t.stripPointers.Everywhere P := by
  fun_induction Ty.stripPointers t with
  | case1 elem ih => exact ih (h.part (by simp [Ty.parts]))
  | case2 t => exact h

namespace CallGraph

variable {g : CallGraph} (hg : OneLine g.unitName)

theorem oneLine_methodKey? {unitOf : String → String} {type : Option Ty} {method key : String}
    (hu : ∀ path, OneLine path → OneLine (unitOf path))
    (ht : ∀ t ∈ type, t.Everywhere Ty.Proper) (hm : OneLine method)
    (h : methodKey? unitOf type method = some key) : OneLine key := by
  unfold methodKey? at h
  split at h
  · rename_i path name hn
    cases h
    obtain ⟨t, htype, hstrip⟩ := Option.map_eq_some_iff.1 hn
    have hnamed : Ty.Proper (.named path name) :=
      (Ty.everywhere_iff.1 (hstrip ▸ (ht t htype).stripPointers)).1
    obtain ⟨hpath, hname⟩ := hnamed.oneLine_named
    simp only [oneLine_append]
    exact ⟨⟨⟨⟨hu path hpath, .fixed rfl⟩, hname⟩, .fixed rfl⟩, hm⟩
  · cases h

include hg

theorem oneLine_unitOf {path : String} (h : OneLine path) : OneLine (g.unitOf path) := by
  unfold unitOf
  split
  · exact hg
  · exact Ty.oneLine_packageName h

theorem oneLine_identKey {id : Ident} (h : (Expr.ident id).Plain) : OneLine (g.identKey id) := by
  obtain ⟨hname, hpackage⟩ := h.ident
  have hdot : OneLine "." := .fixed rfl
  unfold identKey
  split
  · exact hname
  · split
    · simp only [oneLine_append]
      exact ⟨⟨Ty.oneLine_packageName hpackage, hdot⟩, hname⟩
    · split
      · simp only [oneLine_append]
        exact ⟨⟨hg, hdot⟩, hname⟩
      · exact hname

theorem oneLine_selectorKey {x : Expr} {field : String} (hx : x.Plain) (hf : OneLine field) :
    OneLine (g.selectorKey x field) := by
  have hmethod {type : Option Ty} (ht : ∀ t ∈ type, t.Everywhere Ty.Proper) :
      OneLine ((methodKey? g.unitOf type field).getD field) := by
    cases hk : methodKey? g.unitOf type field with
    | none => exact hf
    | some key => exact oneLine_methodKey? (fun _ => oneLine_unitOf hg) ht hf hk
  have hu := hx.unparen
  unfold selectorKey
  split
  · rename_i id hid
    rw [hid] at hu
    split
    · exact oneLine_append.2 ⟨oneLine_append.2 ⟨hu.ident.1, .fixed rfl⟩, hf⟩
    · have ht : ∀ t ∈ id.info.type, t.Everywhere Ty.Proper := hu.self.types
      exact hmethod ht
  · have ht : ∀ t ∈ x.unparen.type, t.Everywhere Ty.Proper := hu.self.types
    exact hmethod ht

theorem oneLine_calleeKey {c : Call} (h : c.fn.Plain) : OneLine (g.calleeKey c) := by
  have hu := h.unparen
  unfold calleeKey
  split
  · rename_i id hid
    exact oneLine_identKey hg (hid ▸ hu)
  · rename_i x field info hx
    rw [hx] at hu
    exact oneLine_selectorKey hg hu.selector.1 hu.selector.2
  · exact hu.render

end CallGraph

namespace Node.AllPlain

variable {n : Node} (hn : n.AllPlain) {w : Watch} (hw : OneLine w.protectedName) {s : Aliases}
  (hs : s.LeadsTo Expr.Plain)

include hn

theorem call {c : Call} (h : n.call? = some c) :
    c.fn.Plain ∧ (∀ e ∈ c.args, e.Plain) ∧ OneLine c.info.pos.file := by
  cases n with
  | expr e =>
    cases e with
    | call fn args info =>
      cases h
      refine ⟨hn.child (by simp [children, ofExpr]), fun e he => hn.child ?_, hn.self.file⟩
      exact List.mem_cons_of_mem _ (List.mem_map_of_mem he)
    | _ => cases h
  | _ => cases h

include hw hs

theorem breaches {event : Event} (he : event ∈ n.own) {i : Issue} (hi : i ∈ event.breaches w s) :
    i.Plain := by
  cases n with
  | expr e =>
    cases e with
    | call fn args info =>
      obtain ⟨hfn, hargs, hpos⟩ := hn.call rfl
      cases List.mem_singleton.1 he
      obtain hi | hi := List.mem_append.1 hi
      · exact Watch.inMethodCall_plain hw hfn hpos hi
      · exact Watch.inBuiltinCall_plain hs hfn hargs hpos hi
    | _ => cases he
  | stmt st =>
    cases st with
    | assign left op right pos =>
      cases List.mem_singleton.1 he
      have hleft : ∀ e ∈ left, e.Plain := fun e he =>
        hn.child (List.mem_append_left _ (List.mem_map_of_mem he))
      exact Watch.inAssign_plain hw hs hleft hi
    | incDec x op pos =>
      cases List.mem_singleton.1 he
      exact Watch.inIncDec_plain hw hs (hn.child List.mem_cons_self) hn.self.file hi
    | decl names values type pos =>
      cases List.mem_singleton.1 he
      cases hi
    | range x body key value op pos =>
      cases List.mem_singleton.1 he
      have hvariables : ∀ e ∈ key.toList ++ value.toList, e.Plain := by
        intro e he
        have hm : Node.expr e ∈ expr? key ++ expr? value := by
          rw [expr?, expr?, exprs, exprs, ← List.map_append]
          exact List.mem_map_of_mem he
        exact hn.child (List.mem_append_left _ hm)
      exact Watch.inRange_plain hw hs hvariables hi
    | _ => cases he
  | _ => cases he

end Node.AllPlain

namespace Run

variable {pos : Position} {callee : String} (hpos : OneLine pos.file) (hkey : OneLine callee)

include hpos hkey

theorem escapeIssue_plain {source : Expr} (hs : source.Plain) :
    (escapeIssue pos source callee).Plain := by
  unfold escapeIssue escapeMessage
  refine ⟨hpos, ?_⟩
  simp only [oneLine_append]
  exact ⟨⟨⟨.fixed rfl, hs.render⟩, .fixed rfl⟩, hkey⟩

theorem contaminatedIssue_plain {w : Watch} (hw : OneLine w.protectedName) :
    (contaminatedIssue w pos callee).Plain := by
  unfold contaminatedIssue contaminatedMessage
  refine ⟨hpos, ?_⟩
  simp only [oneLine_append]
  exact ⟨⟨⟨⟨.fixed rfl, hkey⟩, .fixed rfl⟩, hw⟩, .fixed rfl⟩

end Run

namespace Action

def reported (w : Watch) (s : Aliases) (a : Action) : List Issue :=
  (a.effects w s).flatMap Effect.reported

variable {w : Watch} {s : Aliases} {i : Issue}

theorem reported_judges (event : Event) : (judges event).reported w s = event.breaches w s :=
  Effect.reported_breach _

theorem reported_passes (pos : Position) (callee : String) (index : Nat) (arg : Expr) :
    (passes pos callee index arg).reported w s =
      (Run.escaping w s arg).toList.map fun source => Run.escapeIssue pos source callee := by
  cases he : Run.escaping w s arg <;> simp [reported, effects, Effect.reported, he]

theorem reported_assignments {a : Action} {names values : List Expr}
    (ha : a ∈ assignments names values) : a.reported w s = [] := by
  obtain ⟨pair, -, rfl⟩ := List.mem_map.1 ha
  exact Effect.reported_binds _

/-- What the actions of a node report has no line feeds. -/
theorem reported_plain {n : Node} (hn : n.AllPlain) (hw : OneLine w.protectedName)
    (hs : s.LeadsTo Expr.Plain) {keyOf : Call → String}
    (hkey : ∀ c : Call, c.fn.Plain → OneLine (keyOf c)) {event : Event} (he : event ∈ n.own)
    {a : Action} (ha : a ∈ event.actions keyOf) (hi : i ∈ a.reported w s) : i.Plain := by
  have hjudges (hj : a = judges event) : i.Plain := by
    subst hj
    rw [reported_judges] at hi
    exact hn.breaches hw hs he hi
  have hassigns {names values : List Expr} (h : a ∈ assignments names values) : i.Plain := by
    rw [reported_assignments h] at hi
    cases hi
  cases event with
  | call c =>
    obtain ⟨hfn, hargs, hpos⟩ := hn.call (Node.call_mem_own.1 he)
    simp only [Event.actions, List.mem_cons, List.mem_map] at ha
    obtain rfl | hj | ⟨⟨arg, index⟩, hm, rfl⟩ := ha
    · cases hi
    · exact hjudges hj
    · rw [reported_passes] at hi
      obtain ⟨source, hsource, rfl⟩ := List.mem_map.1 hi
      have harg := hargs arg (List.fst_mem_of_mem_zipIdx hm)
      have hplain : source.Plain := Run.escaping_of_leadsTo hs
        (fun _ => harg.unparen.addressed) (Option.mem_toList.1 hsource)
      exact Run.escapeIssue_plain hpos (hkey c hfn) hplain
  | assign left op right =>
    simp only [Event.actions, List.mem_cons] at ha
    obtain hj | ha := ha
    · exact hjudges hj
    · split at ha
      · exact hassigns ha
      · cases ha
  | incDec x pos => exact hjudges (List.mem_singleton.1 ha)
  | declare names values => exact hassigns ha
  | range key value op =>
    simp only [Event.actions, List.mem_cons] at ha
    obtain hj | ha := ha
    · exact hjudges hj
    · exact hassigns ha

end Action

theorem Run.reports_act (w : Watch) (recording : Bool) (key : String) (r : Run) (a : Action) :
    (r.act w recording key a).reports = r.reports ++ a.reported w r.aliases := by
  rw [act_eq]
  exact (Reporting.absorbAll recording key r _).reports

namespace CallGraph

theorem foldl_register_frame (decls : List FuncDecl) (g : CallGraph) :
    (decls.foldl register g).unitName = g.unitName ∧
      ∀ f ∈ (decls.foldl register g).functions, f ∈ g.functions ∨ f.decl ∈ decls := by
  induction decls generalizing g with
  | nil => exact ⟨rfl, fun f hf => .inl hf⟩
  | cons d decls ih =>
    obtain ⟨hname, hfunctions⟩ := ih (g.register d)
    have hstep : (g.register d).unitName = g.unitName ∧
        ∀ f ∈ (g.register d).functions, f ∈ g.functions ∨ f.decl = d := by
      simp only [register]
      split
      · exact ⟨rfl, fun f hf => .inl hf⟩
      · refine ⟨rfl, fun f hf => ?_⟩
        obtain hf | hf := List.mem_append.1 hf
        · exact .inl hf
        · exact .inr (by rw [List.mem_singleton.1 hf])
    refine ⟨hname.trans hstep.1, fun f hf => ?_⟩
    obtain hf | hf := hfunctions f hf
    · exact (hstep.2 f hf).imp_right fun he => List.mem_cons.2 (.inl he)
    · exact .inr (List.mem_cons_of_mem _ hf)

theorem mem_ofUnit {u : SourceUnit} {f : FuncRecord} (hf : f ∈ (ofUnit u).functions) :
    .func f.decl ∈ (Node.unit u).walk := by
  obtain hf | hf := (foldl_register_frame u.functions (.empty u.name u.path)).2 f hf
  · cases hf
  · obtain ⟨file, hfile, hd⟩ := List.mem_flatMap.1 hf
    exact Node.mem_walk_of_child (List.mem_map_of_mem hfile)
      (Node.mem_walk_of_child (List.mem_map_of_mem hd) (Node.mem_walk_self _))

end CallGraph

namespace Policy

variable {p : Policy} {u : SourceUnit} (hu : (Node.unit u).AllPlain)
  (hp : OneLine p.protectedName)

include hu

theorem oneLine_calleeKey_ofUnit {c : Call} (h : c.fn.Plain) :
    OneLine ((CallGraph.ofUnit u).calleeKey c) := by
  refine CallGraph.oneLine_calleeKey ?_ h
  have hname := (CallGraph.foldl_register_frame u.functions (.empty u.name u.path)).1
  have hword : OneLine u.name := hu.self.words u.name (by simp [Node.words])
  rw [CallGraph.ofUnit, hname]
  exact hword

theorem plain_body {f : FuncRecord} (hf : f ∈ (CallGraph.ofUnit u).functions) {body : Block}
    (hb : f.decl.body = some body) : (Node.stmt (.block body)).AllPlain := by
  refine (hu.of_mem (CallGraph.mem_ofUnit hf)).child ?_
  simp [Node.children, hb]

/-- The place and the key of a call that is found in a function. -/
theorem plain_call {g : CallGraph} (hg : (CallGraph.ofUnit u).SameUnit g) {f : FuncRecord}
    (hf : f ∈ g.functions) {callee : String} {c : Call} (h : g.findCall? f callee = some c) :
    OneLine c.info.pos.file ∧ OneLine callee := by
  obtain ⟨f₀, hf₀, -, hdecl⟩ := hg.exists_decl hf
  unfold CallGraph.findCall? at h
  split at h
  · rename_i body hb
    obtain ⟨n, hn, hc⟩ := List.mem_filterMap.1 (List.mem_of_find?_eq_some h)
    obtain ⟨hfn, -, hpos⟩ := ((plain_body hu hf₀ (hdecl ▸ hb)).of_mem hn).call hc
    have hkey : g.calleeKey c = callee := by simpa using List.find?_some h
    rw [← hkey, hg.calleeKey]
    exact ⟨hpos, oneLine_calleeKey_ofUnit hu hfn⟩
  · cases h

theorem plain_of_addresses {q : Protection} {field : Expr} (h : u.Addresses q field) :
    field.Plain := by
  obtain ⟨f, hf, body, x, info, hb, hm, hx⟩ := h
  have hplain : (Expr.unary "&" x info).Plain := (plain_body hu hf hb).of_mem hm
  exact (hplain.part (by simp [Node.ofExpr])).fieldRoot hx

include hp

/-- Before the marks spread, nothing that has a line feed is reported. -/
theorem stepwise_plain : p.Stepwise u fun r =>
    r.Knows (u.Addresses p.protection) ∧ ∀ i ∈ r.reports, i.Plain where
  declared decls := ⟨(p.invariant_knows u).declared decls, by simp [Run.reports]⟩
  queued r queue h := ⟨(p.invariant_knows u).queued r queue h.1, h.2⟩
  begun r h := ⟨(p.invariant_knows u).begun r h.1, h.2⟩
  seeded r recording f h hf b hb := ⟨(p.invariant_knows u).seeded r recording f h.1 hf b hb, h.2⟩
  acted r recording h hr f hf a ha := by
    refine ⟨(p.invariant_knows u).acted r recording h.1 hr f hf a ha, fun i hi => ?_⟩
    rw [Run.reports_act, List.mem_append] at hi
    obtain hi | hi := hi
    · exact h.2 i hi
    · obtain ⟨event, hev, ha⟩ := List.mem_flatMap.1 ha
      obtain ⟨n, hn, hown⟩ := FuncDecl.mem_events.1 hev
      obtain ⟨body, hb, hn⟩ := FuncDecl.exists_body_of_reached hn
      have hplain : n.AllPlain := (plain_body hu hf hb).of_mem hn
      -- names lead to fields only whose addresses are taken in the unit, so these are in the code
      have hs : r.aliases.LeadsTo Expr.Plain := fun x hx field hfield =>
        plain_of_addresses hu (h.1.aliases x hx field hfield)
      have hkey (c : Call) : c.fn.Plain → OneLine ((CallGraph.ofUnit u).calleeKey c) :=
        oneLine_calleeKey_ofUnit hu
      have hw : OneLine p.watch.protectedName := hp
      exact Action.reported_plain hplain hw hs hkey hown ha hi

theorem findings_plain {i : Issue} (hi : i ∈ (p.findings u).issues) : i.Plain := by
  obtain hi | hi := (p.mem_findings_issues u).1 hi
  · exact ((stepwise_plain hu hp).rewalk _).2.2 i hi
  · obtain ⟨x, hx, c, hsite, -, rfl⟩ := Run.mem_contaminatedIssues.1 hi
    obtain ⟨f, hf, g, -, hkey, -, -, hcall⟩ := p.exists_of_found u hx
    rw [hsite] at hcall
    -- the call was found by the key of the function, so that is the key of the call
    obtain ⟨hpos, hcallee⟩ := plain_call hu (p.findings_sameUnit u) hf hcall.symm
    rw [hkey] at hcallee
    exact Run.contaminatedIssue_plain hpos hcallee hp

theorem check_plain {i : Issue} (hi : i ∈ (p.check u).issues) : i.Plain := by
  rw [check_eq] at hi
  split at hi
  · exact findings_plain hu hp hi
  · cases hi

end Policy

def Policy.written (p : Policy) (u : SourceUnit) (format : Format) (suppressed : List String) :
    Reporter :=
  ({ format, suppressed } : Reporter).emitAll (p.check u).issues

/-- The issues of a loaded unit take one line each in JSON. As text they do so just if no file and
no message has a line feed, and each line feed there is one more in the output. There is none if the
atoms of the dump and the name of the protected type have none. -/
theorem Policy.one_line_per_issue {name text : String} {u : SourceUnit}
    (h : SourceUnit.ofText name text = .ok u) (p : Policy) (format : Format)
    (suppressed : List String) :
    lineFeeds (p.written u format suppressed).output = (p.written u format suppressed).reported +
        ((unsuppressed suppressed (p.check u).issues).map format.breaks).foldr (· + ·) 0 ∧
      ((p.written u format suppressed).OneLineEach (unsuppressed suppressed (p.check u).issues) ↔
        format = .json ∨ ∀ i ∈ unsuppressed suppressed (p.check u).issues, i.Plain) ∧
      (OneLine p.protectedName →
        (∀ raw, Sexp.read text = .ok raw → ∀ w ∈ raw.texts, OneLine w) →
          (p.written u format suppressed).OneLineEach
            (unsuppressed suppressed (p.check u).issues)) := by
  have hiff := Reporter.oneLineEach_emitAll_iff format suppressed (p.check u).issues
  refine ⟨Reporter.lineFeeds_emitAll format suppressed _, hiff, fun hp htexts => ?_⟩
  obtain ⟨raw, hraw⟩ := Load.read_of_ofText h
  have hunit := Load.unitFrom_of_ofText (W := OneLine) (.fixed rfl) (.fixed rfl) hraw
    (htexts raw hraw) h
  exact hiff.2 (.inr fun i hi => p.check_plain hunit.allPlain hp (List.mem_filter.1 hi).1)

def fieldStep : String :=
  "(unit reader (file r (func f (block (incdec (sel (ident d :type data.BigStruct) x) ++)))))"

theorem Policy.one_line_per_issue_step : ∃ u,
    SourceUnit.ofText "r.sexp" fieldStep = .ok u ∧ OneLine ({} : Policy).protectedName ∧
      (∀ raw, Sexp.read fieldStep = .ok raw → ∀ w ∈ raw.texts, OneLine w) ∧
      (Policy.written {} u .text []).reported = 1 ∧
      (Policy.written {} u .text []).OneLineEach (unsuppressed [] (Policy.check {} u).issues) := by
  have hcount : (SourceUnit.ofText "r.sexp" fieldStep).toOption.map (fun u =>
      (Policy.written {} u .text []).reported) = some 1 := by
    decide +kernel
  have hread : (Sexp.read fieldStep).toOption.all (fun raw =>
      raw.texts.all fun w => decide (OneLine w)) = true := by
    decide +kernel
  have hname : OneLine ({} : Policy).protectedName := by decide +kernel
  have htexts : ∀ raw, Sexp.read fieldStep = .ok raw → ∀ w ∈ raw.texts, OneLine w := by
    intro raw hraw
    rw [hraw] at hread
    simpa [Except.toOption] using hread
  cases hu : SourceUnit.ofText "r.sexp" fieldStep with
  | error e =>
    rw [hu] at hcount
    cases hcount
  | ok u =>
    rw [hu] at hcount
    exact ⟨u, rfl, hname, htexts, Option.some.inj hcount,
      (Policy.one_line_per_issue hu {} .text []).2.2 hname htexts⟩

def brokenStep : String :=
  "(unit reader (file r (func f (block
    (incdec (sel (ident d :type data.BigStruct) \"x\\ny\") ++)))))"

/-- A line feed in the name of a field breaks the line of its issue. -/
theorem Policy.two_lines_for_one_issue : ∃ u,
    SourceUnit.ofText "r.sexp" brokenStep = .ok u ∧
      (Policy.written {} u .text []).reported = 1 ∧
      lineFeeds (Policy.written {} u .text []).output = 2 := by
  have hcount : (SourceUnit.ofText "r.sexp" brokenStep).toOption.map (fun u =>
      ((Policy.written {} u .text []).reported, lineFeeds (Policy.written {} u .text []).output)) =
        some (1, 2) := by
    decide +kernel
  cases hu : SourceUnit.ofText "r.sexp" brokenStep with
  | error e =>
    rw [hu] at hcount
    cases hcount
  | ok u =>
    rw [hu] at hcount
    obtain ⟨hreported, hfeeds⟩ := Prod.mk.inj (Option.some.inj hcount)
    exact ⟨u, rfl, hreported, hfeeds⟩

end ReadGuard
