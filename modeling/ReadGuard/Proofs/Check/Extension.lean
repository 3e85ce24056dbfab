import ReadGuard.Proofs.Check.Least
import ReadGuard.Proofs.Check.Reports

namespace ReadGuard

namespace Node

def ident? : Node → Option Ident
  | .expr (.ident id) => some id
  | _ => none

def identifiers (n : Node) : List Ident := n.walk.filterMap ident?

theorem mem_identifiers {n : Node} {id : Ident} :
    id ∈ n.identifiers ↔ .expr (.ident id) ∈ n.walk := by
  rw [identifiers, List.mem_filterMap]
  constructor
  · rintro ⟨m, hm, hid⟩
    cases m with
    | expr e =>
      cases e with
      | ident id' =>
        cases hid
        exact hm
      | _ => cases hid
    | _ => cases hid
  · intro h
    exact ⟨_, h, rfl⟩

theorem callee_mem_walk {n : Node} {c : Call} (hc : c ∈ n.calls) :
    .expr c.fn.unparen ∈ n.walk := by
  obtain ⟨m, hm, he⟩ := List.mem_filterMap.mp hc
  cases m with
  | expr e =>
    cases e with
    | call fn args info =>
      cases he
      exact mem_walk_trans hm (mem_walk_of_child List.mem_cons_self (unparen_mem_walk fn))
    | _ => cases he
  | _ => cases he

theorem body_mem_walk {u : SourceUnit} {d : FuncDecl} {body : Block} (hd : d ∈ u.functions)
    (hb : d.body = some body) : .stmt (.block body) ∈ (Node.unit u).walk := by
  obtain ⟨file, hfile, hd⟩ := List.mem_flatMap.mp hd
  have hfile' : Node.file file ∈ (Node.unit u).children := List.mem_map_of_mem hfile
  have hd' : Node.func d ∈ (Node.file file).children := List.mem_map_of_mem hd
  have hb' : Node.stmt (.block body) ∈ (Node.func d).children := by simp [children, hb]
  exact mem_walk_of_child hfile' (mem_walk_of_child hd' (mem_walk_of_child hb' (mem_walk_self _)))

end Node

namespace CallGraph

variable {g g' : CallGraph} {key : String}

theorem get?_eq_some_iff (hn : g.keys.Nodup) {f : FuncRecord} :
    g.get? key = some f ↔ f ∈ g.functions ∧ f.key = key := by
  constructor
  · intro h
    exact ⟨get?_mem h, get?_key h⟩
  · rintro ⟨hf, rfl⟩
    exact get?_of_mem hn hf

theorem foldl_register (decls : List FuncDecl) (g : CallGraph)
    (hn : (g.keys ++ decls.map g.functionKey).Nodup) :
    decls.foldl register g = { g with
      functions := g.functions ++ decls.map fun d => { key := g.functionKey d, decl := d } } := by
  induction decls generalizing g with
  | nil => simp
  | cons d decls ih =>
    rw [List.map_cons] at hn
    have hd : g.functionKey d ∉ g.keys := fun hm =>
      (List.nodup_append.mp hn).2.2 _ hm _ List.mem_cons_self rfl
    have hr : g.register d = { g with
        functions := g.functions ++ [{ key := g.functionKey d, decl := d }] } := by
      simp only [register]
      rw [if_neg fun h => hd (declares_iff.mp h)]
    rw [List.foldl_cons, hr, ih]
    · simp only [List.append_assoc, List.map_cons, List.singleton_append]
      rfl
    · simp only [keys, List.map_append, List.map_cons, List.map_nil, List.append_assoc,
        List.singleton_append]
      exact hn

/-- Under distinct keys, all functions of a unit are kept, in order. -/
theorem ofUnit_eq {u : SourceUnit}
    (hn : (u.functions.map (empty u.name u.path).functionKey).Nodup) :
    ofUnit u = ⟨u.name, (empty u.name u.path).unitPath, u.functions.map fun d =>
      { key := (empty u.name u.path).functionKey d, decl := d }, []⟩ :=
  foldl_register u.functions (empty u.name u.path) hn

/-- The functions of a unit are among those of another one, and the calls in them of a function of
the unit are the same in both. -/
structure ExtendedBy (g g' : CallGraph) : Prop where
  decl : ∀ key f, g.get? key = some f → ∃ f', g'.get? key = some f' ∧ f'.decl = f.decl
  calls : ∀ caller f, g.get? caller = some f → ∀ body, f.decl.body = some body →
    ∀ c ∈ body.calls, ∀ key, g.declares key = true → (g'.calleeKey c = key ↔ g.calleeKey c = key)

theorem Rearranged.extendedBy (h : g.Rearranged g') : g.ExtendedBy g' := by
  constructor
  · intro key f hf
    obtain ⟨f', hf', -, hd⟩ := h.get?_decl hf
    exact ⟨f', hf', hd⟩
  · intro _ _ _ _ _ c _ key _
    rw [h.calleeKey]

namespace ExtendedBy

variable {g₁ g₁' : CallGraph} {f f' : FuncRecord}

theorem rearranged (h : g.ExtendedBy g') (hr : g.Rearranged g₁) (hr' : g'.Rearranged g₁') :
    g₁.ExtendedBy g₁' := by
  constructor
  · intro key f₁ hf₁
    obtain ⟨f, hf, -, hd⟩ := hr.symm.get?_decl hf₁
    obtain ⟨f', hf', hd'⟩ := h.decl key f hf
    obtain ⟨f₁', hf₁', -, hd₁⟩ := hr'.get?_decl hf'
    exact ⟨f₁', hf₁', hd₁.trans (hd'.trans hd)⟩
  · intro caller f₁ hf₁ body hb c hc key hk
    obtain ⟨f, hf, -, hd⟩ := hr.symm.get?_decl hf₁
    rw [← hd] at hb
    rw [hr.declares] at hk
    rw [hr.calleeKey, hr'.calleeKey]
    exact h.calls caller f hf body hb c hc key hk

theorem declares (h : g.ExtendedBy g') (hk : g.declares key = true) : g'.declares key = true := by
  obtain ⟨f, hf⟩ := Option.isSome_iff_exists.mp hk
  obtain ⟨f', hf', -⟩ := h.decl key f hf
  exact declares_of_get? hf'

theorem event_iff (h : g.ExtendedBy g') {caller : String} (hf : g.get? caller = some f) {c : Call}
    (hc : .call c ∈ f.decl.events) (hk : g.declares key = true) :
    g'.calleeKey c = key ↔ g.calleeKey c = key := by
  cases hb : f.decl.body with
  | none => simp [FuncDecl.events, hb] at hc
  | some body => exact h.calls caller f hf body hb c (FuncDecl.call_mem_calls hb hc) key hk

theorem embeds (h : g.ExtendedBy g') (hn : g.keys.Nodup) : g.Embeds g' := by
  refine ⟨h.decl, fun f hf c hc hk => ?_⟩
  exact (h.event_iff (get?_of_mem hn hf) hc hk).mpr rfl

theorem mem_called (h : g.ExtendedBy g') {caller : String} (hf : g.get? caller = some f)
    (hk : g.declares key = true) (hm : key ∈ f.decl.events.flatMap (Event.called g.calleeKey)) :
    key ∈ f.decl.events.flatMap (Event.called g'.calleeKey) := by
  obtain ⟨e, he, hm⟩ := List.mem_flatMap.mp hm
  refine List.mem_flatMap.mpr ⟨e, he, ?_⟩
  cases e with
  | call c =>
    rw [Event.called, List.mem_singleton] at hm ⊢
    exact ((h.event_iff hf he hk).mpr hm.symm).symm
  | _ => cases hm

theorem findCall? (h : g.ExtendedBy g') {caller : String} (hf : g.get? caller = some f)
    (hd : f'.decl = f.decl) (hk : g.declares key = true) :
    g'.findCall? f' key = g.findCall? f key := by
  unfold CallGraph.findCall?
  rw [hd]
  cases hb : f.decl.body with
  | none => rfl
  | some body =>
    have hsame : ∀ c ∈ body.calls, (g'.calleeKey c == key) = (g.calleeKey c == key) := by
      intro c hc
      rw [Bool.eq_iff_iff, beq_iff_eq, beq_iff_eq]
      exact h.calls caller f hf body hb c hc key hk
    dsimp only
    rw [← List.head?_filter, ← List.head?_filter, List.filter_congr hsame]

end ExtendedBy

/-- More functions may change the key of a name, but then neither key is one of a function that was
there before. -/
theorem identKey_iff (hname : g'.unitName = g.unitName) (hpath : g'.unitPath = g.unitPath)
    (hsub : ∀ key, g.declares key = true → g'.declares key = true) {id : Ident}
    (hid : g.declares id.name = false) (hk : g.declares key = true) :
    g'.identKey id = key ↔ g.identKey id = key := by
  simp only [identKey, hname, hpath]
  by_cases hl : g.declares (g.unitName ++ "." ++ id.name) = true
  · rw [hsub _ hl, hl]
  · split
    · rfl
    split
    · rfl
    by_cases hp : id.package = ""
    · have hne : id.name ≠ key := by
        rintro rfl
        rw [hk] at hid
        cases hid
      have hne' : g.unitName ++ "." ++ id.name ≠ key := by
        rintro rfl
        exact hl hk
      split <;> simp [hp, hl, hne, hne']
    · simp [hp]

theorem calleeKey_iff (hname : g'.unitName = g.unitName) (hpath : g'.unitPath = g.unitPath)
    (hsub : ∀ key, g.declares key = true → g'.declares key = true) {c : Call}
    (hc : ∀ id, c.fn.unparen = .ident id → g.declares id.name = false)
    (hk : g.declares key = true) : g'.calleeKey c = key ↔ g.calleeKey c = key := by
  have hu : g'.unitOf = g.unitOf := by
    funext path
    simp only [unitOf, hname, hpath]
  unfold calleeKey
  split
  next id he => exact identKey_iff hname hpath hsub (hc id he) hk
  next x field _ _ => simp only [selectorKey, hu]
  next => rfl

theorem dot_mem_functionKey (g : CallGraph) (d : FuncDecl) : '.' ∈ (g.functionKey d).toList := by
  unfold functionKey methodKey?
  split <;> simp

/-- A unit is extended by every unit with its functions and more, in any order, under distinct
keys. -/
theorem extendedBy_of_subset {u v : SourceUnit} (hname : v.name = u.name) (hpath : v.path = u.path)
    (hsub : u.functions ⊆ v.functions)
    (hn : (u.functions.map (empty u.name u.path).functionKey).Nodup)
    (hn' : (v.functions.map (empty u.name u.path).functionKey).Nodup)
    (hdot : ∀ id ∈ (Node.unit u).identifiers, '.' ∉ id.name.toList) :
    (ofUnit u).ExtendedBy (ofUnit v) := by
  have hk := (blank_ofUnit u).keys
  have hk' := (blank_ofUnit v).keys
  have hu := ofUnit_eq hn
  have hv := ofUnit_eq (u := v) (by rwa [hname, hpath])
  rw [hname, hpath] at hv
  have hget : ∀ key f, (ofUnit u).get? key = some f → (ofUnit v).get? key = some f := by
    intro key f hf
    rw [get?_eq_some_iff hk, hu] at hf
    rw [get?_eq_some_iff hk', hv]
    exact ⟨List.map_subset _ hsub hf.1, hf.2⟩
  refine ⟨fun key f hf => ⟨f, hget key f hf, rfl⟩, fun caller f hf body hb c hc key hkey => ?_⟩
  refine calleeKey_iff (by rw [hu, hv]) (by rw [hu, hv]) (fun key hd => ?_) (fun id hid => ?_) hkey
  · obtain ⟨f, hf⟩ := Option.isSome_iff_exists.mp hd
    exact declares_of_get? (hget key f hf)
  -- the keys of functions have dots, and the names of identifiers have none
  · have hf' := get?_mem hf
    rw [hu] at hf'
    obtain ⟨d, hd, rfl⟩ := List.mem_map.mp hf'
    have hmem := Node.mem_walk_trans (Node.body_mem_walk hd hb) (Node.callee_mem_walk hc)
    rw [hid] at hmem
    have hnot := hdot id (Node.mem_identifiers.mpr hmem)
    rw [Bool.eq_false_iff]
    intro hdecl
    rw [declares_iff, hu] at hdecl
    obtain ⟨f', hf', he⟩ := List.mem_map.mp hdecl
    obtain ⟨d', -, rfl⟩ := List.mem_map.mp hf'
    apply hnot
    rw [← he]
    exact dot_mem_functionKey _ _

end CallGraph

namespace Policy

variable (p : Policy) {u v : SourceUnit}

theorem findings_isTainted {key : String} {n : Int} :
    (p.findings u).graph.IsTainted key n ↔ (p.settled u).graph.IsTainted key n := by
  have hs := p.findings_spread u
  unfold CallGraph.IsTainted CallGraph.received
  cases hf : (p.settled u).graph.get? key with
  | some f =>
    obtain ⟨f', hf', hff⟩ := hs.get? hf
    rw [CallGraph.known_of_get? hf', CallGraph.known_of_get? hf, hff.received]
  | none =>
    cases hf' : (p.findings u).graph.get? key with
    | none => rw [CallGraph.known, CallGraph.known, hf, hf']
    | some f' =>
      obtain ⟨f, hf'', -⟩ := hs.get?_back hf'
      rw [hf] at hf''
      cases hf''

section Extension

variable (h : (CallGraph.ofUnit u).ExtendedBy (CallGraph.ofUnit v))

include h

theorem settled_extendedBy : (p.settled u).graph.ExtendedBy (p.settled v).graph :=
  h.rearranged (p.settled_sameUnit u).rearranged (p.settled_sameUnit v).rearranged

theorem findings_extendedBy : (p.findings u).graph.ExtendedBy (p.findings v).graph :=
  h.rearranged (p.findings_sameUnit u).rearranged (p.findings_sameUnit v).rearranged

theorem settled_dominated_of_extendedBy : (p.settled u).Dominated (p.settled v) := by
  have hv := h.rearranged (CallGraph.SameUnit.refl _).rearranged (p.settled_sameUnit v).rearranged
  apply p.settled_dominated u (p.settled_valid v).1 (p.settled_valid v).2 (p.not_mem_settled_queue v)
  exact hv.embeds (CallGraph.blank_ofUnit u).keys

/-- A way along calls to a marked function is there with more functions, too. -/
theorem contaminated_of_extendedBy {key : String} (hc : (p.settled u).graph.Contaminated key) :
    (p.settled v).graph.Contaminated key := by
  have hs := p.settled_extendedBy h
  obtain ⟨target, hway, hm⟩ := hc
  refine ⟨target, Relation.ReflTransGen.mono ?_ key target hway,
    (p.settled_dominated_of_extendedBy h).modifies target hm⟩
  rintro caller callee ⟨f, hf, hmem, hd⟩
  obtain ⟨f', hf', hdecl⟩ := hs.decl caller f hf
  refine ⟨f', hf', ?_, hs.declares hd⟩
  rw [p.settled_calls u (CallGraph.get?_mem hf)] at hmem
  rw [p.settled_calls v (CallGraph.get?_mem hf'), hdecl]
  exact hs.mem_called hf hd hmem

theorem modifies_of_extendedBy {key : String} (hm : (p.findings u).graph.modifies key = true) :
    (p.findings v).graph.modifies key = true := by
  rw [findings_graph] at hm ⊢
  exact (CallGraph.propagate_sweepsTo _).complete
    (p.contaminated_of_extendedBy h ((CallGraph.propagate_sweepsTo _).sound hm))

theorem isTainted_of_extendedBy {key : String} {n : Int}
    (ht : (p.findings u).graph.IsTainted key n) : (p.findings v).graph.IsTainted key n := by
  rw [findings_isTainted] at ht ⊢
  exact (p.settled_dominated_of_extendedBy h).tainted key n ht

theorem findings_function_of_extendedBy {f : FuncRecord}
    (hf : f ∈ (p.findings u).graph.functions) :
    ∃ f' ∈ (p.findings v).graph.functions, f'.key = f.key ∧ f'.decl = f.decl ∧
      (f.modifies = true → f'.modifies = true) ∧ f.tainted ⊆ f'.tainted := by
  have hget := p.findings_get? u hf
  obtain ⟨f', hf', hd⟩ := (p.findings_extendedBy h).decl f.key f hget
  refine ⟨f', CallGraph.get?_mem hf', CallGraph.get?_key hf', hd, fun hm => ?_, fun n hn => ?_⟩
  · rw [← CallGraph.modifies_of_get? hget] at hm
    rw [← CallGraph.modifies_of_get? hf']
    exact p.modifies_of_extendedBy h hm
  · rw [← FuncRecord.isTainted_iff, ← CallGraph.isTainted_of_get? hget] at hn
    rw [← FuncRecord.isTainted_iff, ← CallGraph.isTainted_of_get? hf']
    exact p.isTainted_of_extendedBy h hn

/-- A call of a mutating function stays one, and stays the first of its key. -/
theorem call_of_extendedBy {f g : FuncRecord} (hf : f ∈ (p.findings u).graph.functions)
    (hg : g ∈ (p.findings u).graph.functions) (hc : g.key ∈ f.calls) (hm : g.modifies = true) :
    ∃ f' ∈ (p.findings v).graph.functions, ∃ g' ∈ (p.findings v).graph.functions,
      g'.key = g.key ∧ g'.key ∈ f'.calls ∧ g'.modifies = true ∧
        (p.findings v).graph.findCall? f' g'.key = (p.findings u).graph.findCall? f g.key := by
  have he := p.findings_extendedBy h
  have hget := p.findings_get? u hf
  have hk := CallGraph.declares_of_get? (p.findings_get? u hg)
  obtain ⟨f', hf', -, hd, -⟩ := p.findings_function_of_extendedBy h hf
  obtain ⟨g', hg', hkey, -, hm', -⟩ := p.findings_function_of_extendedBy h hg
  refine ⟨f', hf', g', hg', hkey, ?_, hm' hm, ?_⟩
  · rw [p.findings_calls u hf] at hc
    rw [p.findings_calls v hf', hkey, hd]
    exact he.mem_called hget hk hc
  · rw [hkey, he.findCall? hget hd hk]

theorem report_of_extendedBy {i : Issue} (hi : i ∈ (p.settled u).reports) :
    ∃ i' ∈ (p.findings v).issues, i.Alike i' := by
  rw [← (p.settled_accounted u).issues] at hi
  obtain ⟨i', hi', ha⟩ := (p.settled_dominated_of_extendedBy h).issues i hi
  rw [(p.settled_accounted v).issues] at hi'
  exact ⟨i', (p.mem_findings_issues v).mpr (.inl hi'), ha⟩

theorem issue_of_extendedBy {i : Issue} (hi : i ∈ (p.findings u).issues) :
    ∃ i' ∈ (p.findings v).issues, i'.pos = i.pos := by
  rcases (p.mem_findings_issues u).mp hi with hi | hi
  · obtain ⟨i', hi', ha⟩ := p.report_of_extendedBy h hi
    exact ⟨i', hi', ha.1⟩
  -- the call may pass a pointer on now, and then that is what is reported of it
  · obtain ⟨x, hx, c, hsite, -, rfl⟩ := Run.mem_contaminatedIssues.mp hi
    obtain ⟨f, hf, g, hg, -, hc, hm, hcall⟩ := p.exists_of_found u hx
    obtain ⟨f', hf', g', hg', -, hc', hm', hcall'⟩ := p.call_of_extendedBy h hf hg hc hm
    obtain ⟨c', hfind, hrep⟩ := p.call_reported v hf' hg' hc' hm'
    rw [hcall', ← hcall, hsite, Option.some.injEq] at hfind
    subst hfind
    rcases hrep with hrep | ⟨source, hrep⟩
    · exact ⟨_, hrep, rfl⟩
    · exact ⟨_, hrep, rfl⟩

end Extension

/-- A new function in a unit hides nothing that was found without it. -/
theorem check_extended (p : Policy) (u v : SourceUnit) (before after : List FuncDecl)
    (d : FuncDecl) (hname : v.name = u.name) (hpath : v.path = u.path)
    (hu : u.functions = before ++ after) (hv : v.functions = before ++ d :: after)
    (hn : (u.functions.map (CallGraph.empty u.name u.path).functionKey).Nodup)
    (hd : (CallGraph.empty u.name u.path).functionKey d ∉
      u.functions.map (CallGraph.empty u.name u.path).functionKey)
    (hdot : ∀ id ∈ (Node.unit u).identifiers, '.' ∉ id.name.toList)
    (a : Findings) (ha : p.check u = .checked a) :
    ∃ b, p.check v = .checked b ∧ a.issues.map (·.pos) ⊆ b.issues.map (·.pos) ∧
      ∀ f ∈ a.graph.functions, ∃ f' ∈ b.graph.functions, f'.key = f.key ∧ f'.decl = f.decl ∧
        (f.modifies = true → f'.modifies = true) ∧ f.tainted ⊆ f'.tainted := by
  have hperm : v.functions.Perm (d :: u.functions) := by
    rw [hu, hv]
    exact List.perm_middle
  have hn' : (v.functions.map (CallGraph.empty u.name u.path).functionKey).Nodup := by
    rw [(hperm.map _).nodup_iff, List.map_cons, List.nodup_cons]
    exact ⟨hd, hn⟩
  have hsub : u.functions ⊆ v.functions := fun d' hm =>
    hperm.mem_iff.mpr (List.mem_cons_of_mem _ hm)
  have h := CallGraph.extendedBy_of_subset hname hpath hsub hn hn' hdot
  have hcovers : p.check v = .checked (p.findings v) := by
    rw [check_eq] at ha ⊢
    rw [hname, hpath]
    split at ha
    case isTrue hc => rw [if_pos hc]
    case isFalse => cases ha
  rw [check_eq_checked ha]
  refine ⟨_, hcovers, fun pos hm => ?_, fun f hf => p.findings_function_of_extendedBy h hf⟩
  obtain ⟨i, hi, rfl⟩ := List.mem_map.mp hm
  obtain ⟨i', hi', hpos⟩ := p.issue_of_extendedBy h hi
  exact List.mem_map.mpr ⟨i', hi', hpos⟩

end Policy

def SourceUnit.updater : SourceUnit where
  name := "reader"
  files := [⟨"counter.go", "reader", [.update, .main]⟩]

/-- With the new function, the name that `update` calls stands for another key. -/
theorem Policy.check_extended_updater :
    (CallGraph.empty "reader" "").functionKey .increment ∉
        SourceUnit.updater.functions.map (CallGraph.empty "reader" "").functionKey ∧
      (∀ id ∈ (Node.unit .updater).identifiers, '.' ∉ id.name.toList) ∧
      ∃ b, check {} .counter = .checked b ∧
        (findings {} .updater).issues.map (·.pos) ⊆ b.issues.map (·.pos) ∧
        ∀ f ∈ (findings {} .updater).graph.functions, ∃ f' ∈ b.graph.functions,
          f'.key = f.key ∧ f'.decl = f.decl ∧ (f.modifies = true → f'.modifies = true) ∧
            f.tainted ⊆ f'.tainted := by
  have hfresh : (CallGraph.empty "reader" "").functionKey .increment ∉
      SourceUnit.updater.functions.map (CallGraph.empty "reader" "").functionKey := by
    decide
  have hdot : ∀ id ∈ (Node.unit .updater).identifiers, '.' ∉ id.name.toList := by
    decide
  exact ⟨hfresh, hdot, check_extended {} .updater .counter [] [.update, .main] .increment rfl rfl
    rfl rfl (by decide) hfresh hdot _ rfl⟩

end ReadGuard
