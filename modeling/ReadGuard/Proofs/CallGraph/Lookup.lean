import ReadGuard.CallGraph.Basic

namespace ReadGuard.CallGraph

variable {g : CallGraph} {key : String} {f : FuncRecord}

theorem get?_key (h : g.get? key = some f) : f.key = key := by
  simpa using List.find?_some h

theorem get?_mem (h : g.get? key = some f) : f ∈ g.functions :=
  List.mem_of_find?_eq_some h

theorem declares_iff : g.declares key = true ↔ key ∈ g.keys := by
  simp [declares, get?, keys]

theorem declares_of_get? (h : g.get? key = some f) : g.declares key = true := by
  simp [declares, h]

/-- Where keys are unique, a record is the one found under its key. -/
theorem get?_of_mem (hk : g.keys.Nodup) (hf : f ∈ g.functions) : g.get? f.key = some f := by
  unfold get? keys at *
  generalize g.functions = fs at hk hf ⊢
  induction fs with
  | nil => simp at hf
  | cons a fs ih =>
    rw [List.map_cons, List.nodup_cons] at hk
    rcases List.mem_cons.mp hf with rfl | hm
    · simp
    · have hne : a.key ≠ f.key := fun he => hk.1 (he ▸ List.mem_map_of_mem hm)
      simpa [List.find?_cons, hne] using ih hk.2 hm

theorem known_of_get? {α : Type} (h : g.get? key = some f) (read : FuncRecord → α) (unknown : α) :
    g.known read unknown key = read f := by
  simp [known, h]

theorem modifies_of_get? (h : g.get? key = some f) : g.modifies key = f.modifies :=
  known_of_get? h _ _

theorem declares_of_modifies (h : g.modifies key = true) : g.declares key = true := by
  cases hf : g.get? key with
  | none => simp [modifies, known, hf] at h
  | some f => exact declares_of_get? hf

section Update

variable (g) (key) {change : FuncRecord → FuncRecord} (hc : ∀ f, (change f).key = f.key)

include hc

theorem get?_update (k : String) :
    (g.update key change).get? k = (g.get? k).map fun f => if k = key then change f else f := by
  have hp : ((fun f : FuncRecord => f.key == k) ∘ fun f => if f.key = key then change f else f) =
      fun f => f.key == k := by
    funext f
    by_cases hf : f.key = key <;> simp [hf, hc]
  unfold get? update
  rw [List.find?_map, hp]
  cases hf : g.functions.find? (·.key == k) with
  | none => rfl
  | some f =>
    have hk : f.key = k := by simpa using List.find?_some hf
    simp [hk]

theorem get?_update_self : (g.update key change).get? key = (g.get? key).map change := by
  simp [get?_update g key hc]

theorem get?_update_of_ne {k : String} (h : k ≠ key) :
    (g.update key change).get? k = g.get? k := by
  simp [get?_update g key hc, h]

/-- What a change of a record leaves alone is known as before. -/
theorem known_update {α : Type} (read : FuncRecord → α) (hr : ∀ f, read (change f) = read f)
    (unknown : α) (k : String) :
    (g.update key change).known read unknown k = g.known read unknown k := by
  rw [known, known, get?_update g key hc]
  cases g.get? k with
  | none => rfl
  | some f => by_cases hk : k = key <;> simp [hk, hr]

end Update

theorem modifies_setModifies (g : CallGraph) (key k : String) :
    (g.setModifies key).modifies k = (g.modifies k || (k == key && g.declares k)) := by
  have hg := @get?_update g key (fun f => { f with modifies := true }) (fun _ => rfl) k
  unfold setModifies modifies known declares
  rw [hg]
  by_cases h : k = key <;> cases g.get? k <;> simp [h]

/-- Two graphs of one unit: they have the same functions, in any order, and may differ in what is
known of them. -/
structure Rearranged (g g' : CallGraph) : Prop where
  unitName : g'.unitName = g.unitName
  unitPath : g'.unitPath = g.unitPath
  decl : ∀ key, (g'.get? key).map (·.decl) = (g.get? key).map (·.decl)

namespace Rearranged

variable {g g' g'' : CallGraph} {key : String} {f : FuncRecord}

theorem symm (h : Rearranged g g') : Rearranged g' g :=
  ⟨h.unitName.symm, h.unitPath.symm, fun key => (h.decl key).symm⟩

theorem trans (h : Rearranged g g') (h' : Rearranged g' g'') : Rearranged g g'' :=
  ⟨h'.unitName.trans h.unitName, h'.unitPath.trans h.unitPath, fun key =>
    (h'.decl key).trans (h.decl key)⟩

theorem declares (h : Rearranged g g') (key : String) : g'.declares key = g.declares key := by
  have hd := congrArg Option.isSome (h.decl key)
  simpa only [CallGraph.declares, Option.isSome_map] using hd

theorem get?_decl (h : Rearranged g g') (hf : g.get? key = some f) :
    ∃ f', g'.get? key = some f' ∧ f'.key = f.key ∧ f'.decl = f.decl := by
  have hd := h.decl key
  rw [hf, Option.map_some, Option.map_eq_some_iff] at hd
  obtain ⟨f', hf', hd'⟩ := hd
  exact ⟨f', hf', (get?_key hf').trans (get?_key hf).symm, hd'⟩

/-- The keys of calls depend on which functions there are, not on what is known of them. -/
theorem calleeKey (h : Rearranged g g') (c : Call) : g'.calleeKey c = g.calleeKey c := by
  have hu : g'.unitOf = g.unitOf := by
    funext path
    simp only [unitOf, h.unitName, h.unitPath]
  have hi : ∀ id, g'.identKey id = g.identKey id := by
    intro id
    simp only [identKey, h.unitName, h.unitPath, h.declares]
  have hs : ∀ x field, g'.selectorKey x field = g.selectorKey x field := by
    intro x field
    simp only [selectorKey, hu]
  simp only [CallGraph.calleeKey, hi, hs]

theorem findCall? (h : Rearranged g g') {f f' : FuncRecord} (hd : f'.decl = f.decl)
    (callee : String) : g'.findCall? f' callee = g.findCall? f callee := by
  simp only [CallGraph.findCall?, hd, h.calleeKey]

end Rearranged

structure SameUnit (g g' : CallGraph) : Prop where
  unitName : g'.unitName = g.unitName
  unitPath : g'.unitPath = g.unitPath
  decls : g'.functions.map (fun f => (f.key, f.decl)) = g.functions.map fun f => (f.key, f.decl)

namespace SameUnit

variable {g g' g'' : CallGraph} {key : String} {f : FuncRecord}

theorem refl (g : CallGraph) : SameUnit g g := ⟨rfl, rfl, rfl⟩

theorem symm (h : SameUnit g g') : SameUnit g' g :=
  ⟨h.unitName.symm, h.unitPath.symm, h.decls.symm⟩

theorem trans (h : SameUnit g g') (h' : SameUnit g' g'') : SameUnit g g'' :=
  ⟨h'.unitName.trans h.unitName, h'.unitPath.trans h.unitPath, h'.decls.trans h.decls⟩

theorem update (g : CallGraph) (key : String) {change : FuncRecord → FuncRecord}
    (hc : ∀ f, (change f).key = f.key) (hd : ∀ f, (change f).decl = f.decl) :
    SameUnit g (g.update key change) := by
  refine ⟨rfl, rfl, ?_⟩
  unfold CallGraph.update
  rw [List.map_map]
  apply List.map_congr_left
  intro f _
  by_cases hf : f.key = key <;> simp [hf, hc, hd]

theorem setModifies (g : CallGraph) (key : String) : SameUnit g (g.setModifies key) :=
  update g key (fun _ => rfl) fun _ => rfl

theorem recordCall (g : CallGraph) (caller callee : String) :
    SameUnit g (g.recordCall caller callee) :=
  update g caller (fun _ => rfl) fun _ => rfl

theorem taint (g : CallGraph) (key : String) (index : Int) (source : Expr) :
    SameUnit g (g.taint key index source) := by
  apply update <;> intro f <;> unfold FuncRecord.taint <;> split <;> rfl

/-- The function of the other graph that has the same declaration. -/
theorem exists_decl (h : SameUnit g g') (hf : f ∈ g'.functions) :
    ∃ f₀ ∈ g.functions, f.key = f₀.key ∧ f.decl = f₀.decl := by
  have hm := List.mem_map_of_mem (f := fun f : FuncRecord => (f.key, f.decl)) hf
  rw [h.decls, List.mem_map] at hm
  obtain ⟨f₀, hf₀, he⟩ := hm
  exact ⟨f₀, hf₀, (Prod.mk.inj he).1.symm, (Prod.mk.inj he).2.symm⟩

theorem keys (h : SameUnit g g') : g'.keys = g.keys := by
  have hk := congrArg (List.map Prod.fst) h.decls
  simpa only [CallGraph.keys, List.map_map, Function.comp_def] using hk

theorem rearranged (h : SameUnit g g') : Rearranged g g' := by
  refine ⟨h.unitName, h.unitPath, fun key => ?_⟩
  have hp : ∀ fs : List FuncRecord, (fs.find? (·.key == key)).map (·.decl) =
      ((fs.map fun f => (f.key, f.decl)).find? (·.1 == key)).map (·.2) := by
    intro fs
    rw [List.find?_map, Option.map_map]
    rfl
  unfold CallGraph.get?
  rw [hp, hp, h.decls]

theorem declares (h : SameUnit g g') (key : String) : g'.declares key = g.declares key :=
  h.rearranged.declares key

theorem get?_decl (h : SameUnit g g') (hf : g.get? key = some f) :
    ∃ f', g'.get? key = some f' ∧ f'.key = f.key ∧ f'.decl = f.decl :=
  h.rearranged.get?_decl hf

theorem calleeKey (h : SameUnit g g') (c : Call) : g'.calleeKey c = g.calleeKey c :=
  h.rearranged.calleeKey c

theorem findCall? (h : SameUnit g g') {f f' : FuncRecord} (hd : f'.decl = f.decl)
    (callee : String) : g'.findCall? f' callee = g.findCall? f callee :=
  h.rearranged.findCall? hd callee

end SameUnit

end ReadGuard.CallGraph
