import Mathlib.Data.List.Perm.Subperm
import ReadGuard.Proofs.Check.Growth

namespace ReadGuard

def Event.sites (keyOf : Call → String) : Event → List (String × Int)
  | .call c => (List.range c.args.length).map fun index : Nat => (keyOf c, (index : Int))
  | _ => []

namespace CallGraph

def sites (g : CallGraph) : List (String × Int) :=
  (g.functions.flatMap fun f => f.decl.events).flatMap (Event.sites g.calleeKey)

def taints (g : CallGraph) : List (String × Int) :=
  g.functions.flatMap fun f => f.tainted.map fun index => (f.key, index)

theorem length_sites (g : CallGraph) : g.sites.length = Run.argumentCount g := by
  unfold sites Run.argumentCount
  induction g.functions.flatMap fun f => f.decl.events with
  | nil => rfl
  | cons e es ih =>
    simp only [List.flatMap_cons, List.length_append, List.map_cons, List.foldr_cons, ih]
    cases e <;> simp [Event.sites, Run.Event.arity]

theorem SameUnit.sites {g g' : CallGraph} (h : SameUnit g g') : g'.sites = g.sites := by
  have hd : g'.functions.flatMap (fun f => f.decl.events) =
      g.functions.flatMap fun f => f.decl.events := by
    have he := congrArg (List.flatMap fun p : String × FuncDecl => p.2.events) h.decls
    simpa only [List.flatMap_map] using he
  unfold CallGraph.sites
  rw [hd, funext h.calleeKey]

theorem taints_update (g : CallGraph) (key : String) {change : FuncRecord → FuncRecord}
    (hc : ∀ f, (change f).key = f.key) (ht : ∀ f, (change f).tainted = f.tainted) :
    (g.update key change).taints = g.taints := by
  unfold taints update
  rw [List.flatMap_map]
  congr 1
  funext f
  by_cases hf : f.key = key <;> simp [hf, hc, ht]

theorem taints_taint {g : CallGraph} (hk : g.keys.Nodup) {key : String} {f : FuncRecord}
    (hf : g.get? key = some f) {index : Int} (hn : f.isTainted index = false) (source : Expr) :
    (g.taint key index source).taints.Perm ((key, index) :: g.taints) := by
  have hmem := get?_mem hf
  have hkey := get?_key hf
  unfold taints taint update keys at *
  generalize g.functions = fs at hk hmem ⊢
  induction fs with
  | nil => simp at hmem
  | cons a fs ih =>
    rw [List.map_cons, List.nodup_cons] at hk
    simp only [List.map_cons, List.flatMap_cons]
    rcases List.mem_cons.mp hmem with rfl | hmem
    · have hrest : (fs.map fun f => if f.key = key then f.taint index source else f) = fs := by
        conv_rhs => rw [← List.map_id fs]
        apply List.map_congr_left
        intro b hb
        have hne : b.key ≠ key := fun he => hk.1 (hkey.trans he.symm ▸ List.mem_map_of_mem hb)
        simp [hne]
      have hp := (FuncRecord.tainted_taint_perm source hn).map fun i => (f.key, i)
      rw [hrest, if_pos hkey, FuncRecord.key_taint, ← hkey]
      exact hp.append_right _
    · have hne : a.key ≠ key := fun he => hk.1 (he.trans hkey.symm ▸ List.mem_map_of_mem hmem)
      rw [if_neg hne]
      exact ((ih hk.2 hmem).append_left _).trans List.perm_middle

end CallGraph

def Effect.Within (g : CallGraph) : Effect → Prop
  | .passes _ callee index _ => (callee, (index : Int)) ∈ g.sites
  | _ => True

namespace Effect

theorem passes_ofEvents {w : Watch} {keyOf : Call → String} {s : Aliases} {events : List Event}
    {pos : Position} {callee : String} {index : Nat} {source : Expr}
    (h : passes pos callee index source ∈ ofEvents w keyOf s events) :
    ∃ c, .call c ∈ events ∧ pos = c.info.pos ∧ callee = keyOf c ∧ index < c.args.length := by
  induction events generalizing s with
  | nil => simp [ofEvents] at h
  | cons event events ih =>
    rcases List.mem_append.mp h with h | h
    · obtain ⟨c, arg, rfl, hp, hc, ha, -⟩ := passes_mem_ofEvent.mp h
      exact ⟨c, List.mem_cons_self, hp, hc, (List.getElem?_eq_some_iff.mp ha).1⟩
    · obtain ⟨c, hm, hc⟩ := ih h
      exact ⟨c, List.mem_cons_of_mem _ hm, hc⟩

theorem Within.sameUnit {g g' : CallGraph} (hu : g.SameUnit g') {e : Effect}
    (h : e.Within g) : e.Within g' := by
  cases e with
  | passes pos callee index source =>
    unfold Within
    rw [hu.sites]
    exact h
  | calls callee => trivial
  | breach i => trivial
  | binds b => trivial

theorem within_effectsOf {w : Watch} {g : CallGraph} {f f' : FuncRecord} (hf : f ∈ g.functions)
    (hd : f'.decl = f.decl) {s : Aliases} {e : Effect} (h : e ∈ Run.effectsOf w g f' s) :
    e.Within g := by
  cases e with
  | passes pos callee index source =>
    obtain ⟨c, hm, -, rfl, hi⟩ := passes_ofEvents h
    rw [hd] at hm
    refine List.mem_flatMap.mpr ⟨.call c, List.mem_flatMap.mpr ⟨f, hf, hm⟩, ?_⟩
    exact List.mem_map.mpr ⟨index, List.mem_range.mpr hi, rfl⟩
  | calls callee => trivial
  | breach i => trivial
  | binds b => trivial

end Effect

namespace Run

/-- Every tainted parameter stands for an argument of some call, and for no other tainted one. -/
structure Budget (r : Run) : Prop where
  keys : r.graph.keys.Nodup
  taints : r.graph.taints.Nodup
  sites : r.graph.taints ⊆ r.graph.sites

theorem Budget.length_taints_le {r : Run} (h : r.Budget) :
    r.graph.taints.length ≤ argumentCount r.graph := by
  rw [← CallGraph.length_sites]
  exact (List.subperm_of_subset h.taints h.sites).length_le

structure Paid (r r' : Run) : Prop where
  budget : r'.Budget
  queue : r'.queue.pending.length + r.graph.taints.length ≤
    r.queue.pending.length + r'.graph.taints.length

theorem Paid.trans {r r' r'' : Run} (h : Paid r r') (h' : Paid r' r'') : Paid r r'' := by
  have hq := h.queue
  have hq' := h'.queue
  exact ⟨h'.budget, by omega⟩

/-- A change of the graph that taints nothing costs nothing. -/
theorem Budget.paid_of_eq {r r' : Run} (h : r.Budget) (hu : r.graph.SameUnit r'.graph)
    (ht : r'.graph.taints = r.graph.taints) (hq : r'.queue = r.queue) : Paid r r' := by
  refine ⟨⟨?_, ?_, ?_⟩, by simp [ht, hq]⟩
  · rw [hu.keys]
    exact h.keys
  · rw [ht]
    exact h.taints
  · rw [ht, hu.sites]
    exact h.sites

theorem Budget.paid_taint {r : Run} (h : r.Budget) {key : String} {index : Nat}
    (hs : (key, (index : Int)) ∈ r.graph.sites) (source : Expr) :
    Paid r (r.taint key index source) := by
  obtain ⟨-, he⟩ | ⟨f, hf, hn, he⟩ := taint_cases r key index source
  · rw [he]
    exact h.paid_of_eq (.refl _) rfl rfl
  have hp := CallGraph.taints_taint h.keys hf hn source
  have hu := CallGraph.SameUnit.taint r.graph key index source
  have hnew : (key, (index : Int)) ∉ r.graph.taints := by
    intro hm
    obtain ⟨f', hf', hi⟩ := List.mem_flatMap.mp hm
    obtain ⟨i, hi, he⟩ := List.mem_map.mp hi
    obtain ⟨hk, rfl⟩ := Prod.mk.inj he
    have hg := CallGraph.get?_of_mem h.keys hf'
    rw [hk, hf, Option.some.injEq] at hg
    rw [← hg, ← FuncRecord.isTainted_iff, hn] at hi
    cases hi
  rw [he]
  refine ⟨⟨?_, ?_, ?_⟩, ?_⟩
  · rw [hu.keys]
    exact h.keys
  · exact hp.nodup_iff.mpr (List.nodup_cons.mpr ⟨hnew, h.taints⟩)
  · rw [hu.sites]
    intro site hm
    rcases List.mem_cons.mp (hp.subset hm) with rfl | hm
    · exact hs
    · exact h.sites hm
  · have hl := hp.length_eq
    simp only [List.length_cons] at hl
    have hlen := r.queue.length_push key
    simp only [hl]
    omega

theorem Budget.paid_absorb {r : Run} (h : r.Budget) {e : Effect} (he : e.Within r.graph)
    (recording : Bool) (key : String) : Paid r (r.absorb recording key e) := by
  have hu := sameUnit_absorb recording key r e
  cases e with
  | calls callee =>
    cases recording
    · exact h.paid_of_eq hu rfl rfl
    · exact h.paid_of_eq hu (CallGraph.taints_update _ _ (fun _ => rfl) fun _ => rfl) rfl
  | breach i =>
    obtain ⟨-, -, hb⟩ | ⟨-, hb⟩ := blame_cases r key i
    · rw [absorb, hb] at hu ⊢
      exact h.paid_of_eq hu (CallGraph.taints_update _ _ (fun _ => rfl) fun _ => rfl) rfl
    · rw [absorb, hb] at hu ⊢
      exact h.paid_of_eq hu rfl rfl
  | binds b => exact h.paid_of_eq hu rfl rfl
  | passes pos callee index source =>
    have hb : Budget ({ r with escapes := (pos, callee) :: r.escapes }.report
        ⟨pos, escapeMessage source callee, .pointerEscape⟩) := ⟨h.keys, h.taints, h.sites⟩
    have hp := hb.paid_taint he source
    exact ⟨hp.budget, hp.queue⟩

theorem Budget.paid_absorbAll {r : Run} (h : r.Budget) {es : List Effect}
    (he : ∀ e ∈ es, e.Within r.graph) (recording : Bool) (key : String) :
    Paid r (r.absorbAll recording key es) := by
  induction es generalizing r with
  | nil => exact h.paid_of_eq (.refl _) rfl rfl
  | cons e es ih =>
    have hp := h.paid_absorb (he e (by simp)) recording key
    have hu := sameUnit_absorb recording key r e
    apply hp.trans
    exact ih hp.budget fun e' hm => (he e' (List.mem_cons_of_mem _ hm)).sameUnit hu

end Run

end ReadGuard
