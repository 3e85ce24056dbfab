import ReadGuard.Proofs.Check.TaintPass

namespace ReadGuard.Run

variable {w : Watch} {r : Run} {f f' : FuncRecord}

theorem Valid.absorb (h : r.Valid) {e : Effect} (hp : e.Proper) (hw : e.Within r.graph)
    (recording : Bool) (key : String) : (r.absorb recording key e).Valid :=
  ⟨worded_absorb h.worded hp recording key, (h.budget.paid_absorb hw recording key).budget,
    sourced_absorb h.sourced recording e⟩

/-- A property of states that is kept by every effect of a function, if the function starts with
names as `Q` allows them. -/
structure Kept (w : Watch) (Q : FuncRecord → Aliases → Prop) (P : Run → Prop) : Prop where
  frame : ∀ r queue aliases, P r → P { r with queue := queue, aliases := aliases }
  absorb : ∀ r recording f f' s e, r.Valid → P r → r.graph.get? f.key = some f' →
    f.decl = f'.decl → Q f s → e ∈ effectsOf w r.graph f s → P (r.absorb recording f.key e)
  first : ∀ f, Q f {}
  again : ∀ r f, r.Valid → P r → r.graph.get? f.key = some f → Q f (seeded f.bound)

namespace Kept

variable {Q : FuncRecord → Aliases → Prop} {P : Run → Prop} {s : Aliases}

theorem absorbAll (h : Kept w Q P) (recording : Bool) (hv : r.Valid) (hr : P r)
    (hf : r.graph.get? f.key = some f') (hd : f.decl = f'.decl) (hq : Q f s) (es : List Effect)
    (hes : es ⊆ effectsOf w r.graph f s) : P (r.absorbAll recording f.key es) := by
  induction es generalizing r f' with
  | nil => exact hr
  | cons e es ih =>
    have he : e ∈ effectsOf w r.graph f s := hes List.mem_cons_self
    have hu := sameUnit_absorb recording f.key r e
    have hwithin := Effect.within_effectsOf (CallGraph.get?_mem hf) hd he
    obtain ⟨f'', hf'', -, hd''⟩ := hu.get?_decl hf
    apply ih (hv.absorb (Effect.ofEvents_proper he) hwithin recording f.key)
      (h.absorb r recording f f' s e hv hr hf hd hq he) hf'' (hd.trans hd''.symm)
    rw [effectsOf_congr w hu rfl]
    exact fun e' hm => hes (List.mem_cons_of_mem _ hm)

theorem walk (h : Kept w Q P) (recording : Bool) (hv : r.Valid) (hr : P r)
    (hf : r.graph.get? f.key = some f') (hd : f.decl = f'.decl) (hq : Q f s) :
    P (r.walk w recording f s) := by
  rw [walk_eq]
  exact h.frame _ _ _ (h.absorbAll recording hv hr hf hd hq _ fun _ hm => hm)

theorem walks (h : Kept w Q P) (hv : r.Valid) (hr : P r) (fs : List FuncRecord)
    (hfs : r.Listed fs) : P (fs.foldl (fun r f => r.walk w true f {}) r) := by
  induction fs generalizing r with
  | nil => exact hr
  | cons f fs ih =>
    obtain ⟨f', hf, hd⟩ := hfs f (by simp)
    have hw : Walked w r f {} (r.walk w true f {}) := walk_walked hv hf hd true {}
    have hrest : r.Listed fs := fun a ha => hfs a (List.mem_cons_of_mem _ ha)
    exact ih hw.valid (h.walk true hv hr hf hd (h.first f)) (hrest.sameUnit hw.grows.sameUnit)

/-- What every effect keeps is true when the marks are about to spread. -/
theorem settled {p : Policy} (h : Kept p.watch Q P) (u : SourceUnit) (hs : P (start u)) :
    P (p.settled u) := by
  have hv := valid_start u
  have hv' := (firstPass_walked p.watch u).valid
  have hfirst : P (firstPass p.watch (start u)) := h.walks hv hs _ (listed_start u)
  have hall := rewalk_induction (w := p.watch) (P := fun r => r.Valid ∧ P r) ?_ ?_
    (argumentCount (firstPass p.watch (start u)).graph + 1) _ ⟨hv', hfirst⟩
  · exact hall.2
  · intro r key queue f ⟨hv, hr⟩ hq hf _
    have hget : r.graph.get? f.key = some f := CallGraph.get?_key hf ▸ hf
    have hv' := (rewalk_walked (w := p.watch) hv hf queue).valid
    exact ⟨hv', h.walk false (hv.with_queue queue) (h.frame r queue r.aliases hr) hget rfl
      (h.again r f hv hr hget)⟩
  · intro r key queue ⟨hv, hr⟩ _ _
    exact ⟨hv.with_queue queue, h.frame r queue r.aliases hr⟩

end Kept

end ReadGuard.Run
