import ReadGuard.Proofs.Check.Calls
import ReadGuard.Proofs.Check.Monotone

namespace ReadGuard

namespace CallGraph

/-- The functions of a unit are among those of another one, and calls of them have the same keys in
both. -/
structure Embeds (g g' : CallGraph) : Prop where
  decl : ∀ key f, g.get? key = some f → ∃ f', g'.get? key = some f' ∧ f'.decl = f.decl
  calls : ∀ f ∈ g.functions, ∀ c, .call c ∈ f.decl.events → g.declares (g.calleeKey c) = true →
    g'.calleeKey c = g.calleeKey c

namespace Embeds

variable {g g' g₀ : CallGraph}

theorem declares (h : g.Embeds g') {key : String} (hd : g.declares key = true) :
    g'.declares key = true := by
  obtain ⟨f, hf⟩ := Option.isSome_iff_exists.mp hd
  obtain ⟨f', hf', -⟩ := h.decl key f hf
  exact declares_of_get? hf'

theorem sameUnit_left (h : g.Embeds g') (hn : g.keys.Nodup) (hu : g.SameUnit g₀) :
    g₀.Embeds g' := by
  have hk : g₀.keys.Nodup := by rwa [hu.keys]
  constructor
  · intro key f₀ hf₀
    obtain ⟨f, hf, -, hd⟩ := hu.symm.get?_decl hf₀
    obtain ⟨f', hf', hd'⟩ := h.decl key f hf
    exact ⟨f', hf', hd'.trans hd⟩
  · intro f₀ hf₀ c hc hdecl
    obtain ⟨f, hf, -, hd⟩ := hu.symm.get?_decl (get?_of_mem hk hf₀)
    rw [hu.calleeKey, hu.declares] at hdecl
    rw [← hd] at hc
    rw [hu.calleeKey, h.calls f (get?_mem hf) c hc hdecl]

end Embeds

end CallGraph

namespace Run

open AliasStore

theorem models_seeds (bs : List (String × Expr)) {s : Aliases} {m : Bindings Expr}
    (h : s.Models m) :
    ∃ m', (bs.foldl (fun s (name, source) => s.record name source) s).Models m' ∧
      ∀ name, name ∈ bs.map Prod.fst ∧ (∃ source, m' name = some ([name], source)) ∨
        name ∉ bs.map Prod.fst ∧ m' name = m name := by
  induction bs generalizing s m with
  | nil => exact ⟨m, h, by simp⟩
  | cons b bs ih =>
    obtain ⟨k, source⟩ := b
    obtain ⟨m', hm', hnames⟩ := ih (h.record k source)
    refine ⟨m', hm', fun name => ?_⟩
    rcases hnames name with ⟨hmem, hs⟩ | ⟨hnot, hs⟩
    · exact .inl ⟨List.mem_cons_of_mem _ hmem, hs⟩
    · by_cases hk : name = k
      · subst hk
        rw [Function.update_self] at hs
        exact .inl ⟨List.mem_cons_self, source, hs⟩
      · rw [Function.update_of_ne hk] at hs
        exact .inr ⟨by simpa [hk] using hnot, hs⟩

/-- A function with more tainted parameters starts with more names. -/
theorem seeded_below {f f' : FuncRecord} (hd : f'.decl = f.decl) (hs : f'.Sourced)
    (ht : ∀ index, f.isTainted index = true → f'.isTainted index = true) :
    (seeded f.bound).Below (seeded f'.bound) := by
  have hsub : f.bound.map Prod.fst ⊆ f'.bound.map Prod.fst := by
    intro name hname
    obtain ⟨b, hb, rfl⟩ := List.mem_map.mp hname
    obtain ⟨index, hi, hindex⟩ := List.mem_filterMap.mp hb
    obtain ⟨n, hn, hsource⟩ := Option.bind_eq_some_iff.mp hindex
    obtain ⟨source, -, rfl⟩ := Option.map_eq_some_iff.mp hsource
    have hi' := ht index (FuncRecord.isTainted_iff.mpr hi)
    obtain ⟨source', hsource'⟩ := hs.isTainted_iff.mp hi'
    have hn' : f'.paramName? index = some n := by
      simpa only [FuncRecord.paramName?, FuncRecord.param?, hd] using hn
    refine List.mem_map.mpr ⟨(n, source'), List.mem_filterMap.mpr ⟨index, ?_, ?_⟩, rfl⟩
    · exact FuncRecord.isTainted_iff.mp hi'
    · simp [FuncRecord.bound?, hn', hsource']
  obtain ⟨m, hm, hnames⟩ := models_seeds f.bound Models.empty
  obtain ⟨m', hm', hnames'⟩ := models_seeds f'.bound Models.empty
  refine ⟨m, m', hm, hm', fun name names target hb => ?_⟩
  obtain ⟨hmem, source, hs⟩ | ⟨-, hs⟩ := hnames name
  · obtain ⟨-, source', hs'⟩ | ⟨hnot, -⟩ := hnames' name
    · rw [hs, Option.some.injEq, Prod.mk.injEq] at hb
      exact ⟨source', by rw [hs', hb.1]⟩
    · exact absurd (hsub hmem) hnot
  · rw [hs] at hb
    cases hb

theorem empty_below (f : FuncRecord) : ({} : Aliases).Below (seeded f.bound) := by
  obtain ⟨m, hm, -⟩ := models_seeds f.bound Models.empty
  exact ⟨fun _ => none, m, .empty, hm, nofun⟩

/-- All that was found is found in the other state too, but for the messages. -/
structure Dominated (r r' : Run) : Prop where
  modifies : ∀ key, r.graph.modifies key = true → r'.graph.modifies key = true
  tainted : ∀ key index, r.graph.IsTainted key index → r'.graph.IsTainted key index
  issues : ∀ i ∈ r.issues.issues, ∃ i' ∈ r'.issues.issues, i.Alike i'
  escapes : ∀ pos callee, (pos, callee) ∈ r.escapes → r.graph.declares callee = true →
    (pos, callee) ∈ r'.escapes

def Answered (r r' : Run) (key : String) : Effect → Prop
  | .breach i => (∃ i' ∈ r'.issues.issues, i.Alike i') ∧
      (i.rule.mutates = true → r'.graph.modifies key = true)
  | .passes pos callee index source =>
    (∃ i' ∈ r'.issues.issues, (escapeIssue pos source callee).Alike i') ∧
      (r.graph.declares callee = true → (pos, callee) ∈ r'.escapes ∧
        r'.graph.IsTainted callee index)
  | _ => True

theorem Dominated.absorb {r r' : Run} (h : r.Dominated r') (hw : r.issues.Worded) {e : Effect}
    (he : e.Proper) {key : String} (ha : r.Answered r' key e) (recording : Bool) :
    (r.absorb recording key e).Dominated r' := by
  have hu := sameUnit_absorb recording key r e
  refine ⟨fun k hk => ?_, fun k n hk => ?_, fun i hi => ?_, fun pos callee hm hd => ?_⟩
  · obtain hk | ⟨rfl, i, rfl, hm⟩ := modifies_absorb hk
    · exact h.modifies k hk
    · exact ha.2 hm
  · obtain hk | ⟨hd, pos, index, source, rfl, rfl⟩ := isTainted_absorb hk
    · exact h.tainted k n hk
    · exact (ha.2 hd).2
  · rw [(reported_absorb _ _ _ _).1] at hi
    cases e with
    | calls _ | binds _ => exact h.issues i hi
    | breach j =>
      rcases (hw.mem_add he.1).mp hi with hi | rfl
      · exact h.issues i hi
      · exact ha.1
    | passes pos callee index source =>
      rcases (hw.mem_add (escapeIssue_worded pos source callee)).mp hi with hi | rfl
      · exact h.issues i hi
      · exact ha.1
  · rw [(reported_absorb _ _ _ _).2] at hm
    rw [hu.declares] at hd
    cases e with
    | calls _ | binds _ | breach _ => exact h.escapes pos callee hm hd
    | passes pos' callee' index source =>
      rcases List.mem_cons.mp hm with hm | hm
      · cases hm
        exact (ha.2 hd).1
      · exact h.escapes pos callee hm hd

section Settled

variable {w : Watch} {r r' : Run} {f f' : FuncRecord} {s : Aliases}

/-- A settled state answers every effect of a function that starts with fewer names there. -/
theorem answered_of_settled (hs : r'.Settled w) (hq : ∀ key, key ∉ r'.queue)
    (he : r.graph.Embeds r'.graph) (hf : f ∈ r.graph.functions) {a : FuncRecord}
    (ha : a.decl = f.decl) (hf' : r'.graph.get? a.key = some f') (hd : f'.decl = f.decl)
    (hb : s.Below (seeded f'.bound)) {e : Effect} (hm : e ∈ effectsOf w r.graph a s) :
    r.Answered r' a.key e := by
  have hall : ∀ e ∈ effectsOf w r'.graph f' (seeded f'.bound), r'.Absorbed a.key e := by
    have hkey := CallGraph.get?_key hf'
    rw [← hkey]
    exact hs f' (CallGraph.get?_mem hf') (hq f'.key)
  unfold effectsOf at hm hall
  rw [hd] at hall
  rw [ha] at hm
  cases e with
  | calls callee => trivial
  | binds b => trivial
  | breach i =>
    obtain ⟨i', hi', hal⟩ := Effect.breach_ofEvents_below r'.graph.calleeKey hb hm
    obtain ⟨hmem, hmod⟩ := hall _ hi'
    exact ⟨⟨i', hmem, hal⟩, fun hr => hmod (hal.2 ▸ hr)⟩
  | passes pos callee index source =>
    obtain ⟨c, source', hc, rfl, hp⟩ :=
      Effect.passes_ofEvents_below r'.graph.calleeKey hb hm
    obtain ⟨hesc, hmem, htaint⟩ := hall _ hp
    refine ⟨⟨_, hmem, rfl, rfl⟩, fun hdecl => ?_⟩
    rw [he.calls f hf c hc hdecl] at hesc htaint
    exact ⟨hesc, htaint (he.declares hdecl)⟩

end Settled

end Run

/-- What a check finds before the marks spread is found in every settled state of a unit with the
same functions and perhaps more. -/
theorem Policy.settled_dominated (p : Policy) (u : SourceUnit) {r' : Run}
    (hv' : r'.Valid) (hs : r'.Settled p.watch) (hq : ∀ key, key ∉ r'.queue)
    (he : (CallGraph.ofUnit u).Embeds r'.graph) : (p.settled u).Dominated r' := by
  have hblank := CallGraph.blank_ofUnit u
  have hkept : Run.Kept p.watch
      (fun f s => ∀ f', r'.graph.get? f.key = some f' → f'.decl = f.decl →
        s.Below (Run.seeded f'.bound))
      (fun r => (CallGraph.ofUnit u).SameUnit r.graph ∧ r.Dominated r') := by
    constructor
    · intro r queue aliases ⟨hu, h⟩
      exact ⟨hu, h.modifies, h.tainted, h.issues, h.escapes⟩
    · intro r recording f f₁ s e hv ⟨hu, h⟩ hf hd hb hm
      have hemb := he.sameUnit_left hblank.keys hu
      obtain ⟨f', hf', hd'⟩ := hemb.decl f.key f₁ hf
      refine ⟨hu.trans (Run.sameUnit_absorb recording f.key r e), ?_⟩
      apply h.absorb hv.worded (Effect.ofEvents_proper hm)
      exact Run.answered_of_settled hs hq hemb (CallGraph.get?_mem hf) hd hf' hd'
        (hb f' hf' (hd'.trans hd.symm)) hm
    · intro f f' _ _
      exact Run.empty_below f'
    -- a function that is looked at again has no parameter tainted that is not tainted there
    · intro r f hv ⟨hu, h⟩ hf f' hf' hd
      apply Run.seeded_below hd (hv'.sourced f' (CallGraph.get?_mem hf'))
      intro index ht
      rw [← CallGraph.isTainted_of_get? hf] at ht
      rw [← CallGraph.isTainted_of_get? hf']
      exact h.tainted f.key index ht
  -- at the start nothing is known
  refine (hkept.settled u ⟨.refl _, ?_, ?_, by simp [Run.start], by simp [Run.start]⟩).2
  · intro key hm
    rw [show (Run.start u).graph.modifies key = false from
      hblank.known key (·.modifies) fun _ _ => rfl] at hm
    cases hm
  · intro key index ht
    unfold CallGraph.IsTainted at ht
    rw [show (Run.start u).graph.received key = ([], []) from
      hblank.known key FuncRecord.received fun _ _ => rfl] at ht
    cases ht

end ReadGuard
