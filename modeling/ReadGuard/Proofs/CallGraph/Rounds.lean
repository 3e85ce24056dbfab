import ReadGuard.Proofs.CallGraph.Contamination

namespace ReadGuard.CallGraph

/-- Where no mark was added, only the reports differ. -/
theorem Spread.eq_of_marks {g g' : CallGraph} (h : Spread g g') (hm : g'.marks = g.marks) :
    g' = { g with reported := g'.reported } := by
  have hu := h.unitName
  have hp := h.unitPath
  have hf := h.functions_eq hm
  cases g'
  subst hu hp hf
  rfl

namespace Sweep

variable {g : CallGraph} {s t : Sweep}

/-- What marking a caller and keeping an answer preserve is preserved by every visit. -/
theorem visit_induction {P : Sweep → Prop}
    (hc : ∀ s caller callee, P s → P (s.contaminate caller callee))
    (hr : ∀ s key, P s → P (s.remember key))
    (depth : Nat) (visiting : List String) (key : String) (h : P s) :
    P (visit depth visiting key s).2 := by
  induction depth using Nat.strongRecOn generalizing visiting key s with
  | _ depth ih =>
    obtain ⟨_, -, he⟩ | ⟨-, he⟩ | ⟨-, he⟩ | ⟨d, f, rfl, -, he⟩ := visit_cases depth visiting key s
    · rwa [he]
    · rwa [he]
    · rwa [he]
    · have hall : ∀ callees t, P t → P (visitAll (visit d (key :: visiting)) f callees t) := by
        intro callees
        induction callees with
        | nil => exact fun _ ht => ht
        | cons callee rest ihr =>
          intro t ht
          have hv := ih d (by omega) (key :: visiting) callee ht
          simp only [visitAll]
          split
          · exact ihr _ (hc _ f callee hv)
          · exact ihr _ hv
      rw [he]
      apply hr
      exact hall f.uniqueCalls s h

theorem run_induction {P : Sweep → Prop} (hs : P { graph := g })
    (hc : ∀ s caller callee, P s → P (s.contaminate caller callee))
    (hr : ∀ s key, P s → P (s.remember key)) : P (run g) := by
  have hall : ∀ (keys : List String) s, P s →
      P (keys.foldl (fun s key => (visit maxDepth [] key s).2) s) := by
    intro keys
    induction keys with
    | nil => exact fun _ h => h
    | cons key rest ih => exact fun s h => ih _ (visit_induction hc hr maxDepth [] key h)
  exact hall g.keys _ hs

structure Fresh (g : CallGraph) (found : List Contamination) : Prop where
  nodup : (found.map pair).Nodup
  unreported : ∀ c ∈ found, pair c ∉ g.reported

theorem run_fresh (g : CallGraph) : Fresh g (run g).found := by
  have h : (run g).graph.reported = ((run g).found.map pair).reverse ++ g.reported ∧
      Fresh g (run g).found := by
    apply run_induction (P := fun s =>
      s.graph.reported = (s.found.map pair).reverse ++ g.reported ∧ Fresh g s.found)
    · exact ⟨rfl, List.nodup_nil, by simp⟩
    · rintro s caller callee ⟨ha, hn, hu⟩
      obtain ⟨-, he⟩ | ⟨hnew, he⟩ := contaminate_cases s caller callee
      · rw [he]
        exact ⟨ha, hn, hu⟩
      · rw [ha, List.mem_append, List.mem_reverse, not_or] at hnew
        rw [he]
        refine ⟨by simp [ha, pair], ?_, ?_⟩
        · rw [List.map_append, List.nodup_append]
          refine ⟨hn, by simp, ?_⟩
          intro a hm b hb hab
          have hb' : b = (caller.key, callee) := by simpa [pair] using hb
          exact hnew.1 (hb' ▸ hab ▸ hm)
        · intro c hmem
          rcases List.mem_append.mp hmem with hmem | hmem
          · exact hu c hmem
          · rw [List.mem_singleton.mp hmem]
            exact hnew.2
    · exact fun s key h => h
  exact h.2

structure Alike (s t : Sweep) : Prop where
  graph : t.graph = { s.graph with reported := t.graph.reported }
  memo : t.memo = s.memo

namespace Alike

theorem get? (h : Alike s t) (key : String) : t.graph.get? key = s.graph.get? key := by
  rw [h.graph]
  rfl

theorem modifies (h : Alike s t) (key : String) :
    t.graph.modifies key = s.graph.modifies key := by
  rw [h.graph]
  rfl

theorem contaminate (h : Alike s t) (caller : FuncRecord) (callee : String) :
    Alike (s.contaminate caller callee) (t.contaminate caller callee) := by
  have hm : t.graph.setModifies caller.key =
      { s.graph.setModifies caller.key with reported := t.graph.reported } := by
    rw [h.graph]
    rfl
  constructor
  · obtain ⟨-, he⟩ | ⟨-, he⟩ := contaminate_cases s caller callee <;>
      obtain ⟨-, he'⟩ | ⟨-, he'⟩ := contaminate_cases t caller callee <;>
      rw [he, he', hm]
  · rw [memo_contaminate, memo_contaminate, h.memo]

theorem remember (h : Alike s t) (key : String) : Alike (s.remember key) (t.remember key) := by
  refine ⟨h.graph, ?_⟩
  simp only [Sweep.remember, h.modifies key, h.memo]

/-- The marks that a visit sets do not depend on what has been reported. -/
theorem visit (h : Alike s t) (depth : Nat) (visiting : List String) (key : String) :
    (Sweep.visit depth visiting key t).1 = (Sweep.visit depth visiting key s).1 ∧
      Alike (Sweep.visit depth visiting key s).2 (Sweep.visit depth visiting key t).2 := by
  induction depth using Nat.strongRecOn generalizing visiting key s t with
  | _ depth ih =>
    rw [Sweep.visit, Sweep.visit, h.memo, h.get? key]
    cases s.memo.lookup key with
    | some answer => exact ⟨rfl, h⟩
    | none =>
      cases s.graph.get? key with
      | none => exact ⟨rfl, h⟩
      | some f =>
        cases depth with
        | zero => exact ⟨rfl, h⟩
        | succ d =>
          dsimp only
          by_cases hv : visiting.contains key
          · rw [if_pos hv, if_pos hv]
            exact ⟨rfl, h⟩
          · have hall : ∀ callees s t, Alike s t →
                Alike (visitAll (Sweep.visit d (key :: visiting)) f callees s)
                  (visitAll (Sweep.visit d (key :: visiting)) f callees t) := by
              intro callees
              induction callees with
              | nil => exact fun _ _ h => h
              | cons callee rest ihr =>
                intro s t h
                obtain ⟨ha, hs⟩ := ih d (by omega) h (key :: visiting) callee
                simp only [visitAll, ha]
                split
                · exact ihr _ _ (hs.contaminate f callee)
                · exact ihr _ _ hs
            have hend := hall f.uniqueCalls s t h
            rw [if_neg hv, if_neg hv]
            exact ⟨hend.modifies key, hend.remember key⟩

end Alike

theorem run_alike (g : CallGraph) (reported : List (String × String)) :
    Alike (run g) (run { g with reported := reported }) := by
  have hall : ∀ (keys : List String) s t, Alike s t →
      Alike (keys.foldl (fun s key => (visit maxDepth [] key s).2) s)
        (keys.foldl (fun s key => (visit maxDepth [] key s).2) t) := by
    intro keys
    induction keys with
    | nil => exact fun _ _ h => h
    | cons key rest ih => exact fun s t h => ih _ _ (h.visit maxDepth [] key).2
  exact hall g.keys _ _ ⟨rfl, rfl⟩

end Sweep

namespace SweepsTo

variable {g : CallGraph} {c : Closure}

theorem fresh (h : SweepsTo g c) : Sweep.Fresh g c.found := by
  induction h with
  | stable _ => exact Sweep.run_fresh _
  | @again g rest _ _ ih =>
    have hf := Sweep.run_fresh g
    have ha := (Sweep.run_holds g).accounts
    constructor
    · rw [List.map_append, List.nodup_append]
      refine ⟨hf.nodup, ih.nodup, ?_⟩
      intro a hm b hb hab
      obtain ⟨x, hx, rfl⟩ := List.mem_map.mp hb
      apply ih.unreported x hx
      rw [ha, ← hab]
      exact List.mem_append_left _ (List.mem_reverse.mpr hm)
    · intro x hx
      rcases List.mem_append.mp hx with hx | hx
      · exact hf.unreported x hx
      · intro hr
        apply ih.unreported x hx
        rw [ha]
        exact List.mem_append_right _ hr

/-- The pairs found are those of a call and a mutating callee that were not reported before. -/
theorem mem_found_iff (h : SweepsTo g c) {caller callee : String} :
    (caller, callee) ∈ c.found.map Sweep.pair ↔
      g.Calls caller callee ∧ c.graph.modifies callee = true ∧ (caller, callee) ∉ g.reported := by
  constructor
  · intro hm
    obtain ⟨x, hx, he⟩ := List.mem_map.mp hm
    obtain ⟨rfl, rfl⟩ := Prod.mk.inj he
    obtain ⟨f, hf, hc, hmod, -⟩ := h.found hx
    have hd : g.declares x.callee = true := by
      rw [← h.spread.sameUnit.declares]
      exact declares_of_modifies hmod
    exact ⟨⟨f, hf, hc, hd⟩, hmod, h.fresh.unreported x hx⟩
  · rintro ⟨⟨f, hf, hc, -⟩, hmod, hr⟩
    have hrep := (h.covers hf hc hmod).2
    rw [h.accounts, List.mem_append, List.mem_reverse] at hrep
    exact hrep.resolve_right hr

/-- The last sweep set no mark, so the same sweep over the final graph sets none either. -/
theorem marks_run (h : SweepsTo g c) : (Sweep.run c.graph).graph.marks = c.graph.marks := by
  induction h with
  | @stable g hst =>
    have hg := (Sweep.run_holds g).spread.eq_of_marks hst
    have hl := (Sweep.run_alike g (Sweep.run g).graph.reported).graph
    dsimp only
    calc (Sweep.run (Sweep.run g).graph).graph.marks
        = (Sweep.run { g with reported := (Sweep.run g).graph.reported }).graph.marks := by
          rw [← hg]
      _ = (Sweep.run g).graph.marks := by
          rw [hl]
          rfl
  | again _ _ ih => exact ih

/-- Sweeping a graph to which the marks have spread changes nothing. -/
theorem settles (h : SweepsTo g c) : SweepsTo c.graph ⟨c.graph, [], 1⟩ := by
  have hst := SweepsTo.stable h.marks_run
  have hgraph := (Sweep.run_holds c.graph).spread.eq_of_marks h.marks_run
  have hfound : (Sweep.run c.graph).found = [] := by
    apply List.eq_nil_iff_forall_not_mem.mpr
    intro x hx
    obtain ⟨⟨f', hf', hc, -⟩, hmod, hr⟩ := hst.mem_found_iff.mp (List.mem_map_of_mem hx)
    obtain ⟨f, hf, hs⟩ := h.spread.get?_back hf'
    dsimp only at hmod
    rw [hgraph] at hmod
    exact hr (h.covers hf (hs.calls ▸ hc) hmod).2
  have hreported : (Sweep.run c.graph).graph.reported = c.graph.reported := by
    rw [(Sweep.run_holds c.graph).accounts, hfound]
    rfl
  rw [hreported] at hgraph
  rwa [hgraph, hfound] at hst

end SweepsTo

def closures : Nat → CallGraph → List Closure
  | 0, _ => []
  | n + 1, g => g.propagate :: closures n g.propagate.graph

theorem SweepsTo.unique {g : CallGraph} {c c' : Closure} (h : SweepsTo g c) (h' : SweepsTo g c') :
    c = c' := by
  induction h generalizing c' with
  | stable hst =>
    cases h' with
    | stable _ => rfl
    | again hne _ => exact absurd hst hne
  | again hne _ ih =>
    cases h' with
    | stable hst => exact absurd hst hne
    | again _ hr => rw [ih hr]

theorem propagate_propagate (g : CallGraph) :
    g.propagate.graph.propagate = ⟨g.propagate.graph, [], 1⟩ :=
  (propagate_sweepsTo _).unique (propagate_sweepsTo g).settles

theorem closures_of_propagate_eq {g : CallGraph} (h : g.propagate = ⟨g, [], 1⟩) (n : Nat) :
    g.closures n = List.replicate n ⟨g, [], 1⟩ := by
  induction n with
  | zero => rfl
  | succ n ih => rw [closures, List.replicate_succ, h, ih]

theorem closures_succ (g : CallGraph) (n : Nat) :
    g.closures (n + 1) = g.propagate :: List.replicate n ⟨g.propagate.graph, [], 1⟩ := by
  rw [closures, closures_of_propagate_eq g.propagate_propagate]

theorem found_closures_succ (g : CallGraph) (n : Nat) :
    (g.closures (n + 1)).flatMap Closure.found = g.propagate.found := by
  have hrest : (List.replicate n (⟨g.propagate.graph, [], 1⟩ : Closure)).flatMap Closure.found =
      [] := by
    rw [List.flatMap_eq_nil_iff]
    intro c hc
    rw [List.eq_of_mem_replicate hc]
  rw [closures_succ, List.flatMap_cons, hrest, List.append_nil]

/-- However often the marks are spread, the first time does all of it: every later time changes
nothing, finds nothing and makes one sweep. In all, each call of a function that mutates in the end
is found once, with the first call site, unless it was reported before, and nothing else is found. -/
theorem closures_report_once (g : CallGraph) (n : Nat) :
    g.closures (n + 1) = g.propagate :: List.replicate n ⟨g.propagate.graph, [], 1⟩ ∧
      (((g.closures (n + 1)).flatMap Closure.found).map Sweep.pair).Nodup ∧
      (∀ caller callee,
        (caller, callee) ∈ ((g.closures (n + 1)).flatMap Closure.found).map Sweep.pair ↔
          g.Calls caller callee ∧ g.propagate.graph.modifies callee = true ∧
            (caller, callee) ∉ g.reported) ∧
      ∀ x ∈ (g.closures (n + 1)).flatMap Closure.found, ∃ caller callee,
        g.get? x.caller = some caller ∧ g.get? x.callee = some callee ∧
          x.site = g.findCall? caller x.callee := by
  have h := propagate_sweepsTo g
  rw [found_closures_succ]
  refine ⟨closures_succ g n, h.fresh.nodup, fun _ _ => h.mem_found_iff, ?_⟩
  intro x hx
  obtain ⟨caller, hcaller, -, -, hsite⟩ := h.found hx
  obtain ⟨⟨_, _, _, hd⟩, -, -⟩ := h.mem_found_iff.mp (List.mem_map_of_mem hx)
  obtain ⟨callee, hcallee⟩ := Option.isSome_iff_exists.mp hd
  exact ⟨caller, callee, hcaller, hcallee, hsite⟩

end ReadGuard.CallGraph
