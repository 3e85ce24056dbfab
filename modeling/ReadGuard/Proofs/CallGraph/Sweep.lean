import Mathlib.Data.List.Forall2
import Mathlib.Logic.Relation
import ReadGuard.CallGraph.Closure
import ReadGuard.Proofs.CallGraph.Bindings
import ReadGuard.Proofs.CallGraph.Lookup

namespace ReadGuard

def FuncRecord.Spread (f f' : FuncRecord) : Prop :=
  f' = f ∨ f' = { f with modifies := true }

namespace FuncRecord.Spread

variable {f f' f'' : FuncRecord}

theorem trans (h : Spread f f') (h' : Spread f' f'') : Spread f f'' := by
  rcases h with rfl | rfl <;> rcases h' with rfl | rfl <;> simp [Spread]

theorem key (h : Spread f f') : f'.key = f.key := by
  rcases h with rfl | rfl <;> rfl

theorem decl (h : Spread f f') : f'.decl = f.decl := by
  rcases h with rfl | rfl <;> rfl

theorem calls (h : Spread f f') : f'.calls = f.calls := by
  rcases h with rfl | rfl <;> rfl

theorem received (h : Spread f f') : f'.received = f.received := by
  rcases h with rfl | rfl <;> rfl

theorem modifies (h : Spread f f') (hm : f.modifies = true) : f'.modifies = true := by
  rcases h with rfl | rfl
  · exact hm
  · rfl

end FuncRecord.Spread

namespace CallGraph

def Calls (g : CallGraph) (caller callee : String) : Prop :=
  ∃ f, g.get? caller = some f ∧ callee ∈ f.calls ∧ g.declares callee = true

def Contaminated (g : CallGraph) (key : String) : Prop :=
  ∃ target, Relation.ReflTransGen g.Calls key target ∧ g.modifies target = true

/-- The second graph is the first with more marks and reports. -/
structure Spread (g g' : CallGraph) : Prop where
  unitName : g'.unitName = g.unitName
  unitPath : g'.unitPath = g.unitPath
  functions : List.Forall₂ FuncRecord.Spread g.functions g'.functions
  reported : g.reported ⊆ g'.reported

namespace Spread

variable {g g' g'' : CallGraph} {key : String} {f f' : FuncRecord}

theorem refl (g : CallGraph) : Spread g g :=
  ⟨rfl, rfl, List.forall₂_same.mpr fun _ _ => .inl rfl, fun _ h => h⟩

theorem trans (h : Spread g g') (h' : Spread g' g'') : Spread g g'' := by
  refine ⟨h'.unitName.trans h.unitName, h'.unitPath.trans h.unitPath, ?_,
    List.Subset.trans h.reported h'.reported⟩
  have hf := h.functions
  have hf' := h'.functions
  generalize g.functions = fs, g'.functions = fs', g''.functions = fs'' at hf hf' ⊢
  induction hf generalizing fs'' with
  | nil => exact hf'
  | cons ha _ ih =>
    cases hf' with
    | cons hb ht => exact .cons (ha.trans hb) (ih _ ht)

theorem setModifies (g : CallGraph) (key : String) : Spread g (g.setModifies key) := by
  refine ⟨rfl, rfl, ?_, fun _ h => h⟩
  unfold CallGraph.setModifies CallGraph.update
  rw [List.forall₂_map_right_iff, List.forall₂_same]
  intro f _
  by_cases hf : f.key = key
  · exact .inr (if_pos hf)
  · exact .inl (if_neg hf)

theorem sameUnit (h : Spread g g') : SameUnit g g' := by
  refine ⟨h.unitName, h.unitPath, ?_⟩
  have hf := h.functions
  generalize g.functions = fs, g'.functions = fs' at hf ⊢
  induction hf with
  | nil => rfl
  | cons ha _ ih => simp only [List.map_cons, ha.key, ha.decl, ih]

theorem get? (h : Spread g g') (hf : g.get? key = some f) :
    ∃ f', g'.get? key = some f' ∧ FuncRecord.Spread f f' := by
  have hs := h.functions
  unfold CallGraph.get? at hf ⊢
  generalize g.functions = fs, g'.functions = fs' at hs hf ⊢
  induction hs with
  | nil => simp at hf
  | @cons a b _ _ ha _ ih =>
    by_cases hk : a.key = key
    · simp only [List.find?_cons, hk, beq_self_eq_true, Option.some.injEq] at hf
      subst hf
      exact ⟨b, by simp [ha.key, hk], ha⟩
    · have hb : (a.key == key) = false := by simpa using hk
      simp only [List.find?_cons, hb] at hf
      simpa only [List.find?_cons, ha.key, hb] using ih hf

theorem exists_of_mem (h : Spread g g') (hf : f' ∈ g'.functions) :
    ∃ f ∈ g.functions, FuncRecord.Spread f f' := by
  have hs := h.functions
  generalize g.functions = fs, g'.functions = fs' at hs hf ⊢
  induction hs with
  | nil => simp at hf
  | @cons a b _ _ ha _ ih =>
    rcases List.mem_cons.mp hf with rfl | hf
    · exact ⟨a, List.mem_cons_self, ha⟩
    · obtain ⟨f, hm, hs⟩ := ih hf
      exact ⟨f, List.mem_cons_of_mem _ hm, hs⟩

/-- What is found in the later graph comes from a function of the earlier one. -/
theorem get?_back (h : Spread g g') (hf : g'.get? key = some f') :
    ∃ f, g.get? key = some f ∧ FuncRecord.Spread f f' := by
  have hd : g.declares key = true := by
    rw [← h.sameUnit.declares]
    exact declares_of_get? hf
  obtain ⟨f, hg⟩ := Option.isSome_iff_exists.mp hd
  obtain ⟨f'', hg', hs⟩ := h.get? hg
  rw [hf, Option.some.injEq] at hg'
  exact ⟨f, hg, hg' ▸ hs⟩

theorem modifies (h : Spread g g') (hm : g.modifies key = true) : g'.modifies key = true := by
  obtain ⟨f, hf⟩ := Option.isSome_iff_exists.mp (declares_of_modifies hm)
  obtain ⟨f', hf', hs⟩ := h.get? hf
  rw [modifies_of_get? hf] at hm
  rw [modifies_of_get? hf', hs.modifies hm]

theorem marks (h : Spread g g') :
    List.Forall₂ (fun a b => a = true → b = true) g.marks g'.marks := by
  unfold CallGraph.marks
  rw [List.forall₂_map_left_iff, List.forall₂_map_right_iff]
  exact h.functions.imp fun _ _ hs => hs.modifies

/-- Where no mark was added, the functions are the same. -/
theorem functions_eq (h : Spread g g') (hm : g'.marks = g.marks) :
    g'.functions = g.functions := by
  have hs := h.functions
  unfold CallGraph.marks at hm
  generalize g.functions = fs, g'.functions = fs' at hs hm ⊢
  induction hs with
  | nil => rfl
  | @cons a _ _ _ ha _ ih =>
    simp only [List.map_cons, List.cons.injEq] at hm ⊢
    refine ⟨?_, ih hm.2⟩
    rcases ha with rfl | rfl
    · rfl
    · have ht : a.modifies = true := hm.1.symm
      rw [← ht]

end Spread

theorem Contaminated.of_calls {g : CallGraph} {caller callee : String}
    (hc : g.Calls caller callee) (h : g.Contaminated callee) : g.Contaminated caller := by
  obtain ⟨target, hr, hm⟩ := h
  exact ⟨target, .head hc hr, hm⟩

namespace Sweep

def pair (c : Contamination) : String × String := (c.caller, c.callee)

/-- All calls of a function that was marked when the sweep started have marked their caller and are
reported. -/
def Covers (s : Sweep) (g : CallGraph) (caller : String) (callees : List String) : Prop :=
  ∀ callee ∈ callees, g.modifies callee = true →
    s.graph.modifies caller = true ∧ (caller, callee) ∈ s.graph.reported

/-- What is true all through a sweep that starts from `g`. The answers kept need not be final: an
answer is only known to be between the mark at the start and the mark now. -/
structure Holds (g : CallGraph) (s : Sweep) : Prop where
  spread : Spread g s.graph
  sound : ∀ key, s.graph.modifies key = true → g.Contaminated key
  least : ∀ key answer, (key, answer) ∈ s.memo → g.modifies key = true → answer = true
  most : ∀ key answer, (key, answer) ∈ s.memo → answer = true → s.graph.modifies key = true
  covers : ∀ key answer, (key, answer) ∈ s.memo → ∀ f, g.get? key = some f →
    s.Covers g key f.calls
  accounts : s.graph.reported = (s.found.map pair).reverse ++ g.reported
  found : ∀ c ∈ s.found, ∃ f, g.get? c.caller = some f ∧ c.callee ∈ f.calls ∧
    s.graph.modifies c.callee = true ∧ c.site = g.findCall? f c.callee

structure Later (s s' : Sweep) : Prop where
  spread : Spread s.graph s'.graph
  memo : s.memo ⊆ s'.memo

namespace Later

variable {s s' s'' : Sweep}

theorem refl (s : Sweep) : Later s s := ⟨.refl _, fun _ h => h⟩

theorem trans (h : Later s s') (h' : Later s' s'') : Later s s'' :=
  ⟨h.spread.trans h'.spread, List.Subset.trans h.memo h'.memo⟩

theorem covers (h : Later s s') {g : CallGraph} {caller : String} {callees : List String}
    (hc : s.Covers g caller callees) : s'.Covers g caller callees := by
  intro callee hm hg
  obtain ⟨hmark, hrep⟩ := hc callee hm hg
  exact ⟨h.spread.modifies hmark, h.spread.reported hrep⟩

end Later

variable {g : CallGraph} {s : Sweep} {f f' : FuncRecord} {key callee : String}

theorem holds_start (g : CallGraph) : Holds g { graph := g } where
  spread := .refl g
  sound key h := ⟨key, .refl, h⟩
  least := by simp
  most := by simp
  covers := by simp
  accounts := rfl
  found := by simp

theorem contaminate_cases (s : Sweep) (caller : FuncRecord) (callee : String) :
    ((caller.key, callee) ∈ s.graph.reported ∧
      s.contaminate caller callee = { s with graph := s.graph.setModifies caller.key }) ∨
    ((caller.key, callee) ∉ s.graph.reported ∧
      s.contaminate caller callee = { s with
        graph := { s.graph.setModifies caller.key with
          reported := (caller.key, callee) :: s.graph.reported }
        found := s.found ++ [⟨caller.key, callee, s.graph.findCall? caller callee⟩] }) := by
  by_cases h : (caller.key, callee) ∈ s.graph.reported
  · exact .inl ⟨h, by simp [contaminate, h]⟩
  · exact .inr ⟨h, by simp [contaminate, h]⟩

theorem later_contaminate (s : Sweep) (caller : FuncRecord) (callee : String) :
    Later s (s.contaminate caller callee) := by
  have hm := Spread.setModifies s.graph caller.key
  obtain ⟨-, he⟩ | ⟨-, he⟩ := contaminate_cases s caller callee
  · rw [he]
    exact ⟨hm, fun _ h => h⟩
  · rw [he]
    exact ⟨⟨hm.unitName, hm.unitPath, hm.functions, List.subset_cons_of_subset _ fun _ h => h⟩,
      fun _ h => h⟩

theorem modifies_contaminate (s : Sweep) (caller : FuncRecord) (callee key : String) :
    (s.contaminate caller callee).graph.modifies key =
      (s.graph.modifies key || (key == caller.key && s.graph.declares key)) := by
  rw [← modifies_setModifies]
  obtain ⟨-, he⟩ | ⟨-, he⟩ := contaminate_cases s caller callee
  · rw [he]
  · rw [he]
    rfl

theorem memo_contaminate (s : Sweep) (caller : FuncRecord) (callee : String) :
    (s.contaminate caller callee).memo = s.memo := by
  obtain ⟨-, he⟩ | ⟨-, he⟩ := contaminate_cases s caller callee <;> rw [he]

theorem mem_reported_contaminate (s : Sweep) (caller : FuncRecord) (callee : String) :
    (caller.key, callee) ∈ (s.contaminate caller callee).graph.reported := by
  obtain ⟨h, he⟩ | ⟨-, he⟩ := contaminate_cases s caller callee
  · rw [he]
    exact h
  · rw [he]
    exact List.mem_cons_self

theorem Holds.contaminate (h : Holds g s) (hf : g.get? f.key = some f) (hs : FuncRecord.Spread f f')
    (hcall : callee ∈ f.calls) (hm : s.graph.modifies callee = true) :
    Holds g (s.contaminate f' callee) := by
  have hl := later_contaminate s f' callee
  have hmemo := memo_contaminate s f' callee
  refine ⟨h.spread.trans hl.spread, ?_, ?_, ?_, ?_, ?_, ?_⟩
  · intro key hk
    rw [modifies_contaminate, Bool.or_eq_true] at hk
    rcases hk with hk | hk
    · exact h.sound key hk
    · simp only [Bool.and_eq_true, beq_iff_eq] at hk
      rw [hk.1, hs.key]
      refine .of_calls ⟨f, hf, hcall, ?_⟩ (h.sound callee hm)
      rw [← h.spread.sameUnit.declares]
      exact declares_of_modifies hm
  · rw [hmemo]
    exact h.least
  · intro key answer hk ha
    rw [hmemo] at hk
    exact hl.spread.modifies (h.most key answer hk ha)
  · intro key answer hk f hf
    rw [hmemo] at hk
    exact hl.covers (h.covers key answer hk f hf)
  · obtain ⟨-, he⟩ | ⟨-, he⟩ := contaminate_cases s f' callee
    · rw [he]
      exact h.accounts
    · simp [he, h.accounts, pair]
  · have hold : ∀ c ∈ s.found, ∃ f, g.get? c.caller = some f ∧ c.callee ∈ f.calls ∧
        (s.contaminate f' callee).graph.modifies c.callee = true ∧
        c.site = g.findCall? f c.callee := by
      intro c hc
      obtain ⟨f, hf, hcall, hm, hsite⟩ := h.found c hc
      exact ⟨f, hf, hcall, hl.spread.modifies hm, hsite⟩
    intro c hc
    obtain ⟨-, he⟩ | ⟨-, he⟩ := contaminate_cases s f' callee
    · rw [he] at hc
      exact hold c hc
    · have hc' : c ∈ s.found ∨ c = ⟨f'.key, callee, s.graph.findCall? f' callee⟩ := by
        simpa [he] using hc
      rcases hc' with hc | rfl
      · exact hold c hc
      · exact ⟨f, by rw [hs.key, hf], hcall, hl.spread.modifies hm,
          h.spread.sameUnit.findCall? hs.decl callee⟩

theorem Holds.remember (h : Holds g s) (hc : ∀ f, g.get? key = some f → s.Covers g key f.calls) :
    Holds g (s.remember key) := by
  refine ⟨h.spread, h.sound, ?_, ?_, ?_, h.accounts, h.found⟩
  · intro k answer hk hg
    rcases List.mem_cons.mp hk with he | hk
    · obtain ⟨rfl, rfl⟩ := Prod.mk.inj he
      exact h.spread.modifies hg
    · exact h.least k answer hk hg
  · intro k answer hk ha
    rcases List.mem_cons.mp hk with he | hk
    · obtain ⟨rfl, rfl⟩ := Prod.mk.inj he
      exact ha
    · exact h.most k answer hk ha
  · intro k answer hk
    rcases List.mem_cons.mp hk with he | hk
    · obtain ⟨rfl, rfl⟩ := Prod.mk.inj he
      exact hc
    · exact h.covers k answer hk

/-- What a visit of a function gives: an answer between the function's mark at the start of the
sweep and its mark after the visit. -/
structure Visited (g : CallGraph) (s : Sweep) (key : String) (r : Bool × Sweep) : Prop where
  holds : Holds g r.2
  later : Later s r.2
  least : g.modifies key = true → r.1 = true
  most : r.1 = true → r.2.graph.modifies key = true

theorem visitAll_holds {visit : String → Sweep → Bool × Sweep}
    (hv : ∀ key s, Holds g s → Visited g s key (visit key s))
    (hf : g.get? f.key = some f) (hs : FuncRecord.Spread f f') (callees : List String)
    (hsub : callees ⊆ f.calls) (h : Holds g s) :
    Holds g (visitAll visit f' callees s) ∧ Later s (visitAll visit f' callees s) ∧
      (visitAll visit f' callees s).Covers g f.key callees := by
  induction callees generalizing s with
  | nil => exact ⟨h, .refl s, by simp [Covers]⟩
  | cons callee rest ih =>
    have hvis := hv callee s h
    have hcall : callee ∈ f.calls := hsub (by simp)
    have hrest : rest ⊆ f.calls := fun c hc => hsub (List.mem_cons_of_mem _ hc)
    simp only [visitAll]
    split
    case isTrue hit =>
      have hnow := hvis.holds.contaminate hf hs hcall (hvis.most hit)
      obtain ⟨h', hl, hc⟩ := ih hrest hnow
      refine ⟨h', hvis.later.trans ((later_contaminate _ _ _).trans hl), ?_⟩
      intro c hmem hg
      rcases List.mem_cons.mp hmem with rfl | hmem
      · have hrep := mem_reported_contaminate (visit c s).2 f' c
        rw [hs.key] at hrep
        refine ⟨hl.spread.modifies ?_, hl.spread.reported hrep⟩
        have hd : (visit c s).2.graph.declares f.key = true := by
          rw [hvis.holds.spread.sameUnit.declares]
          exact declares_of_get? hf
        simp [modifies_contaminate, hs.key, hd]
      · exact hc c hmem hg
    case isFalse hit =>
      obtain ⟨h', hl, hc⟩ := ih hrest hvis.holds
      refine ⟨h', hvis.later.trans hl, ?_⟩
      intro c hmem hg
      rcases List.mem_cons.mp hmem with rfl | hmem
      -- a callee marked at the start cannot have answered no
      · exact absurd (hvis.least hg) hit
      · exact hc c hmem hg

theorem mem_of_lookup {memo : List (String × Bool)} {answer : Bool}
    (h : memo.lookup key = some answer) : (key, answer) ∈ memo := by
  obtain ⟨l₁, l₂, rfl, -⟩ := List.lookup_eq_some_iff.mp h
  simp

/-- A visit gives a kept answer, or nothing for a key of no function, or the mark so far, or it goes
through all callees. -/
theorem visit_cases (depth : Nat) (visiting : List String) (key : String) (s : Sweep) :
    (∃ answer, (key, answer) ∈ s.memo ∧ visit depth visiting key s = (answer, s)) ∨
    (s.graph.get? key = none ∧ visit depth visiting key s = (false, s)) ∨
    ((depth = 0 ∨ key ∈ visiting) ∧ visit depth visiting key s = (s.graph.modifies key, s)) ∨
    (∃ d f, depth = d + 1 ∧ s.graph.get? key = some f ∧ visit depth visiting key s =
      ((visitAll (visit d (key :: visiting)) f f.uniqueCalls s).graph.modifies key,
        (visitAll (visit d (key :: visiting)) f f.uniqueCalls s).remember key)) := by
  rw [visit]
  cases hl : s.memo.lookup key with
  | some answer => exact .inl ⟨answer, mem_of_lookup hl, rfl⟩
  | none =>
    cases hg : s.graph.get? key with
    | none => exact .inr (.inl ⟨rfl, rfl⟩)
    | some f =>
      have hm := modifies_of_get? hg
      cases depth with
      | zero => exact .inr (.inr (.inl ⟨.inl rfl, by rw [hm]⟩))
      | succ d =>
        by_cases hv : key ∈ visiting
        · exact .inr (.inr (.inl ⟨.inr hv, by simp [hv, hm]⟩))
        · exact .inr (.inr (.inr ⟨d, f, rfl, rfl, by simp [hv]⟩))

theorem visit_holds (depth : Nat) (visiting : List String) (key : String) (h : Holds g s) :
    Visited g s key (visit depth visiting key s) := by
  induction depth using Nat.strongRecOn generalizing visiting key s with
  | _ depth ih =>
    obtain ⟨answer, hk, he⟩ | ⟨hn, he⟩ | ⟨-, he⟩ | ⟨d, f', rfl, hf', he⟩ :=
      visit_cases depth visiting key s
    · rw [he]
      exact ⟨h, .refl s, h.least key answer hk, h.most key answer hk⟩
    · rw [he]
      refine ⟨h, .refl s, fun hg => ?_, nofun⟩
      have hd := declares_of_modifies (h.spread.modifies hg)
      simp [declares, hn] at hd
    -- cut off by the depth or by a cycle: the mark so far is all that the answer promises
    · rw [he]
      exact ⟨h, .refl s, h.spread.modifies, id⟩
    · obtain ⟨f, hf, hs⟩ := h.spread.get?_back hf'
      have hk : f.key = key := get?_key hf
      have hu : f'.uniqueCalls ⊆ f.calls := by
        intro callee hc
        simpa [FuncRecord.uniqueCalls, hs.calls] using hc
      obtain ⟨h', hl, hc⟩ := visitAll_holds (fun k t ht => ih d (by omega) (key :: visiting) k ht)
        (hk.symm ▸ hf) hs f'.uniqueCalls hu h
      rw [hk] at hc
      rw [he]
      refine ⟨h'.remember ?_, hl.trans ⟨.refl _, List.subset_cons_of_subset _ fun _ h => h⟩,
        fun hg => h'.spread.modifies hg, id⟩
      intro f₀ hf₀
      rw [hf, Option.some.injEq] at hf₀
      subst hf₀
      intro callee hm hg
      exact hc callee (by simpa [FuncRecord.uniqueCalls, hs.calls] using hm) hg

theorem mem_memo_visit (depth : Nat) (hd : depth ≠ 0) {visiting : List String}
    (hv : key ∉ visiting) (hk : s.graph.declares key = true) :
    ∃ answer, (key, answer) ∈ (visit depth visiting key s).2.memo := by
  obtain ⟨answer, hm, he⟩ | ⟨hn, -⟩ | ⟨hz | hm, -⟩ | ⟨d, f, -, -, he⟩ :=
    visit_cases depth visiting key s
  · exact ⟨answer, by rwa [he]⟩
  · simp [declares, hn] at hk
  · exact absurd hz hd
  · exact absurd hm hv
  · exact ⟨_, by rw [he]; exact List.mem_cons_self⟩

theorem visits_hold (keys : List String) (h : Holds g s)
    (hd : ∀ key ∈ keys, g.declares key = true) :
    Holds g (keys.foldl (fun s key => (visit maxDepth [] key s).2) s) ∧
      Later s (keys.foldl (fun s key => (visit maxDepth [] key s).2) s) ∧
      ∀ key ∈ keys, ∃ answer,
        (key, answer) ∈ (keys.foldl (fun s key => (visit maxDepth [] key s).2) s).memo := by
  induction keys generalizing s with
  | nil => exact ⟨h, .refl s, by simp⟩
  | cons key rest ih =>
    have hv := visit_holds maxDepth [] key h
    have hk : s.graph.declares key = true := by
      rw [h.spread.sameUnit.declares]
      exact hd key (by simp)
    obtain ⟨answer, hm⟩ := mem_memo_visit maxDepth (by decide) List.not_mem_nil hk
    obtain ⟨h', hl, hrest⟩ := ih hv.holds fun k hm => hd k (List.mem_cons_of_mem _ hm)
    refine ⟨h', hv.later.trans hl, ?_⟩
    intro k hmem
    rcases List.mem_cons.mp hmem with rfl | hmem
    · exact ⟨answer, hl.memo hm⟩
    · exact hrest k hmem

theorem run_holds (g : CallGraph) : Holds g (run g) :=
  (visits_hold g.keys (holds_start g) fun _ hk => declares_iff.mpr hk).1

/-- A sweep looks at every call: that of a marked function marks its caller and is reported. -/
theorem run_covers (hf : g.get? key = some f) : (run g).Covers g key f.calls := by
  have hk : key ∈ g.keys := declares_iff.mp (declares_of_get? hf)
  obtain ⟨h, -, hm⟩ := visits_hold g.keys (holds_start g) fun _ hk => declares_iff.mpr hk
  obtain ⟨answer, ha⟩ := hm key hk
  exact h.covers key answer ha f hf

end Sweep

end CallGraph

end ReadGuard
