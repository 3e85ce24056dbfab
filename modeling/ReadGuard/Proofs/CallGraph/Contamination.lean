import ReadGuard.Proofs.CallGraph.Sweep

namespace ReadGuard.CallGraph

/-- Sweeping without a limit: a sweep that sets no mark is the last one. -/
inductive SweepsTo : CallGraph → Closure → Prop
  | stable {g : CallGraph} (h : (Sweep.run g).graph.marks = g.marks) :
      SweepsTo g ⟨(Sweep.run g).graph, (Sweep.run g).found, 1⟩
  | again {g : CallGraph} {rest : Closure} (h : (Sweep.run g).graph.marks ≠ g.marks)
      (hr : SweepsTo (Sweep.run g).graph rest) :
      SweepsTo g ⟨rest.graph, (Sweep.run g).found ++ rest.found, rest.passes + 1⟩

def changedMarks (g g' : CallGraph) : Nat :=
  ((g.marks.zip g'.marks).filter fun m => m.1 ≠ m.2).length

section Marks

variable {g g' : CallGraph}

theorem count_marks (h : Spread g g') :
    g'.marks.count true = g.marks.count true + changedMarks g g' := by
  unfold changedMarks
  have hm := h.marks
  generalize g.marks = ms, g'.marks = ms' at hm ⊢
  induction hm with
  | nil => rfl
  | @cons a b _ _ ha _ ih =>
    cases a <;> cases b <;> simp_all <;> omega

theorem changedMarks_pos (h : Spread g g') (hne : g'.marks ≠ g.marks) : 0 < changedMarks g g' := by
  unfold changedMarks
  have hm := h.marks
  generalize g.marks = ms, g'.marks = ms' at hm hne ⊢
  induction hm with
  | nil => simp at hne
  | @cons a b _ _ ha _ ih =>
    by_cases hab : a = b
    · subst hab
      simpa using ih (by simpa using hne)
    · simp [hab]

theorem count_marks_le (g : CallGraph) : g.marks.count true ≤ g.size := by
  have hl : g.marks.length = g.size := by simp [marks, size]
  rw [← hl]
  exact List.count_le_length

theorem size_of_spread (h : Spread g g') : g'.size = g.size := by
  have hk := congrArg List.length h.sameUnit.keys
  simpa [keys, size] using hk

end Marks

/-- Each sweep but the last sets a mark, so the limit on the number of sweeps is never met. -/
theorem sweepUntilStable_sweepsTo (limit : Nat) (g : CallGraph)
    (h : g.size < limit + g.marks.count true) : SweepsTo g (sweepUntilStable limit g) := by
  induction limit generalizing g with
  | zero =>
    have hc := count_marks_le g
    omega
  | succ limit ih =>
    have hs := (Sweep.run_holds g).spread
    simp only [sweepUntilStable]
    split
    case isTrue hm => exact .stable hm
    case isFalse hm =>
      apply SweepsTo.again hm
      apply ih
      have hc := count_marks hs
      have hp := changedMarks_pos hs hm
      have hz := size_of_spread hs
      omega

theorem propagate_sweepsTo (g : CallGraph) : SweepsTo g g.propagate :=
  sweepUntilStable_sweepsTo _ g (by omega)

section Spread

variable {g g' : CallGraph} {key : String}

theorem Spread.calls_iff (h : Spread g g') {caller callee : String} :
    g'.Calls caller callee ↔ g.Calls caller callee := by
  constructor
  · rintro ⟨f', hf', hc, hd⟩
    obtain ⟨f, hf, hs⟩ := h.get?_back hf'
    exact ⟨f, hf, hs.calls ▸ hc, by rwa [h.sameUnit.declares] at hd⟩
  · rintro ⟨f, hf, hc, hd⟩
    obtain ⟨f', hf', hs⟩ := h.get? hf
    exact ⟨f', hf', hs.calls ▸ hc, by rwa [h.sameUnit.declares]⟩

/-- If all marks set so far are deserved, so are those that the new marks lead to. -/
theorem Contaminated.of_spread (h : Spread g g')
    (hs : ∀ k, g'.modifies k = true → g.Contaminated k) (hc : g'.Contaminated key) :
    g.Contaminated key := by
  obtain ⟨target, hr, hm⟩ := hc
  induction hr using Relation.ReflTransGen.head_induction_on with
  | refl => exact hs target hm
  | head hcall _ ih => exact .of_calls (h.calls_iff.mp hcall) ih

end Spread

namespace SweepsTo

variable {g : CallGraph} {c : Closure}

theorem spread (h : SweepsTo g c) : Spread g c.graph := by
  induction h with
  | stable _ => exact (Sweep.run_holds _).spread
  | again _ _ ih => exact (Sweep.run_holds _).spread.trans ih

theorem sound (h : SweepsTo g c) {key : String} (hm : c.graph.modifies key = true) :
    g.Contaminated key := by
  induction h with
  | stable _ => exact (Sweep.run_holds _).sound key hm
  | @again g _ _ _ ih =>
    have hs := Sweep.run_holds g
    exact .of_spread hs.spread hs.sound (ih hm)

/-- The last sweep sees all marks, so every call of a marked function has marked its caller and is
reported. -/
theorem covers (h : SweepsTo g c) {key : String} {f : FuncRecord} (hf : g.get? key = some f)
    {callee : String} (hc : callee ∈ f.calls) (hm : c.graph.modifies callee = true) :
    c.graph.modifies key = true ∧ (key, callee) ∈ c.graph.reported := by
  induction h generalizing f with
  | @stable g hst =>
    -- no mark was set in the last sweep, so it knew all marks from its start
    have hfun := (Sweep.run_holds g).spread.functions_eq hst
    apply Sweep.run_covers hf callee hc
    simpa only [modifies, known, get?, hfun] using hm
  | @again g _ _ _ ih =>
    obtain ⟨f', hf', hs⟩ := (Sweep.run_holds g).spread.get? hf
    exact ih hf' (hs.calls ▸ hc) hm

theorem complete (h : SweepsTo g c) {key : String} (hc : g.Contaminated key) :
    c.graph.modifies key = true := by
  obtain ⟨target, hr, hm⟩ := hc
  induction hr using Relation.ReflTransGen.head_induction_on with
  | refl => exact h.spread.modifies hm
  | head hcall _ ih =>
    obtain ⟨f, hf, hmem, -⟩ := hcall
    exact (h.covers hf hmem ih).1

theorem passes_le (h : SweepsTo g c) : c.passes ≤ 1 + changedMarks g c.graph := by
  induction h with
  | stable _ => simp
  | @again g rest hne hr ih =>
    have hs := (Sweep.run_holds g).spread
    have hp := changedMarks_pos hs hne
    have h₁ := count_marks hs
    have h₂ := count_marks hr.spread
    have h₃ := count_marks (hs.trans hr.spread)
    dsimp only
    omega

theorem accounts (h : SweepsTo g c) :
    c.graph.reported = (c.found.map Sweep.pair).reverse ++ g.reported := by
  induction h with
  | stable _ => exact (Sweep.run_holds _).accounts
  | again _ _ ih =>
    rw [ih, (Sweep.run_holds _).accounts, List.map_append, List.reverse_append, List.append_assoc]

theorem found (h : SweepsTo g c) {x : Contamination} (hx : x ∈ c.found) :
    ∃ f, g.get? x.caller = some f ∧ x.callee ∈ f.calls ∧ c.graph.modifies x.callee = true ∧
      x.site = g.findCall? f x.callee := by
  induction h with
  | stable _ => exact (Sweep.run_holds _).found x hx
  | @again g _ _ hr ih =>
    have hs := Sweep.run_holds g
    rcases List.mem_append.mp hx with hx | hx
    · obtain ⟨f, hf, hc, hm, hsite⟩ := hs.found x hx
      exact ⟨f, hf, hc, hr.spread.modifies hm, hsite⟩
    · obtain ⟨f', hf', hc, hm, hsite⟩ := ih hx
      obtain ⟨f, hf, hff⟩ := hs.spread.get?_back hf'
      exact ⟨f, hf, hff.calls ▸ hc, hm, hsite.trans (hs.spread.sameUnit.findCall? hff.decl _)⟩

end SweepsTo

/-- The marks spread to exactly the functions from which some way along calls leads to one that was
marked before, and a sweep is made for each new mark at most, beside the last. -/
theorem propagate_marks_callers (g : CallGraph) :
    SweepsTo g g.propagate ∧ Spread g g.propagate.graph ∧
      (∀ key, g.propagate.graph.modifies key = true ↔
        ∃ target, Relation.ReflTransGen g.Calls key target ∧ g.modifies target = true) ∧
      g.propagate.passes ≤ 1 + changedMarks g g.propagate.graph := by
  have h := propagate_sweepsTo g
  exact ⟨h, h.spread, fun _ => ⟨h.sound, h.complete⟩, h.passes_le⟩

end ReadGuard.CallGraph
