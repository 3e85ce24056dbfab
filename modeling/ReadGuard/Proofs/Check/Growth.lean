import ReadGuard.Proofs.CallGraph.Bindings
import ReadGuard.Proofs.Check.Wording

namespace ReadGuard

namespace CallGraph

def received (g : CallGraph) (key : String) : List Int × List (Int × Expr) :=
  g.known FuncRecord.received ([], []) key

def IsTainted (g : CallGraph) (key : String) (index : Int) : Prop :=
  index ∈ (g.received key).1

variable {g : CallGraph} {key : String} {f : FuncRecord}

theorem received_of_get? (h : g.get? key = some f) : g.received key = f.received :=
  known_of_get? h _ _

theorem isTainted_of_get? (h : g.get? key = some f) {index : Int} :
    g.IsTainted key index ↔ f.isTainted index = true := by
  rw [IsTainted, received_of_get? h, FuncRecord.isTainted_iff]
  rfl

theorem received_taint_of_ne (g : CallGraph) {key k : String} (h : k ≠ key) (index : Int)
    (source : Expr) : (g.taint key index source).received k = g.received k := by
  have hc : ∀ f : FuncRecord, (f.taint index source).key = f.key := fun f => f.key_taint _ _
  rw [received, received, known, known, taint, get?_update_of_ne g key hc h]

theorem get?_taint (h : g.get? key = some f) (index : Int) (source : Expr) :
    (g.taint key index source).get? key = some (f.taint index source) := by
  have hc : ∀ f : FuncRecord, (f.taint index source).key = f.key := fun f => f.key_taint _ _
  rw [taint, get?_update_self g key hc, h, Option.map_some]

theorem received_setModifies (g : CallGraph) (key k : String) :
    (g.setModifies key).received k = g.received k := by
  apply known_update <;> intro f <;> rfl

theorem received_recordCall (g : CallGraph) (caller callee k : String) :
    (g.recordCall caller callee).received k = g.received k := by
  apply known_update <;> intro f <;> rfl

theorem modifies_recordCall (g : CallGraph) (caller callee k : String) :
    (g.recordCall caller callee).modifies k = g.modifies k := by
  apply known_update <;> intro f <;> rfl

theorem mem_functions_update {change : FuncRecord → FuncRecord}
    (hf : f ∈ (g.update key change).functions) :
    ∃ f₀ ∈ g.functions, f = f₀ ∨ f₀.key = key ∧ f = change f₀ := by
  obtain ⟨f₀, hf₀, rfl⟩ := List.mem_map.mp hf
  by_cases hk : f₀.key = key
  · exact ⟨f₀, hf₀, .inr ⟨hk, if_pos hk⟩⟩
  · exact ⟨f₀, hf₀, .inl (if_neg hk)⟩

end CallGraph

namespace Run

/-- What a check keeps while it goes on: nothing found is dropped, and a function with a newly
tainted parameter waits to be looked at again. -/
structure Grows (r r' : Run) : Prop where
  sameUnit : r.graph.SameUnit r'.graph
  modifies : ∀ key, r.graph.modifies key = true → r'.graph.modifies key = true
  tainted : ∀ key index, r.graph.IsTainted key index → r'.graph.IsTainted key index
  requeued : ∀ key, r'.graph.received key = r.graph.received key ∨ key ∈ r'.queue
  issues : r.issues.issues ⊆ r'.issues.issues
  escapes : r.escapes ⊆ r'.escapes
  queue : ∀ ⦃key⦄, key ∈ r.queue → key ∈ r'.queue

namespace Grows

variable {r r' r'' : Run}

theorem refl (r : Run) : Grows r r :=
  ⟨.refl _, fun _ h => h, fun _ _ h => h, fun _ => .inl rfl, fun _ h => h, fun _ h => h,
    fun _ h => h⟩

theorem trans (h : Grows r r') (h' : Grows r' r'') : Grows r r'' where
  sameUnit := h.sameUnit.trans h'.sameUnit
  modifies key hm := h'.modifies key (h.modifies key hm)
  tainted key index ht := h'.tainted key index (h.tainted key index ht)
  requeued key := by
    rcases h'.requeued key with hs' | hq
    · rcases h.requeued key with hs | hq
      · exact .inl (hs'.trans hs)
      · exact .inr (h'.queue hq)
    · exact .inr hq
  issues := List.Subset.trans h.issues h'.issues
  escapes := List.Subset.trans h.escapes h'.escapes
  queue _ hk := h'.queue (h.queue hk)

end Grows

theorem grows_note (r : Run) (n : Note) : Grows r (r.note n) :=
  ⟨.refl _, fun _ h => h, fun _ _ h => h, fun _ => .inl rfl, fun _ h => h, fun _ h => h,
    fun _ h => h⟩

theorem grows_report (r : Run) (i : Issue) : Grows r (r.report i) :=
  ⟨.refl _, fun _ h => h, fun _ _ h => h, fun _ => .inl rfl, fun _ h => IssueSet.mem_add_of_mem h,
    fun _ h => h, fun _ h => h⟩

theorem grows_setModifies (r : Run) (key : String) :
    Grows r { r with graph := r.graph.setModifies key } := by
  have hs := r.graph.received_setModifies key
  refine ⟨.setModifies _ _, ?_, ?_, fun k => .inl (hs k), fun _ h => h, fun _ h => h,
    fun _ h => h⟩
  · intro k hm
    simp [CallGraph.modifies_setModifies, hm]
  · intro k index ht
    unfold CallGraph.IsTainted
    rw [hs k]
    exact ht

theorem grows_recordCall (r : Run) (key callee : String) :
    Grows r { r with graph := r.graph.recordCall key callee } := by
  have hs := r.graph.received_recordCall key callee
  have hm := r.graph.modifies_recordCall key callee
  refine ⟨.recordCall _ _ _, ?_, ?_, fun k => .inl (hs k), fun _ h => h, fun _ h => h,
    fun _ h => h⟩
  · intro k h
    rw [hm k]
    exact h
  · intro k index ht
    unfold CallGraph.IsTainted
    rw [hs k]
    exact ht

theorem modifies_taint (r : Run) (key : String) (index : Nat) (source : Expr) (k : String) :
    (r.taint key index source).graph.modifies k = r.graph.modifies k := by
  obtain ⟨-, he⟩ | ⟨f, -, -, he⟩ := taint_cases r key index source
  · rw [he]
  · rw [he]
    apply CallGraph.known_update <;> intro f <;> unfold FuncRecord.taint <;> split <;> rfl

theorem grows_taint (r : Run) (key : String) (index : Nat) (source : Expr) :
    Grows r (r.taint key index source) := by
  obtain ⟨-, he⟩ | ⟨f, hf, hn, he⟩ := taint_cases r key index source
  · rw [he]
    exact .refl r
  have hm := modifies_taint r key index source
  rw [he] at hm ⊢
  refine ⟨.taint _ _ _ _, ?_, ?_, ?_, fun _ h => h, fun _ h => h,
    fun _ hk => Queue.mem_push.mpr (.inr hk)⟩
  · intro k h
    rw [hm k]
    exact h
  · intro k i ht
    by_cases hk : k = key
    · subst hk
      rw [CallGraph.isTainted_of_get? hf] at ht
      rw [CallGraph.isTainted_of_get? (CallGraph.get?_taint hf index source),
        FuncRecord.isTainted_iff, (FuncRecord.tainted_taint_perm source hn).mem_iff]
      exact List.mem_cons_of_mem _ (FuncRecord.isTainted_iff.mp ht)
    · unfold CallGraph.IsTainted
      rw [CallGraph.received_taint_of_ne _ hk]
      exact ht
  · intro k
    by_cases hk : k = key
    · exact .inr (hk ▸ Queue.mem_push.mpr (.inl rfl))
    · exact .inl (CallGraph.received_taint_of_ne _ hk _ _)

theorem isTainted_of_taint {r : Run} {key k : String} {index : Nat} {source : Expr} {n : Int}
    (h : (r.taint key index source).graph.IsTainted k n) :
    r.graph.IsTainted k n ∨ r.graph.declares k = true ∧ k = key ∧ n = index := by
  obtain ⟨-, he⟩ | ⟨f, hf, hn, he⟩ := taint_cases r key index source
  · rw [he] at h
    exact .inl h
  · rw [he] at h
    by_cases hk : k = key
    · subst hk
      rw [CallGraph.isTainted_of_get? (CallGraph.get?_taint hf index source),
        FuncRecord.isTainted_iff, (FuncRecord.tainted_taint_perm source hn).mem_iff,
        List.mem_cons] at h
      rcases h with rfl | h
      · exact .inr ⟨CallGraph.declares_of_get? hf, rfl, rfl⟩
      · rw [CallGraph.isTainted_of_get? hf]
        exact .inl (FuncRecord.isTainted_iff.mpr h)
    · unfold CallGraph.IsTainted at h ⊢
      dsimp only at h
      rw [CallGraph.received_taint_of_ne _ hk] at h
      exact .inl h

theorem isTainted_taint (r : Run) (key : String) (index : Nat) (source : Expr)
    (hd : r.graph.declares key = true) : (r.taint key index source).graph.IsTainted key index := by
  obtain ⟨ht, he⟩ | ⟨f, hf, hn, he⟩ := taint_cases r key index source
  · obtain ⟨f, hf⟩ := Option.isSome_iff_exists.mp hd
    rw [he, CallGraph.isTainted_of_get? hf]
    exact ht f hf
  · rw [he, CallGraph.isTainted_of_get? (CallGraph.get?_taint hf index source),
      FuncRecord.isTainted_iff, (FuncRecord.tainted_taint_perm source hn).mem_iff]
    exact List.mem_cons_self

theorem grows_absorb (recording : Bool) (key : String) (r : Run) (e : Effect) :
    Grows r (r.absorb recording key e) := by
  cases e with
  | calls callee =>
    cases recording
    · exact .refl r
    · exact grows_recordCall r key callee
  | breach i =>
    obtain ⟨-, -, he⟩ | ⟨-, he⟩ := blame_cases r key i
    · rw [absorb, he]
      exact (grows_report r i).trans ((grows_note _ (.mutates key i)).trans
        (grows_setModifies _ key))
    · rw [absorb, he]
      exact grows_report r i
  | binds b => exact grows_note r _
  | passes pos callee index source =>
    have hesc : Grows r { r with escapes := (pos, callee) :: r.escapes } :=
      ⟨.refl _, fun _ h => h, fun _ _ h => h, fun _ => .inl rfl, fun _ h => h,
        List.subset_cons_of_subset _ fun _ h => h, fun _ h => h⟩
    exact hesc.trans ((grows_report _ _).trans (grows_taint _ callee index source))

theorem grows_absorbAll (recording : Bool) (key : String) (r : Run) (es : List Effect) :
    Grows r (r.absorbAll recording key es) := by
  induction es generalizing r with
  | nil => exact .refl r
  | cons e es ih => exact (grows_absorb recording key r e).trans (ih _)

def Absorbed (r : Run) (key : String) : Effect → Prop
  | .breach i => i ∈ r.issues.issues ∧ (i.rule.mutates = true → r.graph.modifies key = true)
  | .passes pos callee index source =>
    (pos, callee) ∈ r.escapes ∧ escapeIssue pos source callee ∈ r.issues.issues ∧
      (r.graph.declares callee = true → r.graph.IsTainted callee index)
  | _ => True

theorem Absorbed.grows {r r' : Run} {key : String} {e : Effect} (h : r.Absorbed key e)
    (hg : Grows r r') : r'.Absorbed key e := by
  cases e with
  | breach i => exact ⟨hg.issues h.1, fun hr => hg.modifies key (h.2 hr)⟩
  | passes pos callee index source =>
    refine ⟨hg.escapes h.1, hg.issues h.2.1, fun hd => hg.tainted callee index (h.2.2 ?_)⟩
    rwa [hg.sameUnit.declares] at hd
  | calls callee => trivial
  | binds b => trivial

theorem taint_frame (r : Run) (key : String) (index : Nat) (source : Expr) :
    (r.taint key index source).issues = r.issues ∧
      (r.taint key index source).escapes = r.escapes := by
  obtain ⟨-, he⟩ | ⟨f, -, -, he⟩ := taint_cases r key index source <;> rw [he] <;>
    exact ⟨rfl, rfl⟩

theorem reported_absorb (recording : Bool) (key : String) (r : Run) (e : Effect) :
    (r.absorb recording key e).issues =
      (match e with
      | .breach i => r.issues.add i
      | .passes pos callee _ source => r.issues.add (escapeIssue pos source callee)
      | _ => r.issues) ∧
    (r.absorb recording key e).escapes =
      match e with
      | .passes pos callee _ _ => (pos, callee) :: r.escapes
      | _ => r.escapes := by
  cases e with
  | calls callee => cases recording <;> exact ⟨rfl, rfl⟩
  | breach i =>
    obtain ⟨-, -, he⟩ | ⟨-, he⟩ := blame_cases r key i <;> rw [absorb, he] <;> exact ⟨rfl, rfl⟩
  | binds b => exact ⟨rfl, rfl⟩
  | passes pos callee index source => exact taint_frame _ _ _ _

theorem worded_absorb {r : Run} (hr : r.issues.Worded) {e : Effect} (he : e.Proper)
    (recording : Bool) (key : String) : (r.absorb recording key e).issues.Worded := by
  rw [(reported_absorb _ _ _ _).1]
  cases e with
  | calls callee => exact hr
  | breach i => exact hr.add he.1
  | binds b => exact hr
  | passes pos callee index source => exact hr.add (escapeIssue_worded pos source callee)

theorem worded_absorbAll {r : Run} (hr : r.issues.Worded) {es : List Effect}
    (he : ∀ e ∈ es, e.Proper) (recording : Bool) (key : String) :
    (r.absorbAll recording key es).issues.Worded := by
  induction es generalizing r with
  | nil => exact hr
  | cons e es ih =>
    exact ih (worded_absorb hr (he e (by simp)) recording key) fun e' h =>
      he e' (List.mem_cons_of_mem _ h)

/-- Only a breach marks a function, and only the one it is in. -/
theorem modifies_absorb {recording : Bool} {key k : String} {r : Run} {e : Effect}
    (h : (r.absorb recording key e).graph.modifies k = true) :
    r.graph.modifies k = true ∨ k = key ∧ ∃ i, e = .breach i ∧ i.rule.mutates = true := by
  cases e with
  | calls callee =>
    cases recording with
    | false => exact .inl h
    | true =>
      exact .inl (r.graph.modifies_recordCall key callee k ▸ h)
  | breach i =>
    obtain ⟨hi, -, he⟩ | ⟨-, he⟩ := blame_cases r key i
    · rw [absorb, he] at h
      dsimp only at h
      rw [CallGraph.modifies_setModifies, Bool.or_eq_true, Bool.and_eq_true, beq_iff_eq] at h
      rcases h with h | ⟨hk, -⟩
      · exact .inl h
      · exact .inr ⟨hk, i, rfl, hi⟩
    · rw [absorb, he] at h
      exact .inl h
  | binds b => exact .inl h
  | passes pos callee index source =>
    have hm := modifies_taint ({ r with escapes := (pos, callee) :: r.escapes }.report
      ⟨pos, escapeMessage source callee, .pointerEscape⟩) callee index source k
    rw [absorb, hm] at h
    exact .inl h

/-- Only a pointer that is passed on taints a parameter. -/
theorem isTainted_absorb {recording : Bool} {key k : String} {n : Int} {r : Run} {e : Effect}
    (h : (r.absorb recording key e).graph.IsTainted k n) :
    r.graph.IsTainted k n ∨ r.graph.declares k = true ∧
      ∃ pos index source, e = .passes pos k index source ∧ n = index := by
  cases e with
  | calls callee =>
    cases recording with
    | false => exact .inl h
    | true =>
      unfold CallGraph.IsTainted at h ⊢
      exact .inl (r.graph.received_recordCall key callee k ▸ h)
  | breach i =>
    obtain ⟨-, -, he⟩ | ⟨-, he⟩ := blame_cases r key i
    · rw [absorb, he] at h
      unfold CallGraph.IsTainted at h ⊢
      exact .inl (r.graph.received_setModifies key k ▸ h)
    · rw [absorb, he] at h
      exact .inl h
  | binds b => exact .inl h
  | passes pos callee index source =>
    obtain h | ⟨hd, rfl, rfl⟩ := isTainted_of_taint h
    · exact .inl h
    · exact .inr ⟨hd, pos, index, source, rfl, rfl⟩

/-- The parameters of a function are as they were, unless a pointer is passed on to it. -/
theorem mem_functions_absorb {recording : Bool} {key : String} {r : Run} {e : Effect}
    {f : FuncRecord} (hf : f ∈ (r.absorb recording key e).graph.functions) :
    ∃ f₀ ∈ r.graph.functions, f.key = f₀.key ∧ (f.received = f₀.received ∨
      ∃ pos index source, e = .passes pos f₀.key index source ∧
        f.received = (f₀.taint index source).received) := by
  cases e with
  | calls callee =>
    cases recording with
    | false => exact ⟨f, hf, rfl, .inl rfl⟩
    | true =>
      obtain ⟨_, hf₀, rfl | ⟨-, rfl⟩⟩ := CallGraph.mem_functions_update hf <;>
        exact ⟨_, hf₀, rfl, .inl rfl⟩
  | breach i =>
    obtain ⟨-, -, he⟩ | ⟨-, he⟩ := blame_cases r key i
    · rw [absorb, he] at hf
      obtain ⟨_, hf₀, rfl | ⟨-, rfl⟩⟩ := CallGraph.mem_functions_update hf <;>
        exact ⟨_, hf₀, rfl, .inl rfl⟩
    · rw [absorb, he] at hf
      exact ⟨f, hf, rfl, .inl rfl⟩
  | binds b => exact ⟨f, hf, rfl, .inl rfl⟩
  | passes pos callee index source =>
    obtain ⟨-, he⟩ | ⟨-, -, -, he⟩ := taint_cases
      ({ r with escapes := (pos, callee) :: r.escapes }.report
        ⟨pos, escapeMessage source callee, .pointerEscape⟩) callee index source
    · rw [absorb, he] at hf
      exact ⟨f, hf, rfl, .inl rfl⟩
    · rw [absorb, he] at hf
      obtain ⟨f₀, hf₀, rfl | ⟨rfl, rfl⟩⟩ := CallGraph.mem_functions_update hf
      · exact ⟨f, hf₀, rfl, .inl rfl⟩
      · exact ⟨f₀, hf₀, f₀.key_taint _ _, .inr ⟨pos, index, source, rfl, rfl⟩⟩

/-- An effect in a declared function is part of the state once it is taken over. -/
theorem absorbed_absorb {r : Run} (hr : r.issues.Worded) {e : Effect} (he : e.Proper)
    (recording : Bool) {key : String} (hk : r.graph.declares key = true) :
    (r.absorb recording key e).Absorbed key e := by
  cases e with
  | calls callee => trivial
  | breach i =>
    refine ⟨?_, fun hm => ?_⟩
    · rw [(reported_absorb _ _ _ _).1]
      exact (hr.mem_add he.1).mpr (.inr rfl)
    · obtain ⟨-, -, hb⟩ | ⟨hb, hb'⟩ := blame_cases r key i
      · rw [absorb, hb]
        simp [CallGraph.modifies_setModifies, hk]
      · rw [absorb, hb']
        exact hb hm
  | binds b => trivial
  | passes pos callee index source =>
    refine ⟨?_, ?_, fun hd => ?_⟩
    · rw [(reported_absorb _ _ _ _).2]
      exact List.mem_cons_self
    · rw [(reported_absorb _ _ _ _).1]
      exact (hr.mem_add (escapeIssue_worded pos source callee)).mpr (.inr rfl)
    · apply isTainted_taint
      rwa [(sameUnit_absorb recording key r _).declares] at hd

theorem absorbed_absorbAll {r : Run} (hr : r.issues.Worded) {es : List Effect}
    (he : ∀ e ∈ es, e.Proper) (recording : Bool) {key : String}
    (hk : r.graph.declares key = true) {e : Effect} (h : e ∈ es) :
    (r.absorbAll recording key es).Absorbed key e := by
  induction es generalizing r with
  | nil => simp at h
  | cons e₀ es ih =>
    have he₀ := he e₀ (by simp)
    have hr' := worded_absorb hr he₀ recording key
    have hk' : (r.absorb recording key e₀).graph.declares key = true := by
      rwa [(sameUnit_absorb recording key r e₀).declares]
    rcases List.mem_cons.mp h with rfl | h
    · exact (absorbed_absorb hr he₀ recording hk).grows (grows_absorbAll recording key _ es)
    · exact ih hr' (fun e h => he e (List.mem_cons_of_mem _ h)) hk' h

end Run

end ReadGuard
