import ReadGuard.CallGraph.Basic

namespace ReadGuard.FuncRecord

variable {f f' : FuncRecord} {index : Int}

def received (f : FuncRecord) : List Int × List (Int × Expr) := (f.tainted, f.sources)

theorem isTainted_iff : f.isTainted index = true ↔ index ∈ f.tainted := by
  simp [isTainted]

theorem source?_isSome_iff :
    (f.source? index).isSome = true ↔ index ∈ f.sources.map Prod.fst := by
  unfold source?
  induction f.sources with
  | nil => simp
  | cons s rest ih =>
    by_cases h : index = s.1 <;> simp_all

theorem insertIndex_perm (index : Int) (indices : List Int) :
    (insertIndex index indices).Perm (index :: indices) := by
  induction indices with
  | nil => exact .refl _
  | cons i rest ih =>
    simp only [insertIndex]
    split
    · exact .refl _
    · exact (ih.cons i).trans (.swap _ _ _)

theorem insertIndex_sorted {indices : List Int} (h : indices.Pairwise (· < ·))
    (hn : index ∉ indices) : (insertIndex index indices).Pairwise (· < ·) := by
  induction indices with
  | nil => simp [insertIndex]
  | cons i rest ih =>
    rw [List.pairwise_cons] at h
    rw [List.mem_cons, not_or] at hn
    rw [insertIndex]
    by_cases hi : index < i
    · rw [if_pos hi, List.pairwise_cons]
      refine ⟨fun j hj => ?_, List.pairwise_cons.mpr h⟩
      obtain rfl | hj := List.mem_cons.mp hj
      · exact hi
      · exact Int.lt_trans hi (h.1 j hj)
    · rw [if_neg hi, List.pairwise_cons]
      refine ⟨fun j hj => ?_, ih h.2 hn.2⟩
      obtain rfl | hj := List.mem_cons.mp ((insertIndex_perm index rest).subset hj)
      · have hne := hn.1
        omega
      · exact h.1 j hj

theorem key_taint (f : FuncRecord) (index : Int) (source : Expr) :
    (f.taint index source).key = f.key := by
  unfold taint
  split <;> rfl

theorem tainted_taint_perm (source : Expr) (h : f.isTainted index = false) :
    (f.taint index source).tainted.Perm (index :: f.tainted) := by
  simp only [taint, h, Bool.false_eq_true, if_false]
  exact insertIndex_perm index f.tainted

theorem mem_sources_taint {source : Expr} {s : Int × Expr}
    (h : s ∈ (f.taint index source).sources) : s ∈ f.sources ∨ s = (index, source) := by
  unfold taint at h
  split at h
  · exact .inl h
  · dsimp only at h
    split at h
    · exact .inl h
    · simpa using h

/-- The tainted parameters are those that a field is known for, each once, and their indices count
from the first parameter. -/
structure Sourced (f : FuncRecord) : Prop where
  sorted : f.tainted.Pairwise (· < ·)
  nonneg : ∀ index ∈ f.tainted, 0 ≤ index
  keys : (f.sources.map Prod.fst).Perm f.tainted

def bound? (f : FuncRecord) (index : Int) : Option (String × Expr) :=
  (f.paramName? index).bind fun name => (f.source? index).map fun source => (name, source)

def bound (f : FuncRecord) : List (String × Expr) := f.tainted.filterMap f.bound?

theorem bound_congr (hd : f'.decl = f.decl) (hr : f'.received = f.received) :
    f'.bound = f.bound := by
  obtain ⟨ht, hs⟩ := Prod.mk.inj hr
  have hb : f'.bound? = f.bound? := by
    funext index
    simp only [bound?, paramName?, param?, source?, hd, hs]
  rw [bound, bound, ht, hb]

theorem mem_sources_of_source? {source : Expr} (h : f.source? index = some source) :
    (index, source) ∈ f.sources := by
  obtain ⟨before, after, hs, -⟩ := List.lookup_eq_some_iff.mp h
  simp [hs]

theorem mem_sources_of_mem_bound {b : String × Expr} (h : b ∈ f.bound) :
    ∃ index, (index, b.2) ∈ f.sources := by
  obtain ⟨index, -, hb⟩ := List.mem_filterMap.mp h
  obtain ⟨name, -, hname⟩ := Option.bind_eq_some_iff.mp hb
  obtain ⟨source, hs, rfl⟩ := Option.map_eq_some_iff.mp hname
  exact ⟨index, mem_sources_of_source? hs⟩

theorem binding?_cases (f : FuncRecord) (index : Int) :
    (∃ fault, f.binding? index = .error fault) ∨ f.binding? index = .ok (f.bound? index) := by
  unfold binding? bound?
  split
  · exact .inl ⟨_, rfl⟩
  · cases f.paramName? index with
    | none => exact .inr rfl
    | some name =>
      cases f.source? index with
      | none => exact .inl ⟨_, rfl⟩
      | some source => exact .inr rfl

theorem mapM_binding? (f : FuncRecord) (indices : List Int) :
    (∃ index ∈ indices, ∃ fault, f.binding? index = .error fault ∧
      indices.mapM f.binding? = .error fault) ∨
    indices.mapM f.binding? = .ok (indices.map f.bound?) := by
  induction indices with
  | nil => exact .inr rfl
  | cons index rest ih =>
    rw [List.mapM_cons]
    obtain ⟨fault, hi⟩ | hi := f.binding?_cases index
    · exact .inl ⟨index, List.mem_cons_self, fault, hi, by rw [hi]; rfl⟩
    obtain ⟨j, hj, fault, hf, hr⟩ | hr := ih
    · exact .inl ⟨j, List.mem_cons_of_mem _ hj, fault, hf, by rw [hi, hr]; rfl⟩
    · exact .inr (by rw [hi, hr]; rfl)

/-- The bindings are read in order, and fail with the first that cannot be read. -/
theorem bindings_cases (f : FuncRecord) :
    (∃ index ∈ f.tainted, ∃ fault, f.binding? index = .error fault ∧
      f.bindings = .error fault) ∨
    f.bindings = .ok f.bound := by
  unfold bindings
  obtain ⟨index, hi, fault, hf, h⟩ | h := f.mapM_binding? f.tainted
  · exact .inl ⟨index, hi, fault, hf, by rw [h]; rfl⟩
  · refine .inr ?_
    rw [h]
    change Except.ok (List.filterMap id (f.tainted.map f.bound?)) = .ok f.bound
    rw [List.filterMap_map]
    rfl

theorem bindings_eq_bound {bindings : List (String × Expr)} (h : f.bindings = .ok bindings) :
    bindings = f.bound := by
  obtain ⟨-, -, fault, -, he⟩ | he := f.bindings_cases
  · rw [h] at he
    cases he
  · rw [h] at he
    exact Except.ok.inj he

namespace Sourced

theorem of_untainted (ht : f.tainted = []) (hs : f.sources = []) : f.Sourced := by
  constructor <;> simp [ht, hs]

theorem congr (h : f.Sourced) (hr : f'.received = f.received) : f'.Sourced := by
  obtain ⟨ht, hs⟩ := Prod.mk.inj hr
  constructor
  · rw [ht]
    exact h.sorted
  · rw [ht]
    exact h.nonneg
  · rw [ht, hs]
    exact h.keys

theorem isTainted_iff (h : f.Sourced) :
    f.isTainted index = true ↔ ∃ source, f.source? index = some source := by
  rw [FuncRecord.isTainted_iff, ← h.keys.mem_iff, ← source?_isSome_iff, Option.isSome_iff_exists]

theorem taint (h : f.Sourced) (index : Nat) (source : Expr) : (f.taint index source).Sourced := by
  unfold FuncRecord.taint
  cases ht : f.isTainted index with
  | true => exact h
  | false =>
    have hn : (index : Int) ∉ f.tainted := by
      rw [← FuncRecord.isTainted_iff, ht]
      exact Bool.false_ne_true
    have hnone : ¬ (f.source? index).isSome = true := by
      rwa [source?_isSome_iff, h.keys.mem_iff]
    have hp := insertIndex_perm (index : Int) f.tainted
    refine ⟨insertIndex_sorted h.sorted hn, fun j hj => ?_, ?_⟩
    · obtain rfl | hj := List.mem_cons.mp (hp.subset hj)
      · exact Int.natCast_nonneg index
      · exact h.nonneg j hj
    · simp only [Bool.false_eq_true, if_false, if_neg hnone, List.map_append, List.map_singleton]
      exact (List.perm_append_singleton _ _).trans ((h.keys.cons _).trans hp.symm)

/-- No look-up of a parameter or of its field fails. -/
theorem bindings (h : f.Sourced) : f.bindings = .ok f.bound := by
  obtain ⟨index, hi, fault, hf, -⟩ | hb := f.bindings_cases
  · have hz := h.nonneg index hi
    have hfirst : ¬ index < -f.decl.params.length := by omega
    obtain ⟨source, hs⟩ := h.isTainted_iff.mp (FuncRecord.isTainted_iff.mpr hi)
    cases hname : f.paramName? index <;> simp [binding?, hfirst, hname, hs] at hf
  · exact hb

end Sourced

end ReadGuard.FuncRecord
