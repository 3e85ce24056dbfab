import ReadGuard.Proofs.TypeGraph.Classification

namespace ReadGuard

namespace TypeGraph

open Relation

def PointsTo (g : TypeGraph) (i j : Nat) : Prop :=
  g.node? i = some (.pointer (some j))

def IsPointer (g : TypeGraph) (i : Nat) : Prop :=
  ∃ elem, g.node? i = some (.pointer elem)

/-- Pointers are followed for as long as it takes: from the first node, with the given nodes passed
before it, the way stops at the second one. -/
inductive StopsAt (g : TypeGraph) : List Nat → Nat → Nat → Prop
  | ended {seen : List Nat} {i : Nat} (h : ∀ j, ¬ g.PointsTo i j) : StopsAt g seen i i
  | back {seen : List Nat} {i : Nat} (h : i ∈ seen) : StopsAt g seen i i
  | follow {seen : List Nat} {i j k : Nat} (h : g.PointsTo i j) (hn : i ∉ seen)
      (rest : StopsAt g (i :: seen) j k) : StopsAt g seen i k

variable {g : TypeGraph} {p : Protection} {seen : List Nat} {i j k : Nat}

theorem pointee?_eq_some_iff : g.pointee? i = some j ↔ g.PointsTo i j := by
  unfold pointee? PointsTo
  cases g.node? i with
  | none => simp
  | some n => cases n <;> simp

theorem pointsTo_unique : Relator.RightUnique g.PointsTo := by
  intro i j k hj hk
  have h := (pointee?_eq_some_iff.mpr hj).symm.trans (pointee?_eq_some_iff.mpr hk)
  exact Option.some.inj h

theorem not_pointsTo (h : ¬ g.IsPointer i) (j : Nat) : ¬ g.PointsTo i j :=
  fun hj => h ⟨some j, hj⟩

/-- The limit is never met: a node that is followed was not passed before. -/
theorem stripFrom_stopsAt (limit : Nat) (hl : g.unvisited seen < limit) :
    g.StopsAt seen i (g.stripFrom limit seen i) := by
  induction limit generalizing seen i with
  | zero => omega
  | succ limit ih =>
    rw [stripFrom]
    cases hp : g.pointee? i with
    | none =>
      apply StopsAt.ended
      intro j hj
      rw [pointee?_eq_some_iff.mpr hj] at hp
      cases hp
    | some j =>
      have hj := pointee?_eq_some_iff.mp hp
      by_cases hi : i ∈ seen
      · simpa [hi] using StopsAt.back hi
      · have hlt := unvisited_cons_lt (Array.getElem?_eq_some_iff.mp hj).1 hi
        simpa [hi] using StopsAt.follow hj hi (ih (by omega))

theorem stripPointers_stopsAt (g : TypeGraph) (i : Nat) : g.StopsAt [] i (g.stripPointers i) := by
  apply stripFrom_stopsAt
  exact Nat.lt_succ_of_le (g.unvisited_le [])

namespace StopsAt

theorem reaches (h : g.StopsAt seen i k) : ReflTransGen g.PointsTo i k := by
  induction h with
  | ended _ | back _ => exact .refl
  | follow h _ _ ih => exact .head h ih

/-- The way stops where pointers end, or on a cycle of pointers. -/
theorem ends_or_cycles (h : g.StopsAt seen i k) (hs : ∀ s ∈ seen, TransGen g.PointsTo s i) :
    (∀ j, ¬ g.PointsTo k j) ∨ TransGen g.PointsTo k k := by
  induction h with
  | ended h => exact .inl h
  | back h => exact .inr (hs _ h)
  | follow h _ _ ih =>
    -- each passed node leads to the present one, so to come back to one of them closes a cycle
    apply ih
    intro s hm
    obtain rfl | hm := List.mem_cons.mp hm
    · exact .single h
    · exact (hs s hm).tail h

end StopsAt

/-- A pointer has one target, so there is no way off a cycle of pointers. -/
theorem cycles_of_reaches (hc : TransGen g.PointsTo i i) (h : ReflTransGen g.PointsTo i j) :
    TransGen g.PointsTo j j := by
  induction h with
  | refl => exact hc
  | tail _ hstep ih =>
    obtain ⟨l, hl, hback⟩ := TransGen.head'_iff.mp ih
    obtain rfl := pointsTo_unique hl hstep
    exact .tail' hback hstep

/-- Where the pointers from a node on come to an end, that is where the way stops. -/
theorem StopsAt.eq_of_end (h : g.StopsAt [] i k) (hj : ReflTransGen g.PointsTo i j)
    (hend : ∀ l, ¬ g.PointsTo j l) : k = j := by
  have hno : ¬ TransGen g.PointsTo j j := by
    intro hc
    obtain ⟨l, hl, -⟩ := TransGen.head'_iff.mp hc
    exact hend l hl
  obtain hk | hk := ReflTransGen.total_of_right_unique pointsTo_unique h.reaches hj
  · obtain he | hc := h.ends_or_cycles (by simp)
    · exact ((reflTransGen_iff_eq he).mp hk).symm
    · exact absurd (cycles_of_reaches hc hk) hno
  · exact (reflTransGen_iff_eq hend).mp hk

/-- A pointer leads to the protected type by way of its target only. -/
theorem leads_names_iff (h : g.PointsTo i j) :
    (∃ k, ReflTransGen g.Leads i k ∧ g.Names p k) ↔
      ∃ k, ReflTransGen g.Leads j k ∧ g.Names p k := by
  constructor
  · rintro ⟨k, hk, hn⟩
    obtain rfl | ⟨l, hl, hk⟩ := hk.cases_head
    · obtain ⟨path, name, hnode, -⟩ := hn
      cases hnode.symm.trans h
    · obtain hp | ⟨fields, hnode, -⟩ := hl
      · exact ⟨k, pointsTo_unique hp h ▸ hk, hn⟩
      · cases hnode.symm.trans h
  · rintro ⟨k, hk, hn⟩
    exact ⟨k, .head (.inl h) hk, hn⟩

theorem search_of_reaches (p : Protection) (h : ReflTransGen g.PointsTo i j) :
    (g.search p (g.size + 1) (some i) []).1 = (g.search p (g.size + 1) (some j) []).1 := by
  induction h with
  | refl => rfl
  | tail _ hstep ih =>
    rw [ih, Bool.eq_iff_iff, search_iff, search_iff]
    exact leads_names_iff hstep

/-- Pointers can be followed from every node until the way stops, at a node that they lead to. If
they lead to a type that is not a pointer, it stops there. Whatever was asked before, a classifier
gives the node and the one behind its pointers the same answer. -/
theorem stripPointers_stops (g : TypeGraph) (i : Nat) :
    g.StopsAt [] i (g.stripPointers i) ∧
      ReflTransGen g.PointsTo i (g.stripPointers i) ∧
      (∀ j, ReflTransGen g.PointsTo i j → ¬ g.IsPointer j → g.stripPointers i = j) ∧
      ∀ (p : Protection) (questions questions' : List Nat),
        (((Classifier.mk p []).after g questions).isProtected g i).1 =
          (((Classifier.mk p []).after g questions').isProtected g (g.stripPointers i)).1 := by
  have hstop := stripPointers_stopsAt g i
  refine ⟨hstop, hstop.reaches, ?_, ?_⟩
  · intro j hj hn
    exact hstop.eq_of_end hj (not_pointsTo hn)
  · intro p questions questions'
    rw [Classifier.isProtected_eq_search, Classifier.isProtected_eq_search]
    exact search_of_reaches p hstop.reaches

def pointers : TypeGraph where
  nodes := #[.pointer (some 1), .pointer (some 2), .named "data" "BigStruct", .pointer (some 4),
    .pointer (some 3), .pointer none]

/-- The first two end at the named type and are protected with it. The way through the other two
stops where it came in. -/
theorem stripPointers_stops_pointers :
    ReflTransGen pointers.PointsTo 0 2 ∧ ¬ pointers.IsPointer 2 ∧ pointers.stripPointers 0 = 2 ∧
      ((Classifier.mk ⟨"data", "BigStruct"⟩ []).isProtected pointers 0).1 = true ∧
      pointers.StopsAt [] 3 3 ∧ pointers.stripPointers 5 = 5 := by
  have hreach : ReflTransGen pointers.PointsTo 0 2 := .head (b := 1) rfl (.single rfl)
  have hend : ¬ pointers.IsPointer 2 := by
    rintro ⟨elem, h⟩
    cases h
  obtain ⟨-, -, hstrip, hsame⟩ := stripPointers_stops pointers 0
  have hnamed := hstrip 2 hreach hend
  refine ⟨hreach, hend, hnamed, ?_, (stripPointers_stops pointers 3).1, by decide⟩
  have hfirst := hsame ⟨"data", "BigStruct"⟩ [] []
  rw [hnamed] at hfirst
  exact hfirst.trans (by decide)

end TypeGraph

end ReadGuard
