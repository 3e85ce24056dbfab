import Mathlib.Data.List.Basic
import Mathlib.Data.List.TakeDrop
import ReadGuard.Proofs.Code.Preorder

namespace ReadGuard

namespace Node

/-- The node at the end of a path, on which every number picks a part of the node before. -/
def along? : Node → List Nat → Option Node
  | n, [] => some n
  | n, i :: path => n.children[i]?.bind fun m => m.along? path

/-- The paths from a node to all nodes of its tree, each before those that go on from it. -/
def paths (n : Node) : List (List Nat) :=
  [] :: n.children.attach.zipIdx.flatMap fun m => m.1.1.paths.map (m.2 :: ·)
termination_by n.size
decreasing_by exact size_lt_of_child m.1.2

theorem paths_eq (n : Node) :
    n.paths = [] :: n.children.zipIdx.flatMap fun m => m.1.paths.map (m.2 :: ·) := by
  have hparts : n.children.zipIdx = n.children.attach.zipIdx.map (Prod.map Subtype.val id) := by
    rw [← List.zipIdx_map, List.attach_map_subtype_val]
  rw [paths, hparts, List.flatMap_map]
  rfl

theorem cons_mem_paths {n : Node} {i : Nat} {path : List Nat} :
    i :: path ∈ n.paths ↔ ∃ m, n.children[i]? = some m ∧ path ∈ m.paths := by
  rw [paths_eq, List.mem_cons, List.mem_flatMap]
  constructor
  · intro h
    obtain ⟨⟨m, j⟩, hm, hp⟩ := h.resolve_left (List.cons_ne_nil i path)
    obtain ⟨rest, hr, he⟩ := List.mem_map.mp hp
    obtain ⟨rfl, rfl⟩ := List.cons.inj he
    exact ⟨m, List.mem_zipIdx_iff_getElem?.mp hm, hr⟩
  · rintro ⟨m, hm, hp⟩
    exact .inr ⟨(m, i), List.mem_zipIdx_iff_getElem?.mpr hm, List.mem_map_of_mem hp⟩

/-- The paths of a node are those that end at a node. -/
theorem mem_paths_iff (n : Node) (path : List Nat) : path ∈ n.paths ↔ (n.along? path).isSome := by
  induction path generalizing n with
  | nil =>
    rw [paths_eq]
    exact iff_of_true List.mem_cons_self rfl
  | cons i path ih =>
    rw [cons_mem_paths, along?]
    cases n.children[i]? with
    | none => simp
    | some m => simpa using ih m

/-- Parts are numbered from the left, so of two paths the one that is smaller where they part, or
that ends there, comes first. -/
theorem paths_pairwise (n : Node) : n.paths.Pairwise (List.Lex (· < ·)) := by
  induction hs : n.size using Nat.strongRecOn generalizing n with
  | _ k ih =>
    subst hs
    rw [paths_eq, List.pairwise_cons, List.pairwise_flatMap]
    refine ⟨?_, ?_, ?_⟩
    · intro path hp
      obtain ⟨m, -, hm⟩ := List.mem_flatMap.mp hp
      obtain ⟨rest, -, rfl⟩ := List.mem_map.mp hm
      exact .nil
    · rintro ⟨m, i⟩ hm
      have hc : m ∈ n.children := List.fst_mem_of_mem_zipIdx hm
      rw [List.pairwise_map]
      exact (ih m.size (size_lt_of_child hc) m rfl).imp .cons
    · have hnumbers : n.children.zipIdx.Pairwise fun a b => a.2 < b.2 := by
        rw [← List.pairwise_map (f := Prod.snd), List.zipIdx_map_snd]
        exact List.pairwise_lt_range'
      refine hnumbers.imp ?_
      intro a b hab p hp q hq
      obtain ⟨p, -, rfl⟩ := List.mem_map.mp hp
      obtain ⟨q, -, rfl⟩ := List.mem_map.mp hq
      exact .rel hab

/-- What the walk yields are the nodes at the ends of the paths, in their order. -/
theorem walk_eq_paths (n : Node) : n.walk.map some = n.paths.map n.along? := by
  induction hs : n.size using Nat.strongRecOn generalizing n with
  | _ k ih =>
    subst hs
    have hwalk : n.children.flatMap walk = n.children.zipIdx.flatMap fun m => m.1.walk := by
      rw [← List.flatMap_map (f := Prod.fst), List.zipIdx_map_fst]
    have hpart : ∀ m ∈ n.children.zipIdx,
        m.1.walk.map some = (m.1.paths.map (m.2 :: ·)).map n.along? := by
      rintro ⟨m, i⟩ hm
      have hi : n.children[i]? = some m := List.mem_zipIdx_iff_getElem?.mp hm
      have halong : n.along? ∘ (i :: ·) = m.along? := by
        funext path
        simp [along?, hi]
      rw [List.map_map, halong]
      exact ih m.size (size_lt_of_child (List.mem_of_getElem? hi)) m rfl
    rw [walk_eq, hwalk, paths_eq, List.map_cons, List.map_cons, List.map_flatMap, List.map_flatMap]
    exact congrArg (some n :: ·) (List.flatMap_congr hpart)

/-- What the walks of a stack yield in turn: the first node, and then what the stack yields that has
its parts in its place. -/
theorem flatMap_walk_cons (n : Node) (rest : List Node) :
    (n :: rest).flatMap walk = n :: (n.children ++ rest).flatMap walk := by
  rw [List.flatMap_cons, walk_eq n, List.flatMap_append, List.cons_append]

/-- Each round of the loop yields one node of the walks of the whole stack. -/
theorem walkFrom_eq_take (steps : Nat) (stack : List Node) :
    walkFrom steps stack = (stack.flatMap walk).take steps := by
  induction steps generalizing stack with
  | zero => rfl
  | succ steps ih =>
    cases stack with
    | nil => rfl
    | cons n rest => rw [walkFrom, ih, flatMap_walk_cons, List.take_succ_cons]

theorem length_flatMap_walk (ns : List Node) : (ns.flatMap walk).length = sizes ns := by
  -- not on the list: the parts of its first node are put on it
  induction hs : sizes ns using Nat.strongRecOn generalizing ns with
  | _ k ih =>
    subst hs
    cases ns with
    | nil => rfl
    | cons n rest =>
      have hsize := sizes_expand n rest
      rw [flatMap_walk_cons, List.length_cons, ih _ (by omega) _ rfl, hsize]

theorem length_walk (n : Node) : n.walk.length = n.size := by
  have h := length_flatMap_walk [n]
  rwa [List.flatMap_singleton, sizes_cons, sizes_nil, Nat.add_zero] at h

/-- The stack is empty after as many rounds as there are nodes, and not before. -/
theorem walkFrom_eq_walk_iff (n : Node) (steps : Nat) :
    walkFrom steps [n] = n.walk ↔ n.size ≤ steps := by
  rw [walkFrom_eq_take, List.flatMap_singleton, List.take_eq_self_iff, length_walk]

def isCall : Node → Bool
  | .expr (.call _ _ _) => true
  | _ => false

/-- The calls are the call nodes of the walk, in its order. -/
theorem calls_eq_filter (n : Node) :
    n.calls.map (fun c => .expr (.call c.fn c.args c.info)) = n.walk.filter isCall := by
  rw [calls, List.map_filterMap, ← List.filterMap_eq_filter]
  congr 1
  funext m
  cases m with
  | expr e => cases e <;> rfl
  | _ => rfl

theorem calls_eq (n : Node) : n.calls = n.call?.toList ++ n.children.flatMap calls := by
  have hparts : (n.children.flatMap walk).filterMap call? = n.children.flatMap calls :=
    List.filterMap_flatMap
  rw [calls, walk_eq, List.filterMap_cons, hparts]
  cases n.call? <;> rfl

/-- The loop of a walk ends, after one round for each node of the tree. It yields the node, and then
what the walks of its parts yield in turn, so that it comes to every path of the tree once, in the
order of the paths. The calls are its call nodes, in the same order. -/
theorem walk_visits_paths (n : Node) :
    (∀ steps, walkFrom steps [n] = n.walk ↔ n.size ≤ steps) ∧
      n.walk = n :: n.children.flatMap walk ∧
      n.walk.map some = n.paths.map n.along? ∧
      n.paths.Pairwise (List.Lex (· < ·)) ∧
      (∀ path, path ∈ n.paths ↔ (n.along? path).isSome) ∧
      n.calls.map (fun c => .expr (.call c.fn c.args c.info)) = n.walk.filter isCall ∧
      n.calls = n.call?.toList ++ n.children.flatMap calls :=
  ⟨walkFrom_eq_walk_iff n, walk_eq n, walk_eq_paths n, paths_pairwise n, mem_paths_iff n,
    calls_eq_filter n, calls_eq n⟩

end Node

end ReadGuard
