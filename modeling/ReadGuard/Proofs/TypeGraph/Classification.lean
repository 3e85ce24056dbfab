import Mathlib.Data.List.Basic
import Mathlib.Logic.Relation
import ReadGuard.Proofs.TypeGraph.Sharing
import ReadGuard.TypeGraph.Classifier

namespace ReadGuard

namespace TypeGraph

open Relation

/-- The type at the first node is a pointer to the type at the second one, or a struct with a field
of that type. -/
def Leads (g : TypeGraph) (i j : Nat) : Prop :=
  g.node? i = some (.pointer (some j)) ∨
    ∃ fields, g.node? i = some (.struct fields) ∧ ∃ f ∈ fields, f.type = some j

def Names (g : TypeGraph) (p : Protection) (i : Nat) : Prop :=
  ∃ path name, g.node? i = some (.named path name) ∧ name = p.typeName ∧
    (p.data = path ∨ p.data = Ty.packageName path)

/-- A search need not go on from the node: it was visited, or there is nothing to find. -/
def Settled (g : TypeGraph) (p : Protection) (visited : List Nat) (i : Nat) : Prop :=
  i ∈ visited ∨ ¬ g.Names p i ∧ ∀ j, ¬ g.Leads i j

variable {g : TypeGraph} {p : Protection} {visited visited' : List Nat} {i : Nat}

theorem Settled.mono (h : g.Settled p visited i) (hv : visited ⊆ visited') :
    g.Settled p visited' i :=
  h.imp_left fun hi => hv hi

/-- What a search from several nodes gives. One that finds nothing settles its nodes, and no node
that it newly visits is named or leads to one that is not settled. -/
structure Searched (g : TypeGraph) (p : Protection) (visited : List Nat) (nodes : List (Option Nat))
    (r : Bool × List Nat) : Prop where
  found : r.1 = true → ∃ i, some i ∈ nodes ∧ ∃ j, ReflTransGen g.Leads i j ∧ g.Names p j
  kept : visited ⊆ r.2
  settled : r.1 = false → ∀ i, some i ∈ nodes → g.Settled p r.2 i
  closed : r.1 = false → ∀ i ∈ r.2, i ∉ visited →
    ¬ g.Names p i ∧ ∀ j, g.Leads i j → g.Settled p r.2 j

namespace Searched

variable {nodes : List (Option Nat)} {r : Bool × List Nat}

/-- A search that goes on from nothing. -/
theorem stop (h : ∀ i, some i ∈ nodes → g.Settled p visited i) :
    Searched g p visited nodes (false, visited) :=
  ⟨nofun, fun _ hi => hi, fun _ => h, fun _ _ hi hn => absurd hi hn⟩

/-- A node that is visited for the first time is settled by the search from all that it leads
to. -/
theorem enter (hleads : ∀ j, g.Leads i j ↔ some j ∈ nodes) (hn : ¬ g.Names p i)
    (h : Searched g p (i :: visited) nodes r) : Searched g p visited [some i] r := by
  constructor
  case found =>
    intro hr
    obtain ⟨k, hk, j, hj, hp⟩ := h.found hr
    exact ⟨i, List.mem_singleton_self _, j, .head ((hleads k).mpr hk) hj, hp⟩
  case kept => exact fun k hk => h.kept (List.mem_cons_of_mem _ hk)
  case settled =>
    intro _ k hk
    obtain rfl : k = i := by simpa using hk
    exact .inl (h.kept List.mem_cons_self)
  case closed =>
    intro hr k hk hnot
    by_cases he : k = i
    · subst he
      exact ⟨hn, fun j hj => h.settled hr j ((hleads j).mp hj)⟩
    · refine h.closed hr k hk fun hm => hnot ?_
      exact (List.mem_cons.mp hm).resolve_left he

/-- Two searches one after the other, of which the first finds nothing. -/
theorem andThen {node : Option Nat} {first : List Nat}
    (h : Searched g p visited [node] (false, first)) (h' : Searched g p first nodes r) :
    Searched g p visited (node :: nodes) r := by
  constructor
  case found =>
    intro hr
    obtain ⟨k, hk, hj⟩ := h'.found hr
    exact ⟨k, List.mem_cons_of_mem _ hk, hj⟩
  case kept => exact fun k hk => h'.kept (h.kept hk)
  case settled =>
    intro hr k hk
    obtain hk | hk := List.mem_cons.mp hk
    · exact (h.settled rfl k (hk ▸ List.mem_singleton_self _)).mono h'.kept
    · exact h'.settled hr k hk
  case closed =>
    intro hr k hk hnot
    by_cases hf : k ∈ first
    · obtain ⟨hn, hleads⟩ := h.closed rfl k hf hnot
      exact ⟨hn, fun j hj => (hleads j hj).mono h'.kept⟩
    · exact h'.closed hr k hk hf

/-- A search that starts with no visited node finds the protected type if there is a way to it. -/
theorem complete (h : Searched g p [] [some i] r) (hr : r.1 = false) {j : Nat}
    (hj : ReflTransGen g.Leads i j) : ¬ g.Names p j := by
  have hsettled : g.Settled p r.2 j := by
    induction hj with
    | refl => exact h.settled hr i (List.mem_singleton_self _)
    | tail _ hstep ih =>
      obtain hv | ⟨-, hn⟩ := ih
      · exact (h.closed hr _ hv List.not_mem_nil).2 _ hstep
      · exact absurd hstep (hn _)
  obtain hv | ⟨hn, -⟩ := hsettled
  · exact (h.closed hr j hv List.not_mem_nil).1
  · exact hn

end Searched

def unvisited (g : TypeGraph) (visited : List Nat) : Nat :=
  ((List.range g.size).filter fun i => !visited.contains i).length

theorem unvisited_le (g : TypeGraph) (visited : List Nat) : g.unvisited visited ≤ g.size := by
  have h := List.length_filter_le (fun i => !visited.contains i) (List.range g.size)
  rwa [List.length_range] at h

theorem unvisited_cons_lt (hi : i < g.size) (hn : i ∉ visited) :
    g.unvisited (i :: visited) < g.unvisited visited := by
  have hf : ((List.range g.size).filter fun j => !(i :: visited).contains j) =
      ((List.range g.size).filter fun j => !visited.contains j).filter fun j => j != i := by
    rw [List.filter_filter]
    apply List.filter_congr
    intro j _
    rw [List.contains_cons, Bool.not_or]
    rfl
  unfold unvisited
  rw [hf, List.length_filter_lt_length_iff_exists]
  exact ⟨i, by simp [hi, hn], by simp⟩

theorem unvisited_mono (h : visited ⊆ visited') : g.unvisited visited' ≤ g.unvisited visited := by
  unfold unvisited
  rw [← List.countP_eq_length_filter, ← List.countP_eq_length_filter]
  apply List.countP_mono_left
  intro j _ hj
  have hn : j ∉ visited' := by simpa using hj
  simpa using fun hm => hn (h hm)

theorem searchAny_searched {look : Search} {limit : Nat}
    (hlook : ∀ node visited, g.unvisited visited < limit →
      Searched g p visited [node] (look node visited))
    (nodes : List (Option Nat)) (hv : g.unvisited visited < limit) :
    Searched g p visited nodes (searchAny look nodes visited) := by
  induction nodes generalizing visited with
  | nil => exact .stop (by simp)
  | cons node rest ih =>
    have h := hlook node visited hv
    rw [searchAny]
    cases hl : look node visited with
    | mk hit first =>
      rw [hl] at h
      cases hit with
      | true =>
        obtain ⟨k, hk, hj⟩ := h.found rfl
        have hmem : some k ∈ node :: rest := by
          rw [← List.mem_singleton.mp hk]
          exact List.mem_cons_self
        exact ⟨fun _ => ⟨k, hmem, hj⟩, h.kept, nofun, nofun⟩
      | false =>
        have hlt := unvisited_mono (g := g) h.kept
        exact h.andThen (ih (Nat.lt_of_le_of_lt hlt hv))

theorem isNamed_iff {path name : String} (h : g.node? i = some (.named path name)) :
    p.isNamed path name = true ↔ g.Names p i := by
  simp [Protection.isNamed, Names, h]

/-- The limit on the depth is never met: at each level but the last a node is visited. -/
theorem search_searched (limit : Nat) (node : Option Nat) (hv : g.unvisited visited < limit) :
    Searched g p visited [node] (g.search p limit node visited) := by
  induction limit generalizing node visited with
  | zero => cases hv
  | succ limit ih =>
    cases node with
    | none => exact .stop (by simp)
    | some i =>
      rw [search]
      by_cases hi : i ∈ visited
      · rw [if_pos (List.contains_iff_mem.mpr hi)]
        exact .stop (by simpa using .inl hi)
      rw [if_neg (by simpa using hi)]
      have hlt : ∀ {n}, g.node? i = some n → g.unvisited (i :: visited) < limit := by
        intro n hn
        have := unvisited_cons_lt (g := g) (Array.getElem?_eq_some_iff.mp hn).1 hi
        omega
      -- neither the protected type nor a way on
      have hother : ¬ g.Names p i → (∀ j, ¬ g.Leads i j) →
          Searched g p visited [some i] (false, visited) := fun hn hl =>
        .stop (by simpa using .inr ⟨hn, hl⟩)
      cases hn : g.node? i with
      | none => exact hother (by simp [Names, hn]) (by simp [Leads, hn])
      | some n =>
        cases n with
        | pointer elem =>
          apply (ih elem (hlt hn)).enter
          · simp [Leads, hn, eq_comm]
          · simp [Names, hn]
        | struct fields =>
          apply (searchAny_searched (fun node _ h => ih node h) _ (hlt hn)).enter
          · simp [Leads, hn]
          · simp [Names, hn]
        | named path name =>
          have hname := isNamed_iff (p := p) hn
          change Searched g p visited [some i] (p.isNamed path name, visited)
          cases hp : p.isNamed path name with
          | true =>
            refine ⟨fun _ => ⟨i, List.mem_singleton_self _, i, .refl, hname.mp hp⟩, fun _ hk => hk,
              nofun, nofun⟩
          | false =>
            apply hother
            · rw [← hname, hp]
              exact Bool.false_ne_true
            · simp [Leads, hn]
        | _ => exact hother (by simp [Names, hn]) (by simp [Leads, hn])

theorem search_iff (g : TypeGraph) (p : Protection) (i : Nat) :
    (g.search p (g.size + 1) (some i) []).1 = true ↔
      ∃ j, ReflTransGen g.Leads i j ∧ g.Names p j := by
  have hlimit : g.unvisited [] < g.size + 1 := Nat.lt_succ_of_le (g.unvisited_le [])
  have h := search_searched (p := p) (g.size + 1) (some i) hlimit
  constructor
  · intro hr
    obtain ⟨k, hk, hj⟩ := h.found hr
    obtain rfl : k = i := by simpa using hk
    exact hj
  · rintro ⟨j, hj, hn⟩
    by_contra hr
    exact h.complete (by simpa using hr) hj hn

end TypeGraph

namespace Classifier

open Relation

variable {g : TypeGraph} {c : Classifier}

def after (g : TypeGraph) (c : Classifier) (questions : List Nat) : Classifier :=
  questions.foldl (fun c i => (c.isProtected g i).2) c

def Remembers (g : TypeGraph) (c : Classifier) : Prop :=
  ∀ i answer, (i, answer) ∈ c.known → answer = (g.search c.protection (g.size + 1) (some i) []).1

theorem Remembers.isProtected (h : c.Remembers g) (i : Nat) :
    (c.isProtected g i).1 = (g.search c.protection (g.size + 1) (some i) []).1 ∧
      (c.isProtected g i).2.protection = c.protection ∧ (c.isProtected g i).2.Remembers g := by
  unfold Classifier.isProtected
  cases hl : c.known.lookup i with
  | some answer =>
    obtain ⟨front, rest, hk, -⟩ := List.lookup_eq_some_iff.mp hl
    exact ⟨h i answer (by simp [hk]), rfl, h⟩
  | none =>
    refine ⟨rfl, rfl, fun j answer hm => ?_⟩
    obtain he | hm := List.mem_cons.mp hm
    · obtain ⟨rfl, rfl⟩ := Prod.mk.inj he
      rfl
    · exact h j answer hm

theorem Remembers.after (h : c.Remembers g) (questions : List Nat) :
    (c.after g questions).protection = c.protection ∧ (c.after g questions).Remembers g := by
  induction questions generalizing c with
  | nil => exact ⟨rfl, h⟩
  | cons i rest ih =>
    obtain ⟨-, hp, hr⟩ := h.isProtected i
    obtain ⟨hp', hr'⟩ := ih hr
    exact ⟨hp'.trans hp, hr'⟩

theorem isProtected_eq_search (g : TypeGraph) (p : Protection) (questions : List Nat) (i : Nat) :
    (((Classifier.mk p []).after g questions).isProtected g i).1 =
      (g.search p (g.size + 1) (some i) []).1 := by
  have hnew : (Classifier.mk p []).Remembers g := nofun
  obtain ⟨hp, hr⟩ := hnew.after questions
  have hanswer := (hr.isProtected i).1
  rwa [hp] at hanswer

/-- Whatever was asked before, a node is found protected if and only if some way along pointers and
fields leads from it to the protected type, and the answer is that of a new classifier. -/
theorem isProtected_after (g : TypeGraph) (p : Protection) (questions : List Nat) (i : Nat) :
    ((((Classifier.mk p []).after g questions).isProtected g i).1 = true ↔
      ∃ j, ReflTransGen g.Leads i j ∧ g.Names p j) ∧
    (((Classifier.mk p []).after g questions).isProtected g i).1 =
      ((Classifier.mk p []).isProtected g i).1 := by
  refine ⟨?_, isProtected_eq_search g p questions i⟩
  rw [isProtected_eq_search]
  exact g.search_iff p i

end Classifier

namespace TypeGraph

open Relation

/-- The protected type stands at the node, or the way to it goes on from there. -/
theorem reaches_head (g : TypeGraph) (p : Protection) (i : Nat) :
    (∃ j, ReflTransGen g.Leads i j ∧ g.Names p j) ↔
      g.Names p i ∨ ∃ k, g.Leads i k ∧ ∃ j, ReflTransGen g.Leads k j ∧ g.Names p j := by
  constructor
  · rintro ⟨j, hj, hn⟩
    obtain rfl | ⟨k, hk, hkj⟩ := ReflTransGen.cases_head hj
    · exact .inl hn
    · exact .inr ⟨k, hk, j, hkj, hn⟩
  · rintro (hn | ⟨k, hk, j, hkj, hn⟩)
    · exact ⟨i, .refl, hn⟩
    · exact ⟨j, .head hk hkj, hn⟩

mutual

theorem reaches_iff_holds (g : TypeGraph) (p : Protection) : (t : Ty) → (i : Nat) → g.Shows t i →
    ((∃ j, ReflTransGen g.Leads i j ∧ g.Names p j) ↔ p.holds t = true)
  | .named path name, i, hi => by
    have hleads : ∀ k, ¬ g.Leads i k := by simp [Leads, show g.node? i = _ from hi]
    rw [reaches_head, Protection.holds, isNamed_iff hi]
    simp [hleads]
  | .pointer elem, i, ⟨e, hi, he⟩ => by
    rw [reaches_head, Protection.holds, ← reaches_iff_holds g p elem e he]
    simp [Names, Leads, hi]
  | .struct fields, i, ⟨fs, hi, hfs⟩ => by
    rw [reaches_head, Protection.holds, ← reaches_iff_holdsAny g p fields fs hfs]
    simp [Names, Leads, hi]
  | .basic _, i, hi | .interface, i, hi => by
    rw [reaches_head]
    simp [Names, Leads, show g.node? i = _ from hi, Protection.holds]
  | .slice _, i, ⟨_, hi, _⟩ | .array _ _, i, ⟨_, hi, _⟩ | .chan _, i, ⟨_, hi, _⟩
  | .map _ _, i, ⟨_, _, hi, _⟩ | .func _ _, i, ⟨_, _, hi, _⟩ => by
    rw [reaches_head]
    simp [Names, Leads, hi, Protection.holds]

theorem reaches_iff_holdsAny (g : TypeGraph) (p : Protection) : (fields : List (Field Ty)) →
    (fs : List (Field (Option Nat))) → g.ShowsFields fields fs →
    ((∃ k, (∃ f ∈ fs, f.type = some k) ∧ ∃ j, ReflTransGen g.Leads k j ∧ g.Names p j) ↔
      p.holdsAny fields = true)
  | [], fs, h => by
    rw [show fs = [] from h, Protection.holdsAny]
    simp
  | ⟨name, type, embedded⟩ :: fields, fs, ⟨t, rest, he, ht, hrest⟩ => by
    rw [he, Protection.holdsAny, Bool.or_eq_true, ← reaches_iff_holds g p type t ht,
      ← reaches_iff_holdsAny g p fields rest hrest]
    simp only [List.mem_cons, or_and_right, exists_or, exists_eq_left, Option.some.injEq,
      exists_eq_left']

end

end TypeGraph

/-- Whatever was asked before, the answer at the node of an entry is that for the type as a tree. -/
theorem TypeCache.Valid.isProtected_eq_holds {c : TypeCache} (h : c.Valid) {entry : TypeEntry}
    (hm : entry ∈ c.entries) (p : Protection) (questions : List Nat) :
    (((Classifier.mk p []).after c.graph questions).isProtected c.graph entry.root).1 =
      p.holds entry.type := by
  have hshows := h.shown entry hm c.graph (.refl _)
  rw [Classifier.isProtected_eq_search, Bool.eq_iff_iff, TypeGraph.search_iff]
  exact TypeGraph.reaches_iff_holds c.graph p entry.type entry.root hshows

end ReadGuard
