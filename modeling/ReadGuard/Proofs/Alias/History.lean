import Mathlib.Data.List.Chain
import ReadGuard.Proofs.Alias.Chain

namespace ReadGuard

inductive AliasOp (α : Type)
  | record (name : String) (target : α)
  | copy (name source : String)
  | forget (name : String)
  | reset

namespace AliasOp

open AliasStore

variable {α : Type}

def apply (s : AliasStore α) : AliasOp α → AliasStore α
  | record name target => s.record name target
  | copy name source => (s.copy name source).2
  | forget name => s.forget name
  | reset => {}

/-- What an operation does to the bindings. A copy of a name to itself changes nothing, and a copy
of an unbound name drops the binding. -/
def rebind (m : Bindings α) : AliasOp α → Bindings α
  | record name target => Function.update m name (some ([name], target))
  | copy name source =>
    match m source with
    | some (names, target) =>
      if source = name then m else Function.update m name (some (name :: names, target))
    | none => Function.update m name none
  | forget name => Function.update m name none
  | reset => fun _ => none

def name? : AliasOp α → Option String
  | record name _ | copy name _ | forget name => some name
  | reset => none

theorem rebind_of_ne (m : Bindings α) {op : AliasOp α} {name other : String}
    (hop : op.name? = some name) (hne : other ≠ name) : op.rebind m other = m other := by
  cases op with
  | record n target | forget n =>
    cases hop
    exact Function.update_of_ne hne _ _
  | copy n source =>
    cases hop
    cases hm : m source with
    | none => simp [rebind, hm, hne]
    | some c =>
      by_cases he : source = name
      · simp only [rebind, hm, if_pos he]
      · simp [rebind, hm, he, hne]
  | reset => cases hop

theorem models_apply {s : AliasStore α} {m : Bindings α} (h : s.Models m) (op : AliasOp α) :
    (op.apply s).Models (op.rebind m) := by
  cases op with
  | record name target => exact h.record name target
  | copy name source =>
    have hc := h.copy name source
    cases hm : m source with
    | none =>
      have hn : (if source = name then m name else none) = none := by
        by_cases he : source = name
        · rw [if_pos he, ← he, hm]
        · rw [if_neg he]
      rw [hm, Option.map_none, hn] at hc
      simpa only [apply, rebind, hm] using hc
    | some c =>
      by_cases he : source = name
      · rw [if_pos he, Function.update_eq_self] at hc
        simpa only [apply, rebind, hm, if_pos he] using hc
      · rw [if_neg he, hm, Option.map_some] at hc
        simpa only [apply, rebind, hm, if_neg he] using hc
  | forget name => exact h.forget name
  | reset => exact .empty

end AliasOp

namespace AliasStore

variable {α : Type}

def after (ops : List (AliasOp α)) : AliasStore α := ops.foldl AliasOp.apply {}

def Bindings.after (ops : List (AliasOp α)) : Bindings α := ops.foldl AliasOp.rebind fun _ => none

theorem models_after (ops : List (AliasOp α)) : (after ops).Models (Bindings.after ops) := by
  unfold after Bindings.after
  have h : Models ({} : AliasStore α) fun _ => none := .empty
  generalize ({} : AliasStore α) = s at h
  generalize (fun _ => none : Bindings α) = m at h
  induction ops generalizing s m with
  | nil => exact h
  | cons op ops ih => exact ih _ _ (op.models_apply h)

/-- The handles of the records that are read one after the other, with no limit on their number, and
what they lead to: a field, or nothing if a name comes twice. A handle without a record has no
way. -/
inductive Way (arena : Array (AliasRecord α)) : List String → List Nat → Option α → Prop
  | field {seen : List String} {handle : Nat} {name : String} {target : α}
      (h : arena[handle]? = some ⟨name, .field target⟩) (hn : name ∉ seen) :
      Way arena seen [handle] (some target)
  | repeated {seen : List String} {handle : Nat} {r : AliasRecord α}
      (h : arena[handle]? = some r) (hn : r.name ∈ seen) : Way arena seen [handle] none
  | copied {seen : List String} {handle earlier : Nat} {name : String} {handles : List Nat}
      {result : Option α} (h : arena[handle]? = some ⟨name, .copied earlier⟩) (hn : name ∉ seen)
      (ht : Way arena (name :: seen) (earlier :: handles) result) :
      Way arena seen (handle :: earlier :: handles) result

theorem Way.lt_size {arena : Array (AliasRecord α)} {seen : List String} {handles : List Nat}
    {result : Option α} (h : Way arena seen handles result) :
    ∀ handle ∈ handles, handle < arena.size := by
  have hlt : ∀ {i : Nat} {r : AliasRecord α}, arena[i]? = some r → i < arena.size :=
    fun h => (Array.getElem?_eq_some_iff.mp h).1
  induction h with
  | field h _ => simpa using hlt h
  | repeated h _ => simpa using hlt h
  | copied h _ _ ih => exact List.forall_mem_cons.mpr ⟨hlt h, ih⟩

/-- Following the records of a chain with a limit finds what the way without a limit leads to. -/
theorem Chain.exists_way {s : AliasStore α} {handle : Nat} {names : List String} {target : α}
    (h : Chain s.arena handle names target) {limit : Nat} (hl : names.length ≤ limit)
    (seen : List String) : ∃ handles,
      Way s.arena seen (handle :: handles) (s.follow limit seen handle) ∧
        (handle :: handles).IsChain (· > ·) := by
  induction h generalizing limit seen with
  | @field handle name target h =>
    cases limit with
    | zero => simp at hl
    | succ limit =>
      refine ⟨[], ?_, .singleton _⟩
      by_cases hn : name ∈ seen
      · simpa [follow, h, hn] using Way.repeated h hn
      · simpa [follow, h, hn] using Way.field h hn
  | @copied handle earlier name names target h hlt _ ih =>
    cases limit with
    | zero => simp at hl
    | succ limit =>
      by_cases hn : name ∈ seen
      · exact ⟨[], by simpa [follow, h, hn] using Way.repeated h hn, .singleton _⟩
      · obtain ⟨handles, hway, hdown⟩ := @ih limit (by simpa using hl) (name :: seen)
        refine ⟨earlier :: handles, ?_, List.isChain_cons_cons.mpr ⟨hlt, hdown⟩⟩
        have hstep : s.follow (limit + 1) seen handle = s.follow limit (name :: seen) earlier := by
          simp [follow, h, hn]
        rw [hstep]
        exact .copied h hn hway

/-- The limit of `resolve` is never met: what it finds is what the way without a limit leads to,
on which the handles fall. -/
theorem Models.exists_way {s : AliasStore α} {m : Bindings α} (h : s.Models m) {name : String}
    {handle : Nat} (hh : s.head? name = some handle) : ∃ handles,
      Way s.arena [] (handle :: handles) (s.resolve name) ∧
        (handle :: handles).Pairwise (· > ·) := by
  cases hm : m name with
  | none =>
    rw [h.unbound name hm] at hh
    cases hh
  | some c =>
    obtain ⟨handle', hh', hc⟩ := h.bound name c.1 c.2 hm
    rw [hh, Option.some.injEq] at hh'
    subst hh'
    have hlt := hc.handle_lt
    have hlen := hc.length_le
    have hlimit : c.1.length ≤ s.arena.size := by omega
    obtain ⟨handles, hway, hdown⟩ := hc.exists_way hlimit []
    refine ⟨handles, ?_, List.isChain_iff_pairwise.mp hdown⟩
    rw [AliasStore.resolve, hh]
    exact hway

/-- The store is an implementation of the bindings, whatever was done to it before: the same names
are bound, and a name resolves to its field if the names on the way are distinct. The way of a bound
name stays inside the arena and ends, and an operation on one name leaves all others alone. -/
theorem after_implements_bindings (ops : List (AliasOp α)) :
    (∀ name, (after ops).isBound name = (Bindings.after ops name).isSome) ∧
    (∀ name, (after ops).resolve name = (Bindings.after ops name).bind fun c =>
      if c.1.Nodup then some c.2 else none) ∧
    (∀ name handle, (after ops).head? name = some handle → ∃ handles,
      Way (after ops).arena [] (handle :: handles) ((after ops).resolve name) ∧
        (handle :: handles).Pairwise (· > ·) ∧
        ∀ i ∈ handle :: handles, i < (after ops).arena.size) ∧
    ∀ (op : AliasOp α) name, op.name? = some name → ∀ other, other ≠ name →
      (op.apply (after ops)).resolve other = (after ops).resolve other := by
  have h := models_after ops
  refine ⟨h.isBound, h.resolve, fun name handle hh => ?_, fun op name hop other hne => ?_⟩
  · obtain ⟨handles, hway, hdown⟩ := h.exists_way hh
    exact ⟨handles, hway, hdown, hway.lt_size⟩
  · rw [(op.models_apply h).resolve, h.resolve, op.rebind_of_ne _ hop hne]

def roundabout : List (AliasOp String) := [.record "p" "n", .copy "q" "p", .copy "p" "q"]

theorem after_implements_bindings_roundabout :
    (after roundabout).isBound "p" = true ∧ (after roundabout).resolve "p" = none ∧
      (after roundabout).resolve "q" = some "n" ∧
      (∃ handles, Way (after roundabout).arena [] (2 :: handles) ((after roundabout).resolve "p") ∧
        (2 :: handles).Pairwise (· > ·) ∧ ∀ i ∈ 2 :: handles, i < (after roundabout).arena.size) ∧
      ((AliasOp.forget "p").apply (after roundabout)).resolve "q" =
        (after roundabout).resolve "q" := by
  obtain ⟨hbound, hresolve, hway, hother⟩ := after_implements_bindings roundabout
  refine ⟨(hbound "p").trans (by decide), (hresolve "p").trans (by decide),
    (hresolve "q").trans (by decide), hway "p" 2 (by decide), ?_⟩
  exact hother (.forget "p") "p" rfl "q" (by decide)

end AliasStore

end ReadGuard
