import Mathlib.Logic.Function.Basic
import ReadGuard.AliasStore

namespace ReadGuard.AliasStore

variable {α : Type}

/-- The names on the way from a record to a field. A copy leads to an older record. -/
inductive Chain (arena : Array (AliasRecord α)) : Nat → List String → α → Prop
  | field {handle : Nat} {name : String} {target : α}
      (h : arena[handle]? = some ⟨name, .field target⟩) : Chain arena handle [name] target
  | copied {handle earlier : Nat} {name : String} {names : List String} {target : α}
      (h : arena[handle]? = some ⟨name, .copied earlier⟩) (hlt : earlier < handle)
      (ht : Chain arena earlier names target) : Chain arena handle (name :: names) target

namespace Chain

variable {arena : Array (AliasRecord α)} {handle : Nat} {names : List String} {target : α}

theorem handle_lt (h : Chain arena handle names target) : handle < arena.size := by
  cases h with
  | field h => exact (Array.getElem?_eq_some_iff.mp h).1
  | copied h _ _ => exact (Array.getElem?_eq_some_iff.mp h).1

theorem length_le (h : Chain arena handle names target) : names.length ≤ handle + 1 := by
  induction h with
  | field _ => simp
  | copied _ hlt _ ih =>
    rw [List.length_cons]
    omega

theorem push (h : Chain arena handle names target) (r : AliasRecord α) :
    Chain (arena.push r) handle names target := by
  have hkeep : ∀ {i : Nat} {r'}, arena[i]? = some r' → (arena.push r)[i]? = some r' := by
    intro i r' h
    have hlt := (Array.getElem?_eq_some_iff.mp h).1
    rwa [Array.getElem?_push_lt hlt, ← Array.getElem?_eq_getElem hlt]
  induction h with
  | field h => exact .field (hkeep h)
  | copied h hlt _ ih => exact .copied (hkeep h) hlt ih

end Chain

/-- Following a chain ends at its field, unless a name comes twice. -/
theorem follow_chain {s : AliasStore α} {handle : Nat} {names : List String} {target : α}
    (h : Chain s.arena handle names target) {limit : Nat} (hl : names.length ≤ limit)
    (seen : List String) : s.follow limit seen handle =
      if names.Nodup ∧ ∀ n ∈ names, n ∉ seen then some target else none := by
  induction h generalizing limit seen with
  | @field handle name target h =>
    cases limit with
    | zero => simp at hl
    | succ limit =>
      by_cases hs : name ∈ seen <;> simp [follow, h, hs]
  | @copied handle earlier name names target h _ _ ih =>
    cases limit with
    | zero => simp at hl
    | succ limit =>
      have ih := @ih limit (by simpa using hl) (name :: seen)
      by_cases hs : name ∈ seen
      · simp [follow, h, hs]
      · simp only [follow, h, List.contains_iff_mem, hs, if_false, ih]
        congr 1
        simp only [List.nodup_cons, List.mem_cons, not_or, eq_iff_iff, forall_eq_or_imp]
        constructor
        · rintro ⟨hn, ho⟩
          exact ⟨⟨fun hm => (ho name hm).1 rfl, hn⟩, hs, fun n hm => (ho n hm).2⟩
        · rintro ⟨⟨hm, hn⟩, -, ho⟩
          exact ⟨hn, fun n h => ⟨fun he => hm (he ▸ h), ho n h⟩⟩

section Heads

variable (s : AliasStore α) (name k : String)

theorem head?_forget : (s.forget name).head? k = if k = name then none else s.head? k := by
  unfold forget head?
  induction s.heads with
  | nil => simp
  | cons p heads ih =>
    obtain ⟨n, handle⟩ := p
    by_cases hn : n = name
    · subst hn
      by_cases hk : k = n
      · simpa [hk] using ih
      · have hb : (k == n) = false := by simpa using hk
        simpa [hk, List.lookup_cons, hb] using ih
    · by_cases hk : k = n
      · subst hk
        simp [hn]
      · have hb : (k == n) = false := by simpa using hk
        simpa [hn, List.lookup_cons, hb] using ih

theorem head?_bind (link : AliasLink α) :
    (s.bind name link).head? k = if k = name then some s.arena.size else s.head? k := by
  have hf := s.head?_forget name k
  unfold head? at hf
  by_cases hk : k = name
  · simp [bind, head?, hk]
  · have hb : (k == name) = false := by simpa using hk
    simp only [bind, head?, List.lookup_cons, hb, hf, hk, if_false]

end Heads

abbrev Bindings (α : Type) := String → Option (List String × α)

structure Models (s : AliasStore α) (m : Bindings α) : Prop where
  unbound : ∀ name, m name = none → s.head? name = none
  bound : ∀ name names target, m name = some (names, target) →
    ∃ handle, s.head? name = some handle ∧ Chain s.arena handle names target

namespace Models

variable {s : AliasStore α} {m : Bindings α}

theorem empty : Models ({} : AliasStore α) fun _ => none :=
  ⟨fun _ _ => rfl, nofun⟩

theorem isBound (h : s.Models m) (name : String) : s.isBound name = (m name).isSome := by
  unfold AliasStore.isBound
  cases hm : m name with
  | none => rw [h.unbound name hm]; rfl
  | some c =>
    obtain ⟨handle, hh, -⟩ := h.bound name c.1 c.2 hm
    rw [hh]
    rfl

/-- A name resolves to its field if the names on the way are distinct. -/
theorem resolve (h : s.Models m) (name : String) : s.resolve name =
    (m name).bind fun c => if c.1.Nodup then some c.2 else none := by
  unfold AliasStore.resolve
  cases hm : m name with
  | none => rw [h.unbound name hm]; rfl
  | some c =>
    obtain ⟨handle, hh, hc⟩ := h.bound name c.1 c.2 hm
    have hlt := hc.handle_lt
    have hlen := hc.length_le
    rw [hh, Option.bind_some]
    exact (follow_chain hc (by omega) []).trans (by simp)

theorem forget (h : s.Models m) (name : String) :
    (s.forget name).Models (Function.update m name none) := by
  constructor
  · intro k hk
    rw [head?_forget]
    by_cases he : k = name
    · simp [he]
    · rw [Function.update_of_ne he] at hk
      simp [he, h.unbound k hk]
  · intro k names target hk
    by_cases he : k = name
    · simp [he] at hk
    · rw [Function.update_of_ne he] at hk
      rw [head?_forget, if_neg he]
      exact h.bound k names target hk

theorem bind (h : s.Models m) (name : String) {link : AliasLink α} {names : List String}
    {target : α} (hc : Chain (s.arena.push ⟨name, link⟩) s.arena.size names target) :
    (s.bind name link).Models (Function.update m name (some (names, target))) := by
  constructor
  · intro k hk
    by_cases he : k = name
    · simp [he] at hk
    · rw [Function.update_of_ne he] at hk
      simp [head?_bind, he, h.unbound k hk]
  · intro k names' target' hk
    rw [head?_bind]
    by_cases he : k = name
    · rw [he, Function.update_self, Option.some.injEq, Prod.mk.injEq] at hk
      obtain ⟨rfl, rfl⟩ := hk
      exact ⟨s.arena.size, if_pos he, hc⟩
    · rw [Function.update_of_ne he] at hk
      obtain ⟨handle, hh, hc'⟩ := h.bound k names' target' hk
      exact ⟨handle, by rw [if_neg he, hh], hc'.push _⟩

theorem record (h : s.Models m) (name : String) (target : α) :
    (s.record name target).Models (Function.update m name (some ([name], target))) :=
  h.bind name (.field Array.getElem?_push_size)

theorem copy (h : s.Models m) (name source : String) :
    (s.copy name source).2.Models (Function.update m name
      (if source = name then m name
        else (m source).map fun c => (name :: c.1, c.2))) := by
  unfold AliasStore.copy
  cases hm : m source with
  | none =>
    rw [h.unbound source hm]
    have hn : (if source = name then m name else none) = none := by
      split
      case isTrue he => rw [← he, hm]
      case isFalse => rfl
    rw [Option.map_none, hn]
    exact h.forget name
  | some c =>
    obtain ⟨handle, hh, hc⟩ := h.bound source c.1 c.2 hm
    rw [hh]
    by_cases he : source = name
    · simp only [he, if_true, Function.update_eq_self]
      exact h
    · simp only [he, if_false, Option.map_some]
      exact h.bind name (.copied Array.getElem?_push_size hc.handle_lt (hc.push _))

end Models

end ReadGuard.AliasStore
