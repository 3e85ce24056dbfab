import ReadGuard.Proofs.Alias.Chain
import ReadGuard.Write.Binding

namespace ReadGuard

namespace AliasStore

variable {α : Type}

/-- Every name that one store binds is bound in the other by way of the same names, though perhaps
to another field. -/
def Below (s s' : AliasStore α) : Prop :=
  ∃ m m', s.Models m ∧ s'.Models m' ∧
    ∀ name names target, m name = some (names, target) → ∃ target', m' name = some (names, target')

namespace Below

variable {s s' : AliasStore α}

theorem resolve (h : s.Below s') {name : String} {target : α} (hr : s.resolve name = some target) :
    ∃ target', s'.resolve name = some target' := by
  obtain ⟨m, m', hm, hm', hle⟩ := h
  rw [hm.resolve, Option.bind_eq_some_iff] at hr
  obtain ⟨⟨names, field⟩, hn, hf⟩ := hr
  obtain ⟨field', hn'⟩ := hle name names field hn
  -- whether a way leads to its field depends on its names only
  have hd : names.Nodup := by
    by_contra hnot
    simp [hnot] at hf
  exact ⟨field', by simp [hm'.resolve, hn', hd]⟩

end Below

end AliasStore

namespace Aliases

open AliasStore

def assigned (p : Protection) (m : Bindings Expr) (name : String) (value : Option Expr) :
    Option (List String × Expr) :=
  match value.map Expr.unparen with
  | some (.ident id) =>
    if id.name = name then m name else (m id.name).map fun c => (name :: c.1, c.2)
  | some e => (p.addressed e).map fun field => ([name], field)
  | none => none

theorem models_assign {s : Aliases} {m : Bindings Expr} (h : s.Models m) (p : Protection)
    (name : String) (value : Option Expr) :
    (s.assign p name value).1.Models (Function.update m name (assigned p m name value)) := by
  unfold assign assigned
  cases hv : value.map Expr.unparen with
  | none => exact h.forget name
  | some e =>
    cases e with
    | ident id =>
      have hc := h.copy name id.name
      dsimp only
      cases hb : s.isBound id.name with
      | true => exact hc
      | false =>
        have hn : m id.name = none := by
          simpa [h.isBound] using hb
        rw [AliasStore.copy, h.unbound id.name hn] at hc
        exact hc
    | _ =>
      dsimp only
      cases hf : p.addressed _ with
      | none => exact h.forget name
      | some field => exact h.record name field

variable {s s' : Aliases}

theorem below_assign (h : s.Below s') (p : Protection) (name : String) (value : Option Expr) :
    (s.assign p name value).1.Below (s'.assign p name value).1 := by
  obtain ⟨m, m', hm, hm', hle⟩ := h
  refine ⟨_, _, models_assign hm p name value, models_assign hm' p name value, ?_⟩
  intro k names target hk
  by_cases he : k = name
  · subst he
    rw [Function.update_self] at hk ⊢
    unfold assigned at hk ⊢
    cases hv : value.map Expr.unparen with
    | none => simp [hv] at hk
    | some e =>
      rw [hv] at hk
      cases e with
      | ident id =>
        dsimp only at hk ⊢
        by_cases hid : id.name = k
        · rw [if_pos hid] at hk ⊢
          exact hle k names target hk
        -- the name takes over the way of the other name, which is the same in both stores
        · rw [if_neg hid, Option.map_eq_some_iff] at hk
          obtain ⟨⟨ns, t⟩, hc, he⟩ := hk
          obtain ⟨t', hc'⟩ := hle id.name ns t hc
          rw [Prod.mk.injEq] at he
          obtain ⟨rfl, rfl⟩ := he
          exact ⟨t', by rw [if_neg hid, hc']; rfl⟩
      | _ => exact ⟨target, hk⟩
  · rw [Function.update_of_ne he] at hk ⊢
    exact hle k names target hk

theorem below_assignTo (h : s.Below s') (p : Protection) (target : Expr) (value : Option Expr) :
    (s.assignTo p target value).1.Below (s'.assignTo p target value).1 := by
  unfold assignTo
  cases target.unparen with
  | ident id =>
    dsimp only
    split
    · exact h
    · exact below_assign h p id.name value
  | _ => exact h

theorem below_assignAll (h : s.Below s') (p : Protection) (names values : List Expr) :
    (s.assignAll p names values).1.Below (s'.assignAll p names values).1 := by
  unfold assignAll
  induction pairs names values generalizing s s' with
  | nil => exact h
  | cons pair rest ih => exact ih (below_assignTo h p pair.1 pair.2)

end Aliases

end ReadGuard
