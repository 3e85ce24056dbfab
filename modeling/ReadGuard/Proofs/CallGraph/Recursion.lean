import Mathlib.Data.List.Nodup
import ReadGuard.Proofs.CallGraph.StrongComponents

namespace ReadGuard.CallGraph

open Relation

variable {g : CallGraph} {c : List String} {key a b : String}

theorem components_valid (g : CallGraph) : Search.Valid g [] (Search.run g g.keys {}) :=
  (Search.run_valid (Search.valid_empty g) g.keys fun _ hk => declares_iff.mpr hk).1

theorem nodup_of_component (hc : c ∈ g.components) : c.Nodup := by
  have hn := (List.nodup_append.mp (components_valid g).nodup).2.1
  exact (List.nodup_flatten.mp hn).1 c hc

/-- The component of a function is made of those that it leads to and that lead back to it. -/
theorem mem_component_iff (hc : c ∈ g.components) (ha : a ∈ c) :
    b ∈ c ↔ ReflTransGen g.Calls a b ∧ ReflTransGen g.Calls b a := by
  have hv := components_valid g
  constructor
  · intro hb
    exact ⟨hv.strong c hc a ha b hb, hv.strong c hc b hb a ha⟩
  · rintro ⟨hab, hba⟩
    exact hv.layered.mem_of_reaches (List.nodup_append.mp hv.nodup).2.1 hc ha hab hba

theorem exists_component (hd : g.declares key = true) : ∃ c ∈ g.components, key ∈ c := by
  obtain ⟨hv, -, hm⟩ := Search.run_valid (Search.valid_empty g) g.keys
    fun _ hk => declares_iff.mpr hk
  exact List.mem_flatten.mp (hv.mem_flatten_iff.mpr (hm key (declares_iff.mp hd)))

theorem one_lt_length_component (hc : c ∈ g.components) (ha : a ∈ c) :
    1 < c.length ↔ ∃ b ∈ c, b ≠ a := by
  constructor
  · intro hlen
    by_contra hne
    have hall : ∀ b ∈ c, b = a := by
      intro b hb
      by_contra hba
      exact hne ⟨b, hb, hba⟩
    have hn := nodup_of_component hc
    rw [List.eq_replicate_of_mem hall, List.nodup_replicate] at hn
    omega
  · rintro ⟨b, hb, hne⟩
    rcases c with _ | ⟨x, _ | ⟨y, rest⟩⟩
    · cases hb
    · rw [List.mem_singleton] at ha hb
      exact absurd (hb.trans ha.symm) hne
    · simp

/-- A function is in a component with others, or calls itself, if and only if some calls lead from
it back to it. -/
theorem cyclic_iff (hc : c ∈ g.components) (ha : a ∈ c) :
    TransGen g.Calls a a ↔ 1 < c.length ∨ g.Calls a a := by
  rw [one_lt_length_component hc ha]
  constructor
  · intro h
    obtain ⟨b, hcall, hback⟩ := TransGen.head'_iff.mp h
    by_cases hb : b = a
    · exact .inr (hb ▸ hcall)
    · exact .inl ⟨b, (mem_component_iff hc ha).mpr ⟨.single hcall, hback⟩, hb⟩
  · rintro (⟨b, hb, hne⟩ | hcall)
    · obtain ⟨hab, hba⟩ := (mem_component_iff hc ha).mp hb
      obtain he | hway := reflTransGen_iff_eq_or_transGen.mp hab
      · exact absurd he hne
      · exact hway.trans_left hba
    · exact .single hcall

/-- A function counts as recursive if and only if one call or more lead from it back to it, through
functions of the unit. -/
theorem isRecursive_iff_cyclic (g : CallGraph) (key : String) (f : FuncRecord)
    (hf : g.get? key = some f) : g.isRecursive f = true ↔ TransGen g.Calls key key := by
  have hd := declares_of_get? hf
  have hkey : f.key = key := get?_key hf
  have hself : g.Calls key key ↔ key ∈ f.calls := by
    constructor
    · rintro ⟨f', hf', hc, -⟩
      rw [hf, Option.some.injEq] at hf'
      exact hf' ▸ hc
    · exact fun hc => ⟨f, hf, hc, hd⟩
  obtain ⟨c₀, hc₀, hm₀⟩ := exists_component hd
  have hsome : (g.components.find? (·.contains f.key)).isSome = true := by
    rw [List.find?_isSome]
    exact ⟨c₀, hc₀, by simpa [hkey] using hm₀⟩
  obtain ⟨c, hfind⟩ := Option.isSome_iff_exists.mp hsome
  have hc := List.mem_of_find?_eq_some hfind
  have hm : key ∈ c := by
    have hp := List.find?_some hfind
    rw [hkey] at hp
    simpa using hp
  rw [cyclic_iff hc hm, hself, isRecursive, hfind]
  simp [hkey]

/-- In `parity`, two functions call each other, and a third only calls them. -/
theorem isRecursive_iff_cyclic_parity :
    (∃ f, parity.get? "reader.even" = some f ∧ parity.isRecursive f = true) ∧
      TransGen parity.Calls "reader.even" "reader.even" ∧
      (∃ f, parity.get? "reader.main" = some f ∧ parity.isRecursive f = false) ∧
      ¬ TransGen parity.Calls "reader.main" "reader.main" := by
  obtain ⟨even, heven, hr⟩ : ∃ f, parity.get? "reader.even" = some f ∧
      parity.isRecursive f = true := ⟨_, rfl, by decide +kernel⟩
  obtain ⟨main, hmain, hn⟩ : ∃ f, parity.get? "reader.main" = some f ∧
      parity.isRecursive f = false := ⟨_, rfl, by decide +kernel⟩
  refine ⟨⟨even, heven, hr⟩, ?_, ⟨main, hmain, hn⟩, ?_⟩
  · exact (isRecursive_iff_cyclic parity _ even heven).mp hr
  · rw [← isRecursive_iff_cyclic parity _ main hmain, hn]
    exact Bool.false_ne_true

end ReadGuard.CallGraph
