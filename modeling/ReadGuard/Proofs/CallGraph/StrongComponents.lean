import ReadGuard.Proofs.CallGraph.LowLink

namespace ReadGuard.CallGraph

open Relation

variable {g : CallGraph}

namespace Search

def run (g : CallGraph) (keys : List String) (s : Search) : Search :=
  keys.foldl (fun s key => if s.isMet key then s else (connect g.next g.size key s).2) s

theorem valid_empty (g : CallGraph) : Valid g [] {} := by
  constructor <;> simp [isMet, Layered]

theorem unmet_le (g : CallGraph) (s : Search) : unmet g s ≤ g.size := by
  have h := List.length_filter_le (fun k => !s.isMet k) g.keys
  rwa [keys, List.length_map] at h

theorem run_valid {s : Search} (h : Valid g [] s) (keys : List String)
    (hkeys : ∀ key ∈ keys, g.declares key = true) :
    Valid g [] (run g keys s) ∧ Later s (run g keys s) ∧
      ∀ key ∈ keys, (run g keys s).isMet key = true := by
  induction keys generalizing s with
  | nil => exact ⟨h, .refl s, by simp⟩
  | cons key rest ih =>
    have hrest : ∀ k ∈ rest, g.declares k = true := fun k hk => hkeys k (List.mem_cons_of_mem _ hk)
    obtain ⟨s', hv, hl, hm, he⟩ : ∃ s', Valid g [] s' ∧ Later s s' ∧ s'.isMet key = true ∧
        run g (key :: rest) s = run g rest s' := by
      by_cases hk : s.isMet key = true
      · exact ⟨s, h, .refl s, hk, by simp [run, hk]⟩
      · have hc := connect_connected g.size h (by simpa using hk) (hkeys key List.mem_cons_self)
          (by simp) (unmet_le g s)
        exact ⟨_, hc.valid, hc.later, hc.met, by simp [run, hk]⟩
    obtain ⟨hv', hl', hm'⟩ := ih hv hrest
    rw [he]
    refine ⟨hv', hl.trans hl', fun k hk => ?_⟩
    obtain rfl | hk := List.mem_cons.mp hk
    · exact hl'.isMet hm
    · exact hm' k hk

/-- A search that looks at no calls any more has put all that it met into components. -/
theorem Valid.mem_flatten_iff {s : Search} (h : Valid g [] s) {key : String} :
    key ∈ s.components.flatten ↔ s.isMet key = true := by
  rw [h.met key, or_iff_right]
  intro hk
  obtain ⟨p, hp, -⟩ := h.back key hk
  cases hp

variable {components before after : List (List String)} {c : List String} {a b : String}

/-- Ways along calls lead from a component to itself and to earlier ones. -/
theorem Layered.reaches (h : Layered g components) (he : components = before ++ c :: after)
    (ha : a ∈ c) (hr : ReflTransGen g.Calls a b) : b ∈ c ∨ b ∈ before.flatten := by
  induction hr with
  | refl => exact .inl ha
  | tail _ hcall ih =>
    obtain hx | hx := ih
    · exact h before c after he _ hx _ hcall
    · obtain ⟨d, hd, hxd⟩ := List.mem_flatten.mp hx
      obtain ⟨front, rest, rfl⟩ := List.append_of_mem hd
      rw [List.append_assoc, List.cons_append] at he
      rw [List.flatten_append, List.flatten_cons, List.mem_append, List.mem_append]
      obtain hy | hy := h front d _ he _ hxd _ hcall
      · exact .inr (.inr (.inl hy))
      · exact .inr (.inl hy)

/-- Functions that lead to each other are in one component. -/
theorem Layered.mem_of_reaches (h : Layered g components) (hn : components.flatten.Nodup)
    (hc : c ∈ components) (ha : a ∈ c) (hab : ReflTransGen g.Calls a b)
    (hba : ReflTransGen g.Calls b a) : b ∈ c := by
  obtain ⟨before, after, he⟩ := List.append_of_mem hc
  refine (h.reaches he ha hab).resolve_right fun hb => ?_
  obtain ⟨d, hd, hbd⟩ := List.mem_flatten.mp hb
  obtain ⟨front, rest, rfl⟩ := List.append_of_mem hd
  -- the way back ends before the component of `a`, which would then be there twice
  have hback : a ∈ (front ++ d :: rest).flatten := by
    have he' : components = front ++ d :: (rest ++ c :: after) := by
      rw [he, List.append_assoc, List.cons_append]
    rw [List.flatten_append, List.flatten_cons, List.mem_append, List.mem_append]
    obtain ha' | ha' := h.reaches he' hbd hba
    · exact .inr (.inl ha')
    · exact .inl ha'
  rw [he, List.flatten_append, List.nodup_append] at hn
  exact hn.2.2 a hback a (List.mem_append_left _ ha) rfl

end Search

/-- Every declared function is in one component, and only there. Two of them are in the same one if
and only if each leads to the other along calls, and a component stands after those it calls. -/
theorem components_partition (g : CallGraph) :
    (∀ key, (∃ c ∈ g.components, key ∈ c) ↔ g.declares key = true) ∧
    g.components.flatten.Nodup ∧ [] ∉ g.components ∧
    (∀ a b, g.declares a = true → g.declares b = true →
      ((∃ c ∈ g.components, a ∈ c ∧ b ∈ c) ↔
        ReflTransGen g.Calls a b ∧ ReflTransGen g.Calls b a)) ∧
    ∀ before c after, g.components = before ++ c :: after →
      ∀ a ∈ c, ∀ b, g.Calls a b → b ∉ c → ∃ d ∈ before, b ∈ d := by
  obtain ⟨hv, -, hm⟩ := Search.run_valid (Search.valid_empty g) g.keys
    fun key hk => declares_iff.mpr hk
  have he : g.components = (Search.run g g.keys {}).components := rfl
  have hmem : ∀ key, (∃ c ∈ g.components, key ∈ c) ↔ g.declares key = true := by
    intro key
    rw [he, ← List.mem_flatten, hv.mem_flatten_iff]
    exact ⟨hv.declared key, fun hd => hm key (declares_iff.mp hd)⟩
  have hn : g.components.flatten.Nodup := (List.nodup_append.mp hv.nodup).2.1
  refine ⟨hmem, hn, hv.filled, fun a b ha hb => ⟨?_, ?_⟩, ?_⟩
  · rintro ⟨c, hc, hac, hbc⟩
    exact ⟨hv.strong c hc a hac b hbc, hv.strong c hc b hbc a hac⟩
  · rintro ⟨hab, hba⟩
    obtain ⟨c, hc, hac⟩ := (hmem a).mpr ha
    exact ⟨c, hc, hac, hv.layered.mem_of_reaches hn hc hac hab hba⟩
  · intro before c after hcs a ha b hcall hb
    exact List.mem_flatten.mp ((hv.layered before c after hcs a ha b hcall).resolve_left hb)

def parity : CallGraph where
  unitName := "reader"
  unitPath := "reader"
  functions := [
    { key := "reader.main", decl := { name := "main" }, calls := ["fmt.Println", "reader.odd"] },
    { key := "reader.even", decl := { name := "even" }, calls := ["reader.odd"] },
    { key := "reader.odd", decl := { name := "odd" },
      calls := ["reader.even", "reader.odd", "reader.even"] }]

theorem components_partition_parity :
    parity.components = [["reader.even", "reader.odd"], ["reader.main"]] ∧
      ReflTransGen parity.Calls "reader.even" "reader.odd" ∧
      ReflTransGen parity.Calls "reader.odd" "reader.even" ∧
      ¬ ReflTransGen parity.Calls "reader.odd" "reader.main" := by
  obtain ⟨-, -, -, hsame, -⟩ := components_partition parity
  have hc : parity.components = [["reader.even", "reader.odd"], ["reader.main"]] := by
    decide +kernel
  have heven : parity.declares "reader.even" = true := by decide +kernel
  have hodd : parity.declares "reader.odd" = true := by decide +kernel
  have hmain : parity.declares "reader.main" = true := by decide +kernel
  have hcall : parity.Calls "reader.main" "reader.odd" :=
    ⟨_, rfl, List.mem_cons_of_mem _ List.mem_cons_self, hodd⟩
  obtain ⟨hto, hfrom⟩ := (hsame _ _ heven hodd).mp ⟨_, by rw [hc]; exact List.mem_cons_self,
    List.mem_cons_self, List.mem_cons_of_mem _ List.mem_cons_self⟩
  refine ⟨hc, hto, hfrom, fun hr => ?_⟩
  obtain ⟨c, hm, ho, hm'⟩ := (hsame _ _ hodd hmain).mpr ⟨hr, .single hcall⟩
  rw [hc, List.mem_cons, List.mem_singleton] at hm
  obtain rfl | rfl := hm
  · exact absurd hm' (by decide)
  · exact absurd ho (by decide)

end ReadGuard.CallGraph
