import Mathlib.Data.List.Forall2
import ReadGuard.Proofs.Alias.Chain
import ReadGuard.Write.Binding

namespace ReadGuard

def Expr.IsName (e : Expr) (name : String) : Prop :=
  name ≠ "_" ∧ ∃ id, e.unparen = .ident id ∧ id.name = name

namespace Aliases

open AliasStore

variable {p : Protection} {s : Aliases} {value : Expr} {name other : String}

/-- The value is a pointer to a protected field, if `bound` tells the names that hold one: it is the
address of such a field, or one of those names. -/
def Points (p : Protection) (bound : String → Bool) (value : Expr) : Prop :=
  (∃ x info, value.unparen = .unary "&" x info ∧ p.fieldRoot x ≠ none) ∨
    ∃ id, value.unparen = .ident id ∧ bound id.name = true

theorem points_ident {bound : String → Bool} {id : Ident} (h : value.unparen = .ident id) :
    Points p bound value ↔ bound id.name = true := by
  simp [Points, h]

theorem points_congr {bound bound' : String → Bool}
    (h : ∀ id, value.unparen = .ident id → bound id.name = bound' id.name) :
    Points p bound value ↔ Points p bound' value := by
  apply or_congr_right
  constructor
  · rintro ⟨id, hid, hb⟩
    exact ⟨id, hid, h id hid ▸ hb⟩
  · rintro ⟨id, hid, hb⟩
    exact ⟨id, hid, (h id hid).trans hb⟩

theorem points_iff_addressed {bound : String → Bool} (h : ∀ id, value.unparen ≠ .ident id) :
    Points p bound value ↔ p.addressed value.unparen ≠ none := by
  have hn : ¬ ∃ id, value.unparen = .ident id ∧ bound id.name = true := fun ⟨id, hid, _⟩ => h id hid
  rw [Points, or_iff_left hn]
  constructor
  · rintro ⟨x, info, hx, hf⟩
    rw [hx]
    exact hf
  · intro ha
    unfold Protection.addressed at ha
    split at ha
    · next x info hx => exact ⟨x, info, hx, ha⟩
    · exact absurd rfl ha

/-- An assignment of a pointer binds the name, unless it is a copy of the name itself; any other one
drops it. -/
theorem assign_cases (p : Protection) (s : Aliases) (name : String) (value : Expr) :
    (Points p s.isBound value ∧ ((s.assign p name (some value)).1 = s ∧ s.isBound name = true ∨
      ∃ link, (s.assign p name (some value)).1 = s.bind name link)) ∨
    (¬ Points p s.isBound value ∧ (s.assign p name (some value)).1 = s.forget name) := by
  unfold assign
  rw [Option.map_some]
  cases hv : value.unparen with
  | ident id =>
    rw [points_ident hv]
    cases hb : s.isBound id.name with
    | false => exact .inr ⟨by simp, by simp [hb]⟩
    | true =>
      obtain ⟨handle, hh⟩ := Option.isSome_iff_exists.mp hb
      refine .inl ⟨rfl, ?_⟩
      by_cases he : id.name = name
      · subst he
        exact .inl ⟨by simp [hb, copy, hh], hb⟩
      · exact .inr ⟨.copied handle, by simp [hb, copy, hh, he]⟩
  | _ =>
    rw [points_iff_addressed (by simp [hv]), hv]
    dsimp only
    cases hf : p.addressed _ with
    | none => exact .inr ⟨by simp, rfl⟩
    | some field => exact .inl ⟨by simp, .inr ⟨.field field, rfl⟩⟩

theorem isBound_assign (p : Protection) (s : Aliases) (name : String) (value : Expr) :
    (s.assign p name (some value)).1.isBound name = true ↔ Points p s.isBound value := by
  obtain ⟨hp, ⟨he, hb⟩ | ⟨link, he⟩⟩ | ⟨hp, he⟩ := assign_cases p s name value
  · simp [he, hb, hp]
  · simp [he, hp, isBound, head?_bind]
  · simp [he, hp, isBound, head?_forget]

theorem isBound_assign_of_ne (p : Protection) (s : Aliases) (h : other ≠ name) (value : Expr) :
    (s.assign p name (some value)).1.isBound other = s.isBound other := by
  obtain ⟨-, ⟨he, -⟩ | ⟨link, he⟩⟩ | ⟨-, he⟩ := assign_cases p s name value
  · rw [he]
  · simp [he, isBound, head?_bind, h]
  · simp [he, isBound, head?_forget, h]

theorem assignTo_of_isName {target : Expr} (h : target.IsName name) (p : Protection) (s : Aliases)
    (value : Option Expr) : s.assignTo p target value = s.assign p name value := by
  obtain ⟨hblank, id, hid, rfl⟩ := h
  simp [assignTo, hid, hblank]

/-- The names that are bound once the first ones of a multiple assignment have their values: these
are as they end up, and all others as before. -/
def midway (before after : Aliases) (done : List String) (name : String) : Bool :=
  if name ∈ done then after.isBound name else before.isBound name

section Pairs

variable {targets values : List Expr} {names : List String}

def given (p : Protection) (targets values : List Expr) (s : Aliases) : Aliases :=
  (assignEach p (targets.zip (values.map some)) s).1

theorem given_cons {target : Expr} (h : target.IsName name) (p : Protection) (s : Aliases)
    (value : Expr) (targets values : List Expr) :
    given p (target :: targets) (value :: values) s =
      given p targets values (s.assign p name (some value)).1 := by
  simp only [given, List.map_cons, List.zip_cons_cons, assignEach, assignTo_of_isName h]

theorem isBound_given_of_not_mem (h : List.Forall₂ Expr.IsName targets names) (s : Aliases)
    (hl : targets.length = values.length) (hn : name ∉ names) :
    (given p targets values s).isBound name = s.isBound name := by
  induction h generalizing values s with
  | nil => simp [given, assignEach]
  | @cons target first targets names ht _ ih =>
    cases values with
    | nil => simp at hl
    | cons value values =>
      rw [List.mem_cons, not_or] at hn
      rw [given_cons ht, ih _ (by simpa using hl) hn.2, isBound_assign_of_ne p s hn.1]

/-- Each value is taken when the names to the left have their values already. -/
theorem isBound_given (h : List.Forall₂ Expr.IsName targets names) (hd : names.Nodup)
    (hl : targets.length = values.length) {k : Nat} (hk : names[k]? = some name)
    (hv : values[k]? = some value) : (given p targets values s).isBound name = true ↔
      Points p (midway s (given p targets values s) (names.take k)) value := by
  induction h generalizing values s k with
  | nil => simp at hk
  | @cons target first targets names ht hrest ih =>
    obtain ⟨hfirst, hd⟩ := List.nodup_cons.mp hd
    cases values with
    | nil => simp at hl
    | cons given₀ values =>
      have hl : targets.length = values.length := by simpa using hl
      have hkeep := isBound_given_of_not_mem (p := p) hrest
        (s.assign p first (some given₀)).1 hl hfirst
      rw [given_cons ht]
      cases k with
      | zero =>
        obtain rfl : first = name := by simpa using hk
        obtain rfl : given₀ = value := by simpa using hv
        rw [hkeep, isBound_assign]
        exact points_congr fun id _ => by simp [midway]
      | succ k =>
        rw [ih hd hl (by simpa using hk) (by simpa using hv)]
        apply points_congr
        intro id _
        by_cases he : id.name = first
        · have hnot : first ∉ names.take k := fun hm => hfirst (List.mem_of_mem_take hm)
          simp [midway, he, hnot, hkeep]
        · simp [midway, he, isBound_assign_of_ne p s he]

theorem assignAll_eq_given (p : Protection) (s : Aliases) (hl : targets.length = values.length) :
    (s.assignAll p targets values).1 = given p targets values s := by
  rw [assignAll, pairs, if_pos hl, given]

end Pairs

/-- A multiple assignment to distinct names works from left to right: a name ends up bound if and
only if its value is a pointer to a protected field when the names to the left of it have their new
values. So it does what the values before the statement tell exactly if every name that is a value
and stands to the left of its place is bound after the statement as it was before. -/
theorem assignAll_left_to_right (p : Protection) (s : Aliases) (targets values : List Expr)
    (names : List String) (hnames : List.Forall₂ Expr.IsName targets names) (hd : names.Nodup)
    (hl : targets.length = values.length) :
    (∀ (k : Nat) name value, names[k]? = some name → values[k]? = some value →
      ((s.assignAll p targets values).1.isBound name = true ↔
        Points p (midway s (s.assignAll p targets values).1 (names.take k)) value)) ∧
    ((∀ (k : Nat) name value, names[k]? = some name → values[k]? = some value →
      ((s.assignAll p targets values).1.isBound name = true ↔ Points p s.isBound value)) ↔
      ∀ (k : Nat) value id, values[k]? = some value → value.unparen = .ident id →
        id.name ∈ names.take k →
          (s.assignAll p targets values).1.isBound id.name = s.isBound id.name) := by
  rw [assignAll_eq_given p s hl]
  have hseq : ∀ (k : Nat) name value, names[k]? = some name → values[k]? = some value →
      ((given p targets values s).isBound name = true ↔
        Points p (midway s (given p targets values s) (names.take k)) value) :=
    fun k name value hk hv => isBound_given hnames hd hl hk hv
  refine ⟨hseq, fun hall k value id hv hid hm => ?_, fun hsame k name value hk hv => ?_⟩
  · have hlt : k < names.length := by
      rw [← hnames.length_eq, hl]
      exact (List.getElem?_eq_some_iff.mp hv).1
    have hk := List.getElem?_eq_getElem hlt
    have hs := hseq k _ value hk hv
    rw [hall k _ value hk hv, points_ident hid, points_ident hid, midway, if_pos hm] at hs
    exact (Bool.eq_iff_iff.mpr hs).symm
  · rw [hseq k name value hk hv]
    apply points_congr
    intro id hid
    by_cases hm : id.name ∈ names.take k
    · rw [midway, if_pos hm, hsame k value id hv hid hm]
    · rw [midway, if_neg hm]

def beforeSwap : Aliases :=
  ({} : Aliases).record "p" (.selector (.ident { name := "d" }) "n" {})

def afterSwap : Aliases :=
  (beforeSwap.assignAll ⟨"data", "BigStruct"⟩ [.ident { name := "p" }, .ident { name := "q" }]
    [.ident { name := "q" }, .ident { name := "p" }]).1

theorem assignAll_left_to_right_swap :
    (afterSwap.isBound "q" = true ↔
      Points ⟨"data", "BigStruct"⟩ (midway beforeSwap afterSwap ["p"]) (.ident { name := "p" })) ∧
      afterSwap.isBound "p" ≠ beforeSwap.isBound "p" := by
  obtain ⟨hseq, -⟩ := assignAll_left_to_right ⟨"data", "BigStruct"⟩ beforeSwap
    [.ident { name := "p" }, .ident { name := "q" }]
    [.ident { name := "q" }, .ident { name := "p" }] ["p", "q"]
    (.cons ⟨by decide, _, rfl, rfl⟩ (.cons ⟨by decide, _, rfl, rfl⟩ .nil)) (by decide) rfl
  exact ⟨hseq 1 "q" _ rfl rfl, by decide⟩

/-- The second pointer takes the value of the first one, and loses it. -/
theorem swap_loses_pointer :
    Points ⟨"data", "BigStruct"⟩ beforeSwap.isBound (.ident { name := "p" }) ∧
      afterSwap.isBound "q" = false :=
  ⟨.inr ⟨_, rfl, by decide⟩, by decide⟩

end Aliases

end ReadGuard
