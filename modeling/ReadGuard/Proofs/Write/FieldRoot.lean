import ReadGuard.Write.FieldPath

namespace ReadGuard

namespace Expr

def operand? : Expr → Option Expr
  | .selector x _ _ | .index x _ _ => some x
  | _ => none

/-- The expression that is left after going to the operand a number of times, each time without the
parentheses around it. -/
def spine (e : Expr) : Nat → Option Expr
  | 0 => some e.unparen
  | k + 1 => (e.spine k).bind fun x => x.operand?.map unparen

theorem spine_induction {P : Expr → Prop} (paren : ∀ x info, P x → P (.paren x info))
    (selector : ∀ x field info, P x → P (.selector x field info))
    (index : ∀ x i info, P x → P (.index x i info))
    (stop : ∀ e, e.unparen = e → e.operand? = none → P e) : (e : Expr) → P e
  | .paren x info => paren x info (spine_induction paren selector index stop x)
  | .selector x field info => selector x field info (spine_induction paren selector index stop x)
  | .index x i info => index x i info (spine_induction paren selector index stop x)
  | .ident _ | .lit _ _ _ | .composite _ _ | .keyValue _ _ _ | .funcLit _ _ _ | .star _ _
  | .unary _ _ _ | .binary _ _ _ _ | .call _ _ _ => stop _ rfl rfl

@[simp] theorem unparen_unparen (e : Expr) : e.unparen.unparen = e.unparen := by
  induction e using spine_induction with
  | paren x info ih => exact ih
  | selector x field info ih => rfl
  | index x i info ih => rfl
  | stop e hu ho => rw [hu, hu]

theorem unparen_ne_paren (e : Expr) {x : Expr} {info : Info} : e.unparen ≠ .paren x info := by
  cases e with
  | paren y _ => exact unparen_ne_paren y
  | _ => simp [unparen]

theorem spine_paren (x : Expr) (info : Info) : (paren x info).spine = x.spine := by
  funext k
  induction k with
  | zero => rfl
  | succ k ih => rw [spine, ih, spine]

theorem spine_succ {e x : Expr} (h : e.unparen.operand? = some x) (k : Nat) :
    e.spine (k + 1) = x.spine k := by
  induction k with
  | zero => simp [spine, h]
  | succ k ih => rw [spine, ih, spine]

theorem spine_succ_eq_none {e : Expr} (h : e.unparen.operand? = none) (k : Nat) :
    e.spine (k + 1) = none := by
  induction k with
  | zero => simp [spine, h]
  | succ k ih => rw [spine, ih, Option.bind_none]

end Expr

namespace Protection

variable {p : Protection} {e x r : Expr}

theorem isPlainValue_iff :
    isPlainValue e = true ↔ ∃ t, e.type = some t ∧ ∀ elem, t ≠ .pointer elem := by
  unfold isPlainValue
  cases e.type with
  | none => simp
  | some t => cases t <;> simp [Ty.isPointer]

theorem isArrayValue_iff :
    isArrayValue e = true ↔ ∃ length elem, e.type = some (.array length elem) := by
  unfold isArrayValue
  cases e.type with
  | none => simp
  | some t => cases t <;> simp [Ty.isArray]

/-- The value of an expression is stored inside the value of its operand. A selector needs an
operand that is known not to be a pointer. An index needs an array, or a field itself, which may
also be a slice or a map. -/
def Stays (p : Protection) (e operand : Expr) : Prop :=
  match e with
  | .selector _ _ _ => ∃ t, operand.type = some t ∧ ∀ elem, t ≠ .pointer elem
  | .index _ _ _ =>
    p.isFieldRef operand = true ∨ ∃ length elem, operand.type = some (.array length elem)
  | _ => False

@[simp] theorem isFieldRef_unparen (p : Protection) (e : Expr) :
    p.isFieldRef e.unparen = p.isFieldRef e := by
  rw [isFieldRef, Expr.unparen_unparen, isFieldRef]

@[simp] theorem fieldRoot_unparen (p : Protection) (e : Expr) :
    p.fieldRoot e.unparen = p.fieldRoot e := by
  induction e using Expr.spine_induction with
  | paren x info ih => exact ih
  | selector x field info ih => rfl
  | index x i info ih => rfl
  | stop e hu ho => rw [hu]

theorem fieldRoot_of_isFieldRef (h : p.isFieldRef e = true) : p.fieldRoot e = some e.unparen := by
  rw [← fieldRoot_unparen]
  unfold isFieldRef at h
  cases hu : e.unparen with
  | selector x field info =>
    rw [hu] at h
    exact if_pos h
  | _ => simp [hu] at h

theorem fieldRoot_eq_none (ho : e.unparen.operand? = none) : p.fieldRoot e = none := by
  rw [← fieldRoot_unparen]
  cases hu : e.unparen with
  | paren x info => exact absurd hu e.unparen_ne_paren
  | selector x field info | index x i info => simp [hu, Expr.operand?] at ho
  | _ => rfl

/-- An expression that is not a field itself belongs to the field of its operand, if it is stored
inside that. -/
theorem fieldRoot_eq_some_iff_operand (hx : e.unparen.operand? = some x)
    (hf : p.isFieldRef e = false) :
    p.fieldRoot e = some r ↔ p.Stays e.unparen x.unparen ∧ p.fieldRoot x = some r := by
  rw [← fieldRoot_unparen]
  rw [← isFieldRef_unparen] at hf
  cases hu : e.unparen with
  | selector y field info =>
    rw [hu] at hf hx
    obtain rfl : y = x := by simpa [Expr.operand?] using hx
    have hn : p.holds? y.type = false := hf
    rw [fieldRoot, hn, Stays, ← isPlainValue_iff]
    simp
  | index y i info =>
    rw [hu] at hx
    obtain rfl : y = x := by simpa [Expr.operand?] using hx
    rw [fieldRoot, Stays, ← isArrayValue_iff, isFieldRef_unparen]
    by_cases hy : p.isFieldRef y = true
    · simp [hy, fieldRoot_of_isFieldRef hy]
    · simp [hy]
  | _ => simp [hu, Expr.operand?] at hx

/-- The way down the operands of an expression comes to a protected field after a number of steps,
to none before, and never leaves the storage of that field. -/
structure RootAt (p : Protection) (e : Expr) (k : Nat) (r : Expr) : Prop where
  reached : e.spine k = some r
  isField : p.isFieldRef r = true
  first : ∀ j < k, ∀ x, e.spine j = some x → p.isFieldRef x = false
  stays : ∀ j < k, ∀ x y, e.spine j = some x → e.spine (j + 1) = some y → p.Stays x y

theorem rootAt_paren {info : Info} {k : Nat} : p.RootAt (.paren x info) k r ↔ p.RootAt x k r := by
  have hs := Expr.spine_paren x info
  constructor
  · rintro ⟨hr, hf, hfirst, hstays⟩
    rw [hs] at hr hfirst hstays
    exact ⟨hr, hf, hfirst, hstays⟩
  · rintro ⟨hr, hf, hfirst, hstays⟩
    rw [← hs] at hr hfirst hstays
    exact ⟨hr, hf, hfirst, hstays⟩

theorem rootAt_zero : p.RootAt e 0 r ↔ p.isFieldRef e = true ∧ e.unparen = r := by
  constructor
  · rintro ⟨hr, hf, -, -⟩
    obtain rfl : e.unparen = r := by simpa [Expr.spine] using hr
    exact ⟨by simpa using hf, rfl⟩
  · rintro ⟨hf, rfl⟩
    exact ⟨rfl, by simpa using hf, by simp, by simp⟩

theorem rootAt_succ (hx : e.unparen.operand? = some x) {k : Nat} :
    p.RootAt e (k + 1) r ↔
      p.isFieldRef e = false ∧ p.Stays e.unparen x.unparen ∧ p.RootAt x k r := by
  constructor
  · rintro ⟨hr, hf, hfirst, hstays⟩
    refine ⟨?_, ?_, ?_, hf, ?_, ?_⟩
    · simpa using hfirst 0 k.succ_pos _ rfl
    · exact hstays 0 k.succ_pos _ _ rfl (Expr.spine_succ hx 0)
    · rw [← hr, Expr.spine_succ hx]
    · intro j hj y hy
      exact hfirst (j + 1) (by omega) y ((Expr.spine_succ hx j).trans hy)
    · intro j hj y z hy hz
      exact hstays (j + 1) (by omega) y z ((Expr.spine_succ hx j).trans hy)
        ((Expr.spine_succ hx (j + 1)).trans hz)
  · rintro ⟨hne, hs, hr, hf, hfirst, hstays⟩
    refine ⟨(Expr.spine_succ hx k).trans hr, hf, ?_, ?_⟩
    · intro j hj y hy
      cases j with
      | zero =>
        obtain rfl : e.unparen = y := by simpa [Expr.spine] using hy
        simpa using hne
      | succ j => exact hfirst j (by omega) y ((Expr.spine_succ hx j).symm.trans hy)
    · intro j hj y z hy hz
      rw [Expr.spine_succ hx] at hz
      cases j with
      | zero =>
        obtain rfl : e.unparen = y := by simpa [Expr.spine] using hy
        obtain rfl : x.unparen = z := by simpa [Expr.spine] using hz
        exact hs
      | succ j => exact hstays j (by omega) y z ((Expr.spine_succ hx j).symm.trans hy) hz

theorem not_rootAt (ho : e.unparen.operand? = none) {k : Nat} : ¬ p.RootAt e k r := by
  rintro ⟨hr, hf, -, -⟩
  cases k with
  | zero =>
    obtain rfl : e.unparen = r := by simpa [Expr.spine] using hr
    rw [isFieldRef_unparen] at hf
    have hroot := fieldRoot_of_isFieldRef hf
    rw [fieldRoot_eq_none ho] at hroot
    cases hroot
  | succ k =>
    rw [Expr.spine_succ_eq_none ho] at hr
    cases hr

/-- The first field on the way from an operand is also the first one on the way from the whole
expression, unless that is a field itself. -/
theorem fieldRoot_iff_of_operand (hx : e.unparen.operand? = some x)
    (ih : p.fieldRoot x = some r ↔ ∃ k, p.RootAt x k r) :
    p.fieldRoot e = some r ↔ ∃ k, p.RootAt e k r := by
  cases hf : p.isFieldRef e with
  | true =>
    rw [fieldRoot_of_isFieldRef hf, Option.some.injEq]
    constructor
    · intro hr
      exact ⟨0, rootAt_zero.mpr ⟨hf, hr⟩⟩
    · rintro ⟨k, hk⟩
      cases k with
      | zero => exact (rootAt_zero.mp hk).2
      | succ k =>
        rw [((rootAt_succ hx).mp hk).1] at hf
        cases hf
  | false =>
    rw [fieldRoot_eq_some_iff_operand hx hf, ih]
    constructor
    · rintro ⟨hs, k, hk⟩
      exact ⟨k + 1, (rootAt_succ hx).mpr ⟨hf, hs, hk⟩⟩
    · rintro ⟨k, hk⟩
      cases k with
      | zero =>
        rw [(rootAt_zero.mp hk).1] at hf
        cases hf
      | succ k =>
        obtain ⟨-, hs, hk⟩ := (rootAt_succ hx).mp hk
        exact ⟨hs, k, hk⟩

theorem fieldRoot_eq_some_iff (p : Protection) (e r : Expr) :
    p.fieldRoot e = some r ↔ ∃ k, p.RootAt e k r := by
  induction e using Expr.spine_induction with
  | paren x info ih =>
    simp only [rootAt_paren]
    exact ih
  | selector x field info ih => exact fieldRoot_iff_of_operand rfl ih
  | index x i info ih => exact fieldRoot_iff_of_operand rfl ih
  | stop e hu ho =>
    have ho : e.unparen.operand? = none := by rw [hu, ho]
    rw [fieldRoot_eq_none ho]
    simp [not_rootAt ho]

/-- A path belongs to the field to which the way down its operands comes first, if it does not
leave the storage of that field on the way, and to none otherwise. -/
theorem fieldRoot_first_on_spine (p : Protection) (e : Expr) :
    (∀ r, p.fieldRoot e = some r ↔ ∃ k, p.RootAt e k r) ∧
      (p.fieldRoot e = none ↔ ∀ k r, ¬ p.RootAt e k r) := by
  refine ⟨p.fieldRoot_eq_some_iff e, ?_⟩
  rw [Option.eq_none_iff_forall_ne_some]
  constructor
  · intro h k r hk
    exact h r ((p.fieldRoot_eq_some_iff e r).mpr ⟨k, hk⟩)
  · intro h r hr
    obtain ⟨k, hk⟩ := (p.fieldRoot_eq_some_iff e r).mp hr
    exact h k r hk

end Protection

end ReadGuard
