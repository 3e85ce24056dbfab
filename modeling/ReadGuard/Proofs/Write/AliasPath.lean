import ReadGuard.Proofs.Write.FieldRoot
import ReadGuard.Write.Target

namespace ReadGuard

inductive PathStep
  | selector (field : String) (info : Info)
  | index (i : Expr) (info : Info)

namespace PathStep

def info : PathStep → Info
  | selector _ info | index _ info => info

def isSelector : PathStep → Bool
  | selector _ _ => true
  | index _ _ => false

def on (x : Expr) : PathStep → Expr
  | selector field info => .selector x field info
  | index i info => .index x i info

/-- The step leads from a value of the type to a part of that value: a selector from a value that is
known not to be a pointer, an index from an array. -/
def fits (type : Option Ty) : PathStep → Bool
  | selector _ _ => type.any fun t => !t.isPointer
  | index _ _ => type.any Ty.isArray

def entersFrom (type : Option Ty) (path : List PathStep) : Bool := path.head?.all (fits type)

/-- Each step of a path leads to a part of the value that the step before it gives. -/
def inPlace : List PathStep → Bool
  | [] => true
  | a :: rest => entersFrom a.info.type rest && inPlace rest

theorem unparen_on (a : PathStep) (x : Expr) : (a.on x).unparen = a.on x := by
  cases a <;> rfl

theorem operand?_on (a : PathStep) (x : Expr) : (a.on x).unparen.operand? = some x := by
  cases a <;> rfl

theorem type_on (a : PathStep) (x : Expr) : (a.on x).type = a.info.type := by
  cases a <;> rfl

theorem inPlace_of_append {front back : List PathStep} (h : inPlace (front ++ back) = true) :
    inPlace front = true := by
  induction front with
  | nil => rfl
  | cons a front ih =>
    rw [List.cons_append, inPlace, Bool.and_eq_true] at h
    rw [inPlace, ih h.2, Bool.and_true]
    cases front with
    | nil => rfl
    | cons b front => exact h.1

end PathStep

def Expr.along (e : Expr) (path : List PathStep) : Expr := path.foldl PathStep.on e

theorem Expr.along_concat (e : Expr) (front : List PathStep) (a : PathStep) :
    e.along (front ++ [a]) = a.on (e.along front) := by
  simp [along]

open PathStep

namespace Protection

/-- Some step of a path from a value of the type selects a field of a value that holds the protected
type. -/
def selects (p : Protection) : Option Ty → List PathStep → Bool
  | _, [] => false
  | type, a :: rest => a.isSelector && p.holds? type || p.selects a.info.type rest

variable {p : Protection} {e : Expr}

theorem selects_concat (type : Option Ty) (front : List PathStep) {a : PathStep}
    (ha : a.isSelector = false) : p.selects type (front ++ [a]) = p.selects type front := by
  induction front generalizing type with
  | nil => simp [selects, ha]
  | cons b front ih => rw [List.cons_append, selects, selects, ih]

theorem isFieldRef_on (a : PathStep) :
    p.isFieldRef (a.on e) = (a.isSelector && p.holds? e.type) := by
  cases a <;> rfl

theorem stays_on {a : PathStep} (h : a.fits e.type = true) : p.Stays (a.on e) e := by
  cases a with
  | selector field info =>
    obtain ⟨t, ht, hp⟩ := (Option.any_eq_true _ _).mp h
    refine ⟨t, ht, ?_⟩
    rintro elem rfl
    cases hp
  | index i info =>
    obtain ⟨t, ht, ha⟩ := (Option.any_eq_true _ _).mp h
    cases t with
    | array length elem => exact .inr ⟨length, elem, ht⟩
    | _ => cases ha

theorem fieldRoot_on_of_none (h : p.fieldRoot e = none) {a : PathStep}
    (ha : p.isFieldRef (a.on e) = false) : p.fieldRoot (a.on e) = none := by
  rw [Option.eq_none_iff_forall_ne_some]
  intro r hr
  rw [fieldRoot_eq_some_iff_operand (a.operand?_on e) ha, h] at hr
  cases hr.2

theorem fieldRoot_on_of_some (hu : e.unparen = e) (h : (p.fieldRoot e).isSome) {a : PathStep}
    (ha : a.fits e.type = true) : (p.fieldRoot (a.on e)).isSome := by
  cases hf : p.isFieldRef (a.on e) with
  | true =>
    rw [fieldRoot_of_isFieldRef hf]
    rfl
  | false =>
    obtain ⟨r, hr⟩ := Option.isSome_iff_exists.mp h
    have hroot := (fieldRoot_eq_some_iff_operand (r := r) (a.operand?_on e) hf).mpr
      ⟨by rw [unparen_on, hu]; exact stays_on ha, hr⟩
    rw [hroot]
    rfl

/-- A path inside a field belongs to a field. -/
theorem fieldRoot_along_of_some (path : List PathStep) (hu : e.unparen = e)
    (h : (p.fieldRoot e).isSome) (hfirst : entersFrom e.type path = true)
    (hin : inPlace path = true) : (p.fieldRoot (e.along path)).isSome := by
  induction path generalizing e with
  | nil => exact h
  | cons a rest ih =>
    rw [inPlace, Bool.and_eq_true] at hin
    apply ih (a.unparen_on e) (fieldRoot_on_of_some hu h hfirst) _ hin.2
    rw [type_on]
    exact hin.1

/-- A path from elsewhere belongs to a field if it selects one. -/
theorem fieldRoot_along_of_none (path : List PathStep) (h : p.fieldRoot e = none)
    (hin : inPlace path = true) : (p.fieldRoot (e.along path)).isSome = p.selects e.type path := by
  induction path generalizing e with
  | nil =>
    change (p.fieldRoot e).isSome = false
    rw [h]
    rfl
  | cons a rest ih =>
    change (p.fieldRoot ((a.on e).along rest)).isSome = _
    rw [inPlace, Bool.and_eq_true] at hin
    rw [selects, ← isFieldRef_on]
    cases hf : p.isFieldRef (a.on e) with
    | true =>
      rw [Bool.true_or]
      apply fieldRoot_along_of_some rest (a.unparen_on e) _ _ hin.2
      · rw [fieldRoot_of_isFieldRef hf]
        rfl
      · rw [type_on]
        exact hin.1
    | false => rw [Bool.false_or, ih (fieldRoot_on_of_none h hf) hin.2, type_on]

end Protection

namespace Aliases

theorem root_along (s : Aliases) (e : Expr) (path : List PathStep) :
    s.root (e.along path) = if path.all isSelector then s.root e else none := by
  induction path generalizing e with
  | nil => rfl
  | cons a rest ih =>
    change s.root ((a.on e).along rest) = _
    rw [ih, List.all_cons]
    cases a with
    | selector field info => rfl
    | index i info => simp [on, root, isSelector]

theorem root_unparen (s : Aliases) (e : Expr) : s.root e.unparen = s.root e := by
  cases e with
  | paren x info => exact root_unparen s x
  | _ => rfl

end Aliases

namespace PathStep

def scope (x : Expr) : PathStep → Expr
  | selector field info => .selector x field info
  | index _ _ => x

def pointerKind : PathStep → TargetKind
  | selector _ _ => .pointer
  | index _ _ => .index

end PathStep

namespace WriteTarget

variable {p : Protection} {s : Aliases} {a : PathStep} {x : Expr}

theorem classify_on_of_some (h : (p.fieldRoot (a.scope x)).isSome) :
    (classify p s (a.on x)).isSome := by
  obtain ⟨field, hf⟩ := Option.isSome_iff_exists.mp h
  cases a with
  | selector name info =>
    change (ofSelector p s (.selector x name info) x).isSome
    rw [ofSelector, show p.fieldRoot (.selector x name info) = some field from hf]
    rfl
  | index i info =>
    change (ofIndex p s (.index x i info) x).isSome
    rw [ofIndex, show p.fieldRoot x = some field from hf]
    rfl

theorem classify_on_of_none (h : p.fieldRoot (a.scope x) = none) :
    classify p s (a.on x) = ofAlias a.pointerKind (a.on x) (s.root x) := by
  cases a with
  | selector name info =>
    change ofSelector p s (.selector x name info) x = _
    rw [ofSelector, show p.fieldRoot (.selector x name info) = none from h]
    rfl
  | index i info =>
    change ofIndex p s (.index x i info) x = _
    rw [ofIndex, show p.fieldRoot x = none from h]
    rfl

variable {e field : Expr} {front : List PathStep} {name : String}

theorem fieldRoot_scope (h : p.fieldRoot e = none) (hin : inPlace (front ++ [a]) = true) :
    (p.fieldRoot (a.scope (e.along front))).isSome = p.selects e.type (front ++ [a]) := by
  cases a with
  | selector field info =>
    rw [← Protection.fieldRoot_along_of_none _ h hin, Expr.along_concat]
    rfl
  | index i info =>
    rw [Protection.selects_concat _ _ rfl,
      ← Protection.fieldRoot_along_of_none _ h (inPlace_of_append hin)]
    rfl

/-- A write through a pointer to a field is found by the name of the pointer, unless a field is
found first, and only if all steps but the last are selectors. -/
theorem classify_along_of_none (h : p.fieldRoot e = none) (hroot : s.root e = some (name, field))
    (hin : inPlace (front ++ [a]) = true) (hsel : p.selects e.type (front ++ [a]) = false) :
    classify p s (e.along (front ++ [a])) = if front.all isSelector then
      some ⟨a.pointerKind, e.along (front ++ [a]), field, name⟩ else none := by
  have hscope := fieldRoot_scope h hin
  rw [hsel, Option.isSome_eq_false_iff, Option.isNone_iff_eq_none] at hscope
  rw [Expr.along_concat, classify_on_of_none hscope, Aliases.root_along, hroot]
  split <;> rfl

theorem classify_along_of_selects (h : p.fieldRoot e = none)
    (hin : inPlace (front ++ [a]) = true) (hsel : p.selects e.type (front ++ [a]) = true) :
    (classify p s (e.along (front ++ [a]))).isSome := by
  rw [Expr.along_concat]
  apply classify_on_of_some
  rw [fieldRoot_scope h hin, hsel]

theorem classify_along_of_some (hu : e.unparen = e) (h : (p.fieldRoot e).isSome)
    (hfirst : entersFrom e.type (front ++ [a]) = true) (hin : inPlace (front ++ [a]) = true) :
    (classify p s (e.along (front ++ [a]))).isSome := by
  rw [Expr.along_concat]
  apply classify_on_of_some
  cases a with
  | selector field info =>
    have hroot := Protection.fieldRoot_along_of_some _ hu h hfirst hin
    rw [Expr.along_concat] at hroot
    exact hroot
  | index i info =>
    apply Protection.fieldRoot_along_of_some front hu h _ (inPlace_of_append hin)
    cases front with
    | nil => rfl
    | cons b front => exact hfirst

/-- A write to a part of a field is noticed. The same write through a pointer to the field is
noticed if and only if all steps of the path but the last are selectors, or some step selects from
a value that holds the protected type itself. Where no step does, it is put down to the field and
the name of the pointer. -/
theorem classify_through_pointer (p : Protection) (s : Aliases) (base pointee x : Expr)
    (name : String) (info info' : Info) (id : Ident) (path : List PathStep)
    (hf : p.holds? base.type = true) (hr : s.resolve id.name = some (.selector base name info))
    (hp : pointee.unparen = .star x info') (hx : x.unparen = .ident id)
    (ht : pointee.type = info.type) (hne : path ≠ []) (hin : inPlace path = true) :
    (entersFrom info.type path = true →
      (classify p s ((Expr.selector base name info).along path)).isSome) ∧
    ((classify p s (pointee.along path)).isSome ↔
      path.dropLast.all isSelector = true ∨ p.selects info.type path = true) ∧
    ∀ t, classify p s (pointee.along path) = some t → p.selects info.type path = false →
      t.field = .selector base name info ∧ t.via = id.name := by
  have hnone : p.fieldRoot pointee = none := by
    apply Protection.fieldRoot_eq_none
    rw [hp]
    rfl
  have hroot : s.root pointee = some (id.name, .selector base name info) := by
    have hid : s.root x = some (id.name, .selector base name info) := by
      rw [← Aliases.root_unparen, hx, Aliases.root, hr]
      rfl
    rw [← Aliases.root_unparen, hp]
    exact hid
  have hfield : (p.fieldRoot (.selector base name info)).isSome := by
    rw [Protection.fieldRoot, if_pos hf]
    rfl
  rw [← List.dropLast_concat_getLast hne] at hin ⊢
  generalize path.dropLast = front at hin ⊢
  generalize path.getLast hne = a at hin ⊢
  rw [List.dropLast_concat]
  refine ⟨fun hfirst => classify_along_of_some rfl hfield hfirst hin, ?_, ?_⟩
  · rw [← ht]
    cases hsel : p.selects pointee.type (front ++ [a]) with
    | true => simp [classify_along_of_selects hnone hin hsel]
    | false =>
      rw [classify_along_of_none hnone hroot hin hsel]
      by_cases hall : front.all isSelector = true <;> simp [hall]
  · intro t hc hsel
    rw [← ht] at hsel
    rw [classify_along_of_none hnone hroot hin hsel] at hc
    split at hc
    · cases hc
      exact ⟨rfl, rfl⟩
    · cases hc

def dataValue : Expr :=
  .ident { name := "d", info := { type := some (.pointer (.named "data" "BigStruct")) } }

def dataField (type : Ty) : Expr := .selector dataValue "f" { type := some type }

def behindPointer (type : Ty) : Expr :=
  .paren (.star (.ident { name := "p", info := { type := some (.pointer type) } })
    { type := some type }) { type := some type }

def pointerTo (type : Ty) : Aliases := AliasStore.record {} "p" (dataField type)

def rowCell : List PathStep :=
  [.selector "row" { type := some (.array 3 (.basic "int")) },
    .index (.lit "INT" "1" {}) { type := some (.basic "int") }]

theorem classify_through_pointer_row :
    inPlace rowCell = true ∧
    (classify ⟨"data", "BigStruct"⟩ (pointerTo (.named "data" "Inner"))
      ((behindPointer (.named "data" "Inner")).along rowCell)).isSome := by
  obtain ⟨-, hiff, -⟩ := classify_through_pointer ⟨"data", "BigStruct"⟩
    (pointerTo (.named "data" "Inner")) dataValue (behindPointer (.named "data" "Inner")) _ "f"
    _ _ _ rowCell (by decide) rfl rfl rfl rfl (by decide) (by decide)
  exact ⟨by decide, hiff.mpr (.inl (by decide))⟩

def gridType : Ty := .array 3 (.array 3 (.basic "int"))

def gridCell : List PathStep :=
  [.index (.lit "INT" "1" {}) { type := some (.array 3 (.basic "int")) },
    .index (.lit "INT" "2" {}) { type := some (.basic "int") }]

/-- A write to a cell of an array of arrays is noticed, but not through a pointer to the array. -/
theorem grid_cell_unnoticed_through_pointer :
    (pointerTo gridType).resolve "p" = some (dataField gridType) ∧
    Protection.isFieldRef ⟨"data", "BigStruct"⟩ (dataField gridType) = true ∧
    entersFrom (some gridType) gridCell = true ∧ inPlace gridCell = true ∧
    (classify ⟨"data", "BigStruct"⟩ (pointerTo gridType)
      ((dataField gridType).along gridCell)).isSome ∧
    (classify ⟨"data", "BigStruct"⟩ (pointerTo gridType)
      ((behindPointer gridType).along gridCell)).isNone :=
  ⟨rfl, by decide, by decide, by decide, by decide, by decide⟩

end WriteTarget

end ReadGuard
