import ReadGuard.Proofs.Load.Alike

namespace ReadGuard.Load

variable {α β : Type}

/-- A parameter has no head: its keywords stand anywhere in the list. -/
inductive Role
  | form
  | param

def itemRole (head : Option String) : Role := if head = some "params" then .param else .form

def valueRole (head : Option String) (key : String) : Role :=
  if head = some "func" ∧ key = "recv" then .param else .form

mutual

/-- Expressions that differ in where the keywords stand in the tails of their forms. -/
inductive Reordered : Role → Sexp → Sexp → Prop
  | refl (role : Role) (x : Sexp) : Reordered role x x
  | symm {role : Role} {x y : Sexp} : Reordered role x y → Reordered role y x
  | trans {role : Role} {x y z : Sexp} :
      Reordered role x y → Reordered role y z → Reordered role x z
  | form {head : String} {xs ys : List Sexp} :
      ReorderedTail (some head) xs ys →
      Reordered .form (.list (.sym head :: xs)) (.list (.sym head :: ys))
  | headless {xs ys : List Sexp} :
      (Sexp.list xs).head? = none → (Sexp.list ys).head? = none → ReorderedTail none xs ys →
      Reordered .form (.list xs) (.list ys)
  | param {xs ys : List Sexp} : ReorderedTail none xs ys → Reordered .param (.list xs) (.list ys)
  | brackets (role : Role) {xs ys : List Sexp} :
      ReorderedTail none xs ys → Reordered role (.brackets xs) (.brackets ys)
  | quoted (role : Role) {x y : Sexp} :
      Reordered .form x y → Reordered role (.quoted x) (.quoted y)

inductive ReorderedTail : Option String → List Sexp → List Sexp → Prop
  | refl (head : Option String) (xs : List Sexp) : ReorderedTail head xs xs
  | symm {head : Option String} {xs ys : List Sexp} :
      ReorderedTail head xs ys → ReorderedTail head ys xs
  | trans {head : Option String} {xs ys zs : List Sexp} :
      ReorderedTail head xs ys → ReorderedTail head ys zs → ReorderedTail head xs zs
  | item {head : Option String} {x y : Sexp} {xs ys : List Sexp} :
      keyword? x = none → Reordered (itemRole head) x y → ReorderedTail head xs ys →
      ReorderedTail head (x :: xs) (y :: ys)
  | named {head : Option String} {k x y : Sexp} {key : String} {xs ys : List Sexp} :
      keyword? k = some key → Reordered (valueRole head key) x y → ReorderedTail head xs ys →
      ReorderedTail head (k :: x :: xs) (k :: y :: ys)
  | moveItem {head : Option String} {k v x : Sexp} {key : String} {xs : List Sexp} :
      keyword? k = some key → keyword? x = none →
      ReorderedTail head (k :: v :: x :: xs) (x :: k :: v :: xs)
  | moveNamed {head : Option String} {k v l w : Sexp} {key key' : String} {xs : List Sexp} :
      keyword? k = some key → keyword? l = some key' → key ≠ key' →
      ReorderedTail head (k :: v :: l :: w :: xs) (l :: w :: k :: v :: xs)

end

theorem eq_sym_of_keyword {k : Sexp} {key : String} (hk : keyword? k = some key) :
    ∃ name, k = .sym name := by
  cases k with
  | sym name => exact ⟨name, rfl⟩
  | _ => cases hk

theorem keyword?_injective {k l : Sexp} {key : String} (hk : keyword? k = some key)
    (hl : keyword? l = some key) : k = l := by
  have hname : ∀ {x : Sexp}, keyword? x = some key →
      x = .sym (String.ofList (':' :: key.toList)) := by
    intro x hx
    obtain ⟨name, rfl⟩ := eq_sym_of_keyword hx
    unfold keyword? at hx
    dsimp only at hx
    split at hx
    case h_1 c rest hn =>
      split at hx
      · cases hx
        rw [String.toList_ofList, ← hn, String.ofList_toList]
      · cases hx
    case h_2 => cases hx
  rw [hname hk, hname hl]

def Args.valuesOf (a : Args α) (key : String) : List α :=
  (a.named.filter fun p => p.1 == key).map (·.2)

theorem Args.valuesOf_addNamed (a : Args α) (key : String) (x : α) (key' : String) :
    (a.addNamed key x).valuesOf key' =
      if key = key' then x :: a.valuesOf key' else a.valuesOf key' := by
  unfold valuesOf addNamed
  rw [List.filter_cons]
  by_cases h : key = key' <;> simp [h]

theorem pull_item {head : Option String} {ys rest : List Sexp} {y : Sexp} {b : Args Sexp}
    (hb : Splits ys b) (hi : b.items = y :: rest) :
    ∃ zs, ReorderedTail head ys (y :: zs) ∧ keyword? y = none ∧ Splits zs ⟨rest, b.named⟩ := by
  induction hb with
  | nil => cases hi
  | item hx hs =>
    cases hi
    exact ⟨_, .refl .., hx, hs⟩
  | named hk _ ih =>
    obtain ⟨zs, hr, hy, hz⟩ := ih hi
    exact ⟨_, .trans (.named hk (.refl ..) hr) (.moveItem hk hy), hy, .named hk hz⟩

theorem pull_named {head : Option String} {ys rest : List Sexp} {y : Sexp} {key : String}
    {b : Args Sexp} (hb : Splits ys b) (hv : b.valuesOf key = y :: rest) :
    ∃ k zs c, ReorderedTail head ys (k :: y :: zs) ∧ keyword? k = some key ∧ Splits zs c ∧
      c.items = b.items ∧ c.valuesOf key = rest ∧
      ∀ key', key' ≠ key → c.valuesOf key' = b.valuesOf key' := by
  induction hb with
  | nil => cases hv
  | item hx _ ih =>
    obtain ⟨k, zs, c, hr, hk, hz, hc, hrest, hother⟩ := ih hv
    exact ⟨k, _, _, .trans (.item hx (.refl ..) hr) (.symm (.moveItem hk hx)), hk, .item hx hz,
      congrArg (_ :: ·) hc, hrest, hother⟩
  | @named l v key' _ _ hl hs ih =>
    rw [Args.valuesOf_addNamed] at hv
    by_cases hkey : key' = key
    · subst hkey
      rw [if_pos rfl] at hv
      cases hv
      refine ⟨l, _, _, .refl .., hl, hs, rfl, rfl, fun key'' hne => ?_⟩
      rw [Args.valuesOf_addNamed, if_neg (Ne.symm hne)]
    · rw [if_neg hkey] at hv
      obtain ⟨k, zs, c, hr, hk, hz, hc, hrest, hother⟩ := ih hv
      refine ⟨k, _, c.addNamed key' v, .trans (.named hl (.refl ..) hr) (.moveNamed hl hk hkey), hk,
        .named hl hz, hc, ?_, fun key'' hne => ?_⟩
      · rw [Args.valuesOf_addNamed, if_neg hkey, hrest]
      · rw [Args.valuesOf_addNamed, Args.valuesOf_addNamed, hother key'' hne]

/-- Tails differ only in where the keywords stand if their items agree in order, and so do the items
of every single keyword. -/
theorem reorderedTail_of_splits {head : Option String} {xs ys : List Sexp} {a b : Args Sexp}
    (ha : Splits xs a) (hb : Splits ys b)
    (hi : List.Forall₂ (Reordered (itemRole head)) a.items b.items)
    (hn : ∀ key, List.Forall₂ (Reordered (valueRole head key)) (a.valuesOf key) (b.valuesOf key)) :
    ReorderedTail head xs ys := by
  induction ha generalizing ys b with
  | nil =>
    cases hb with
    | nil => exact .refl ..
    | item => cases hi
    | @named _ _ key =>
      have hv := hn key
      rw [Args.valuesOf_addNamed, if_pos rfl] at hv
      cases hv
  | item hx _ ih =>
    obtain ⟨y, rest, hxy, hrest, hitems⟩ := List.forall₂_cons_left_iff.1 hi
    obtain ⟨zs, hr, -, hz⟩ := pull_item hb hitems
    exact .trans (.item hx hxy (ih hz hrest hn)) hr.symm
  | @named _ _ key _ _ hk _ ih =>
    have hv := hn key
    rw [Args.valuesOf_addNamed, if_pos rfl] at hv
    obtain ⟨y, rest, hxy, hrest, hvalues⟩ := List.forall₂_cons_left_iff.1 hv
    obtain ⟨l, zs, c, hr, hl, hz, hc, hcrest, hother⟩ := pull_named hb hvalues
    obtain rfl := keyword?_injective hk hl
    refine .trans (.named hk hxy (ih hz (hc ▸ hi) fun key' => ?_)) hr.symm
    by_cases hkey : key' = key
    · subst hkey
      rw [hcrest]
      exact hrest
    · rw [hother key' hkey]
      have hv' := hn key'
      rwa [Args.valuesOf_addNamed, if_neg (Ne.symm hkey)] at hv'

def Role.Same : Role → Sexp → Sexp → Prop
  | .form, x, y => (formOf x).Same (formOf y)
  | .param, x, y =>
    keyword? x = keyword? y ∧ integer? x = integer? y ∧ Alike (Load.param x) (Load.param y)

namespace Role.Same

theorem refl (role : Role) (x : Sexp) : role.Same x x := by
  cases role with
  | form => exact Eq.refl _
  | param => exact ⟨rfl, rfl, .rfl⟩

theorem symm {role : Role} {x y : Sexp} (h : role.Same x y) : role.Same y x := by
  cases role with
  | form => exact Eq.symm h
  | param => exact ⟨h.1.symm, h.2.1.symm, Eq.symm h.2.2⟩

theorem trans {role : Role} {x y z : Sexp} (h : role.Same x y) (h' : role.Same y z) :
    role.Same x z := by
  cases role with
  | form => exact Eq.trans h h'
  | param => exact ⟨h.1.trans h'.1, h.2.1.trans h'.2.1, Eq.trans h.2.2 h'.2.2⟩

theorem keyword {role : Role} {x y : Sexp} (h : role.Same x y) : keyword? x = keyword? y := by
  cases role with
  | form => simpa only [raw_formOf] using Form.Same.keyword h
  | param => exact h.1

theorem integer {role : Role} {x y : Sexp} (h : role.Same x y) : integer? x = integer? y := by
  cases role with
  | form => simpa only [raw_formOf] using Form.Same.integer h
  | param => exact h.2.1

end Role.Same

structure Args.Same (head : Option String) (a b : Args Sexp) : Prop where
  items : List.Forall₂ (itemRole head).Same a.items b.items
  named : ∀ key, Option.Rel (valueRole head key).Same (a.get? key) (b.get? key)

structure TailSame (head : Option String) (xs ys : List Sexp) : Prop where
  args : Option.Rel (Args.Same head) (tail? xs) (tail? ys)
  integers : xs.mapM integer? = ys.mapM integer?
  params : head = some "params" → Alike (xs.mapM param) (ys.mapM param)

section Rel

variable {r : α → α → Prop} {x y z : Option α}

theorem rel_refl (h : ∀ a, r a a) (x : Option α) : Option.Rel r x x := by
  cases x with
  | none => exact .none
  | some a => exact .some (h a)

theorem rel_symm (hr : ∀ {a b}, r a b → r b a) (h : Option.Rel r x y) : Option.Rel r y x := by
  cases h with
  | none => exact .none
  | some h => exact .some (hr h)

theorem rel_trans (hr : ∀ {a b c}, r a b → r b c → r a c) (h : Option.Rel r x y)
    (h' : Option.Rel r y z) : Option.Rel r x z := by
  cases h with
  | none => exact h'
  | some h =>
    cases h' with
    | some h' => exact .some (hr h h')

theorem rel_map {q : β → β → Prop} {f g : α → β} (hr : ∀ {a b}, r a b → q (f a) (g b))
    (h : Option.Rel r x y) : Option.Rel q (x.map f) (y.map g) := by
  cases h with
  | none => exact .none
  | some h => exact .some (hr h)

theorem forall₂_trans {xs ys zs : List α} (h : List.Forall₂ r xs ys) (h' : List.Forall₂ r ys zs)
    (hr : ∀ a b c, r a b → r b c → r a c) : List.Forall₂ r xs zs := by
  induction h generalizing zs with
  | nil => exact h'
  | cons h _ ih =>
    cases h' with
    | cons h' hrest => exact .cons (hr _ _ _ h h') (ih hrest)

end Rel

namespace Args.Same

variable {head : Option String} {a b c : Args Sexp}

theorem refl (head : Option String) (a : Args Sexp) : Args.Same head a a :=
  ⟨List.forall₂_same.2 fun _ _ => .refl .., fun _ => rel_refl (Role.Same.refl _) _⟩

theorem symm (h : Args.Same head a b) : Args.Same head b a :=
  ⟨.flip (h.items.imp fun _ _ hx => Role.Same.symm hx),
    fun key => rel_symm Role.Same.symm (h.named key)⟩

theorem trans (h : Args.Same head a b) (h' : Args.Same head b c) : Args.Same head a c :=
  ⟨forall₂_trans h.items h'.items fun _ _ _ => Role.Same.trans,
    fun key => rel_trans Role.Same.trans (h.named key) (h'.named key)⟩

theorem addItem {x y : Sexp} (hx : (itemRole head).Same x y) (h : Args.Same head a b) :
    Args.Same head (a.addItem x) (b.addItem y) :=
  ⟨.cons hx h.items, h.named⟩

theorem addNamed {x y : Sexp} {key : String} (hx : (valueRole head key).Same x y)
    (h : Args.Same head a b) : Args.Same head (a.addNamed key x) (b.addNamed key y) := by
  refine ⟨h.items, fun key' => ?_⟩
  rw [get?_addNamed, get?_addNamed]
  have hn := h.named key'
  revert hn
  generalize a.get? key' = u
  generalize b.get? key' = v
  rintro (hs | _)
  · exact .some hs
  · by_cases hk : key' = key
    · subst hk
      rw [if_pos rfl, if_pos rfl]
      exact .some hx
    · rw [if_neg hk, if_neg hk]
      exact .none

/-- Pairs of different keywords may change places. -/
theorem addNamed_comm {key key' : String} (hne : key ≠ key') (v w : Sexp) (a : Args Sexp) :
    Args.Same head ((a.addNamed key' w).addNamed key v) ((a.addNamed key v).addNamed key' w) := by
  refine ⟨(refl head a).items, fun k => ?_⟩
  have hk : ((a.addNamed key' w).addNamed key v).get? k =
      ((a.addNamed key v).addNamed key' w).get? k := by
    simp only [get?_addNamed, Option.or_assoc]
    by_cases h : k = key
    · rw [if_pos h, if_neg (h ▸ hne)]
      rfl
    · rw [if_neg h, Option.or_none, Option.none_or]
  rw [hk]
  exact rel_refl (Role.Same.refl _) _

end Args.Same

theorem mapM_integer_eq_none {xs : List Sexp} {x : Sexp} (hm : x ∈ xs) (hx : integer? x = none) :
    xs.mapM integer? = none := by
  induction hm with
  | head => rw [List.mapM_cons, hx]; rfl
  | tail y _ ih => rw [List.mapM_cons, ih]; cases integer? y <;> rfl

theorem ok?_mapM_eq_none {load : α → Load β} {xs : List α} {x : α} (hm : x ∈ xs)
    (hx : ∀ s, ok? (load x) s = none) (s : State) : ok? (xs.mapM load) s = none := by
  induction hm generalizing s with
  | head => rw [List.mapM_cons, ok?_bind, hx]; rfl
  | tail y _ ih =>
    rw [List.mapM_cons, ok?_bind]
    cases ok? (load y) s with
    | none => rfl
    | some r => simp [ih]

namespace TailSame

variable {head : Option String} {xs ys zs : List Sexp}

/-- Among numbers and among parameters a keyword is out of place. -/
theorem of_keyword {k : Sexp} {key : String} (hk : keyword? k = some key) (hx : k ∈ xs)
    (hy : k ∈ ys) (h : Option.Rel (Args.Same head) (tail? xs) (tail? ys)) :
    TailSame head xs ys := by
  obtain ⟨name, rfl⟩ := eq_sym_of_keyword hk
  refine ⟨h, ?_, fun _ => .of_fail (ok?_mapM_eq_none hx ?_) (ok?_mapM_eq_none hy ?_)⟩
  · rw [mapM_integer_eq_none hx rfl, mapM_integer_eq_none hy rfl]
  · exact fun _ => rfl
  · exact fun _ => rfl

theorem refl (head : Option String) (xs : List Sexp) : TailSame head xs xs :=
  ⟨rel_refl (Args.Same.refl head) _, rfl, fun _ => .rfl⟩

theorem symm (h : TailSame head xs ys) : TailSame head ys xs :=
  ⟨rel_symm Args.Same.symm h.args, h.integers.symm, fun hp => Eq.symm (h.params hp)⟩

theorem trans (h : TailSame head xs ys) (h' : TailSame head ys zs) : TailSame head xs zs :=
  ⟨rel_trans Args.Same.trans h.args h'.args, h.integers.trans h'.integers,
    fun hp => Eq.trans (h.params hp) (h'.params hp)⟩

theorem item {x y : Sexp} (hk : keyword? x = none) (hx : (itemRole head).Same x y)
    (h : TailSame head xs ys) : TailSame head (x :: xs) (y :: ys) where
  args := by
    rw [tail?_item hk, tail?_item (hx.keyword ▸ hk)]
    exact rel_map (Args.Same.addItem hx) h.args
  integers := by rw [List.mapM_cons, List.mapM_cons, hx.integer, h.integers]
  params hp := by
    rw [itemRole, if_pos hp] at hx
    rw [List.mapM_cons, List.mapM_cons]
    exact hx.2.2.bind fun _ => (h.params hp).bind fun _ => .rfl

theorem named {k x y : Sexp} {key : String} (hk : keyword? k = some key)
    (hx : (valueRole head key).Same x y) (h : TailSame head xs ys) :
    TailSame head (k :: x :: xs) (k :: y :: ys) := by
  refine of_keyword hk (by simp) (by simp) ?_
  rw [tail?_named hk, tail?_named hk]
  exact rel_map (Args.Same.addNamed hx) h.args

theorem moveItem {k v x : Sexp} {key : String} (hk : keyword? k = some key)
    (hx : keyword? x = none) : TailSame head (k :: v :: x :: xs) (x :: k :: v :: xs) := by
  refine of_keyword hk (by simp) (by simp) ?_
  rw [tail?_named hk, tail?_item hx, tail?_item hx, tail?_named hk, Option.map_map, Option.map_map]
  exact rel_refl (Args.Same.refl head) _

theorem moveNamed {k v l w : Sexp} {key key' : String} (hk : keyword? k = some key)
    (hl : keyword? l = some key') (hne : key ≠ key') :
    TailSame head (k :: v :: l :: w :: xs) (l :: w :: k :: v :: xs) := by
  refine of_keyword hk (by simp) (by simp) ?_
  rw [tail?_named hk, tail?_named hl, tail?_named hl, tail?_named hk, Option.map_map,
    Option.map_map]
  cases tail? xs with
  | none => exact .none
  | some a => exact .some (.addNamed_comm hne v w a)

end TailSame

theorem eq_map_of_mapM_integer {xs : List Sexp} {ns : List Int} (h : xs.mapM integer? = some ns) :
    xs = ns.map .int := by
  induction xs generalizing ns with
  | nil => cases h; rfl
  | cons x xs ih =>
    rw [List.mapM_cons] at h
    cases x with
    | int n =>
      cases hxs : xs.mapM integer? with
      | none => rw [hxs] at h; cases h
      | some ms => rw [hxs] at h; cases h; rw [List.map_cons, ih hxs]
    | _ => cases h

theorem placeOf_list_eq {xs ys : List Sexp} (h : xs.mapM integer? = ys.mapM integer?) :
    placeOf (.list xs) = placeOf (.list ys) := by
  have hnone : ∀ zs : List Sexp, zs.mapM integer? = none → placeOf (.list zs) = none := by
    intro zs hz
    unfold placeOf
    split
    case h_1 heq => cases heq; cases hz
    case h_2 heq => cases heq; cases hz
    case h_3 => rfl
  cases hx : xs.mapM integer? with
  | none => rw [hnone xs hx, hnone ys (h ▸ hx)]
  | some ns => rw [eq_map_of_mapM_integer hx, ← eq_map_of_mapM_integer (h ▸ hx)]

section Tables

variable {head : String} {xs ys : List Sexp} {a b : Args Sexp}

theorem alike_load {table : Table α} {unknown : Sexp → Fault}
    (h : Option.Rel (Args.Same (some head)) (tail? xs) (tail? ys))
    (hl : ∀ {load a b}, table.lookup head = some load → Args.Same (some head) a b →
      Alike (load (a.map formOf)) (load (b.map formOf))) :
    Alike (table.load unknown (.list (.sym head :: xs)) (formsOf xs))
      (table.load unknown (.list (.sym head :: ys)) (formsOf ys)) := by
  funext s
  rw [ok?_load, ok?_load]
  cases ht : table.lookup head with
  | none => rfl
  | some load =>
    revert h
    generalize tail? xs = u
    generalize tail? ys = v
    rintro (hs | _)
    · exact congrFun (hl ht hs) s
    · rfl

theorem Args.Same.forms (hne : head ≠ "params") (h : Args.Same (some head) a b) :
    FormArgs.Same (a.map formOf) (b.map formOf) where
  items := by
    have hi := h.items
    rw [itemRole, if_neg (by simpa using hne)] at hi
    exact List.forall₂_map_left_iff.2 (List.forall₂_map_right_iff.2 hi)
  named key hkey := by
    have hn := h.named key
    rw [valueRole, if_neg fun hk => hkey hk.2] at hn
    rw [Args.get?_map, Args.get?_map]
    exact rel_map id hn

theorem alike_load_of_table {table : Table α} {unknown : Sexp → Fault}
    (hne : ∀ entry ∈ table, entry.1 ≠ "params")
    (ht : ∀ {a b : FormArgs}, FormArgs.Same a b → ∀ entry ∈ table, Alike (entry.2 a) (entry.2 b))
    (h : Option.Rel (Args.Same (some head)) (tail? xs) (tail? ys)) :
    Alike (table.load unknown (.list (.sym head :: xs)) (formsOf xs))
      (table.load unknown (.list (.sym head :: ys)) (formsOf ys)) :=
  alike_load h fun hl hs =>
    have hm := mem_of_lookup hl
    ht (hs.forms (hne _ hm)) _ hm

/-- The receiver of a function is read as a parameter. -/
theorem alike_load_func {unknown : Sexp → Fault}
    (h : Option.Rel (Args.Same (some head)) (tail? xs) (tail? ys)) :
    Alike (Table.load [("func", func)] unknown (.list (.sym head :: xs)) (formsOf xs))
      (Table.load [("func", func)] unknown (.list (.sym head :: ys)) (formsOf ys)) := by
  refine alike_load h fun {load a b} hl hs => ?_
  obtain ⟨rfl, rfl⟩ : head = "func" ∧ load = func := by
    simpa using mem_of_lookup hl
  refine (hs.forms (by decide)).func ?_
  have hr := hs.named "recv"
  unfold FormArgs.optional
  rw [Args.get?_map, Args.get?_map]
  revert hr
  generalize a.get? "recv" = u
  generalize b.get? "recv" = v
  rintro (hr | _)
  · simp only [Option.map_some, raw_formOf]
    exact Alike.map some (show Role.Same .param _ _ from hr).2.2
  · exact .rfl

theorem alike_params (h : TailSame (some head) xs ys) :
    Alike (params (.list (.sym head :: xs))) (params (.list (.sym head :: ys))) := by
  by_cases hp : head = "params"
  · subst hp
    exact h.params rfl
  · unfold params
    split
    · exact absurd (by simp_all) hp
    · split
      · exact absurd (by simp_all) hp
      · exact .rfl

theorem same_form (h : TailSame (some head) xs ys) :
    Role.form.Same (.list (.sym head :: xs)) (.list (.sym head :: ys)) := by
  change (formOf _).view = (formOf _).view
  rw [formOf_eq_ofTail, formOf_eq_ofTail]
  apply View.ext
  case place =>
    change placeOf (.list (.sym head :: xs)) = placeOf (.list (.sym head :: ys))
    apply placeOf_list_eq
    rw [List.mapM_cons, List.mapM_cons, h.integers]
  case params => exact alike_params h
  case expr => exact alike_load_of_table (by decide) FormArgs.Same.exprTable h.args
  case stmt => exact alike_load_of_table (by decide) FormArgs.Same.stmtTable h.args
  case block => exact alike_load_of_table (by decide) (fun hs => by simpa using hs.block) h.args
  case clause => exact alike_load_of_table (by decide) (fun hs => by simpa using hs.clause) h.args
  case file => exact alike_load_of_table (by decide) (fun hs => by simpa using hs.file) h.args
  case func => exact alike_load_func h.args
  case unit =>
    exact Alike.bind .rfl fun _ =>
      alike_load_of_table (by decide) (fun hs => by simpa using hs.unit) h.args
  all_goals rfl

end Tables

/-- Without a head, an expression is at most a text or a place. -/
theorem same_headless {x y : Sexp} (hx : x.head? = none) (hy : y.head? = none)
    (hk : keyword? x = keyword? y) (hs : string? x = string? y) (hl : isList x = isList y)
    (hi : integer? x = integer? y) (hp : placeOf x = placeOf y) (ht : Alike (text x) (text y)) :
    Role.form.Same x y := by
  have hparams : ∀ {z : Sexp}, z.head? = none → ∀ s, ok? (params z) s = none := by
    intro z hz s
    unfold params
    split
    · cases hz
    · rfl
  have hload : ∀ {γ : Type} (table : Table γ) (unknown : Sexp → Fault),
      Alike (table.load unknown x (tailForms x)) (table.load unknown y (tailForms y)) := by
    intro γ table unknown
    exact .of_fail (ok?_load_headless table unknown hx _) (ok?_load_headless table unknown hy _)
  change (formOf x).view = (formOf y).view
  rw [formOf_eq_ofTail, formOf_eq_ofTail]
  apply View.ext
  case keyword => exact hk
  case head => exact hx.trans hy.symm
  case string => exact hs
  case isList => exact hl
  case integer => exact hi
  case place => exact hp
  case text => exact ht
  case params => exact Alike.of_fail (hparams hx) (hparams hy)
  case unit => exact Alike.bind .rfl fun _ => hload _ _
  all_goals exact hload _ _

theorem Args.Same.paramKeys {a b : Args Sexp} (h : Args.Same none a b) {type type' : Sexp}
    (ht : Role.form.Same type type') :
    Keys.Same (Load.paramKeys a type) (Load.paramKeys b type') := by
  have hview : ∀ {x y : Sexp}, Role.form.Same x y →
      placeOf x = placeOf y ∧ Alike (text x) (text y) := by
    intro x y hs
    have hp := Form.Same.place hs
    have ht := Form.Same.text hs
    rw [raw_formOf, raw_formOf] at hp ht
    exact ⟨hp, ht⟩
  refine .of_rel fun key _ => ?_
  have hn : Option.Rel Role.form.Same (a.get? key) (b.get? key) := h.named key
  unfold Load.paramKeys
  revert hn
  generalize a.get? key = u
  generalize b.get? key = v
  rintro (hs | _)
  · exact .some (hview hs)
  · by_cases hk : key = "type"
    · rw [if_pos hk, if_pos hk]
      exact .some (hview ht)
    · rw [if_neg hk, if_neg hk]
      exact .none

/-- A parameter is read off its items and keywords. -/
theorem alike_param {xs ys : List Sexp} (h : TailSame none xs ys) :
    Alike (param (.list xs)) (param (.list ys)) := by
  funext s
  rw [ok?_param, ok?_param]
  have ha := h.args
  revert ha
  generalize tail? xs = u
  generalize tail? ys = v
  rintro (@⟨a, b, hs⟩ | _)
  · have hinfo : ∀ {type type' : Sexp}, Role.form.Same type type' →
        ok? (info (paramKeys a type) []) = ok? (info (paramKeys b type') []) := by
      intro type type' ht
      exact (Args.Same.paramKeys hs ht).info []
    have hi : List.Forall₂ Role.form.Same a.items b.items := hs.items
    simp only [Option.bind_some]
    revert hi
    generalize a.items = as
    generalize b.items = bs
    intro hi
    match as, bs, hi with
    | [], [], _ => rfl
    | [_], [_], .cons ht .nil =>
      simp only [paramParts?, Option.bind_some, Option.elim, ok?_pure, hinfo ht]
    | [_, _], [_, _], .cons hn (.cons ht .nil) =>
      have htext : ok? (text _) = ok? (text _) := Form.Same.text hn
      rw [raw_formOf, raw_formOf] at htext
      simp only [paramParts?, Option.bind_some, Option.elim, hinfo ht, htext]
    | _ :: _ :: _ :: _, _ :: _ :: _ :: _, _ => rfl
  · rfl

mutual

theorem Reordered.same {role : Role} {x y : Sexp} : Reordered role x y → role.Same x y
  | .refl role x => .refl role x
  | .symm h => h.same.symm
  | .trans h h' => h.same.trans h'.same
  | .form h => same_form h.same
  | .headless hx hy h =>
    same_headless hx hy rfl rfl rfl rfl (placeOf_list_eq h.same.integers) .rfl
  | .param h => ⟨rfl, rfl, alike_param h.same⟩
  | .brackets .form _ => same_headless rfl rfl rfl rfl rfl rfl rfl .rfl
  | .brackets .param _ => ⟨rfl, rfl, .rfl⟩
  | .quoted .form _ => same_headless rfl rfl rfl rfl rfl rfl rfl .rfl
  | .quoted .param _ => ⟨rfl, rfl, .rfl⟩

theorem ReorderedTail.same {head : Option String} {xs ys : List Sexp} :
    ReorderedTail head xs ys → TailSame head xs ys
  | .refl head xs => .refl head xs
  | .symm h => h.same.symm
  | .trans h h' => h.same.trans h'.same
  | .item hk hx h => .item hk hx.same h.same
  | .named hk hx h => .named hk hx.same h.same
  | .moveItem hk hx => .moveItem hk hx
  | .moveNamed hk hl hne => .moveNamed hk hl hne

end

/-- Where one of two such expressions loads as a unit, so does the other, to the same unit and with
the same types read on the way. -/
theorem unitOf_reordered {raw raw' : Sexp} (h : Reordered .form raw raw') (file : String)
    (u : SourceUnit) (s : State) :
    runIn file (unitOf raw) = (.ok u, s) ↔ runIn file (unitOf raw') = (.ok u, s) := by
  have hu := Form.Same.unit h.same
  rw [raw_formOf, raw_formOf] at hu
  rw [runIn_eq_ok_iff, runIn_eq_ok_iff, hu]

def keywordsLast : Sexp :=
  .list [.sym "unit", .sym "reader", .list [.sym "file", .str "get.go",
    .list [.sym "func", .sym "get",
      .list [.sym "params", .list [.sym "p", .str "int", .sym ":at", .list [.int 3, .int 10]]],
      .sym ":at", .list [.int 3, .int 1]],
    .sym ":package", .sym "reader"]]

def keywordsFirst : Sexp :=
  .list [.sym "unit", .sym "reader", .list [.sym "file", .sym ":package", .sym "reader",
    .str "get.go",
    .list [.sym "func", .sym ":at", .list [.int 3, .int 1], .sym "get",
      .list [.sym "params", .list [.sym ":at", .list [.int 3, .int 10], .sym "p", .str "int"]]]]]

theorem reordered_keywords : Reordered .form keywordsLast keywordsFirst := by
  have hat : keyword? (.sym ":at") = some "at" := by decide +kernel
  have hpackage : keyword? (.sym ":package") = some "package" := by decide +kernel
  have hp : keyword? (.sym "p") = none := by decide +kernel
  have hget : keyword? (.sym "get") = none := by decide +kernel
  have hreader : keyword? (.sym "reader") = none := by decide +kernel
  have hsame : ∀ (role : Role) (xs : List Sexp), List.Forall₂ (Reordered role) xs xs :=
    fun role xs => List.forall₂_same.2 fun x _ => .refl role x
  refine .form (.item hreader (.refl ..) (.item rfl (.form (reorderedTail_of_splits
    (.item rfl (.item rfl (.named hpackage .nil))) (.named hpackage (.item rfl (.item rfl .nil)))
    (.cons (.refl ..) (.cons ?_ .nil)) fun _ => hsame _ _)) (.refl ..)))
  refine .form (reorderedTail_of_splits
    (.item hget (.item rfl (.named hat .nil))) (.named hat (.item hget (.item rfl .nil)))
    (.cons (.refl ..) (.cons ?_ .nil)) fun _ => hsame _ _)
  exact .form (.item rfl (.param (reorderedTail_of_splits
    (.item hp (.item rfl (.named hat .nil))) (.named hat (.item hp (.item rfl .nil)))
    (hsame _ _) fun _ => hsame _ _)) (.refl ..))

theorem unitOf_reordered_reader : Reordered .form keywordsLast keywordsFirst ∧
    ∃ u s, runIn "reader.sexp" (unitOf keywordsLast) = (.ok u, s) ∧
      runIn "reader.sexp" (unitOf keywordsFirst) = (.ok u, s) := by
  have hl : (runIn "reader.sexp" (unitOf keywordsLast)).1.toOption.isSome = true := by
    decide +kernel
  obtain ⟨u, s, h⟩ : ∃ u s, runIn "reader.sexp" (unitOf keywordsLast) = (.ok u, s) := by
    generalize runIn "reader.sexp" (unitOf keywordsLast) = outcome at hl
    obtain ⟨_ | u, s⟩ := outcome
    · cases hl
    · exact ⟨u, s, rfl⟩
  exact ⟨reordered_keywords, u, s, h, (unitOf_reordered reordered_keywords _ u s).1 h⟩

end ReadGuard.Load
