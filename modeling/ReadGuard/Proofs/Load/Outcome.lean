import Mathlib.Data.List.Forall2
import ReadGuard.Load.Unit

namespace ReadGuard.Load

variable {α β : Type}

def ok? (m : Load α) (s : State) : Option (α × State) :=
  match (ExceptT.run m).run s with
  | (.ok a, s') => some (a, s')
  | (.error _, _) => none

theorem runIn_eq_ok_iff {file : String} {m : Load α} {a : α} {s : State} :
    runIn file m = (.ok a, s) ↔ ok? m { file := file } = some (a, s) := by
  unfold runIn ok?
  generalize (ExceptT.run m).run { file := file } = outcome
  obtain ⟨result, s'⟩ := outcome
  cases result <;> simp

section

variable (m : Load α) (s : State)

@[simp] theorem ok?_pure (a : α) : ok? (pure a) s = some (a, s) := rfl

@[simp] theorem ok?_bind (k : α → Load β) :
    ok? (m >>= k) s = (ok? m s).bind fun r => ok? (k r.1) r.2 := by
  unfold ok?
  change (match ExceptT.bindCont k ((ExceptT.run m).run s).1 ((ExceptT.run m).run s).2 with
    | (.ok a, s') => some (a, s')
    | (.error _, _) => none) = _
  generalize (ExceptT.run m).run s = outcome
  obtain ⟨result, s'⟩ := outcome
  cases result <;> rfl

@[simp] theorem ok?_map (f : α → β) : ok? (f <$> m) s = (ok? m s).map fun r => (f r.1, r.2) := by
  rw [← bind_pure_comp, ok?_bind]
  cases ok? m s <;> rfl

@[simp] theorem ok?_fail (fault : Fault) (pos : Position) :
    ok? (fail fault pos : Load α) s = none := rfl

@[simp] theorem ok?_get : ok? (get : Load State) s = some (s, s) := rfl

@[simp] theorem ok?_modify (f : State → State) :
    ok? (modify f : Load PUnit) s = some (⟨⟩, f s) := rfl

@[simp] theorem ok?_failAt (keys : Keys) (fault : Fault) :
    ok? (failAt keys fault : Load α) s = none := by
  simp [failAt]

end

def placeOf : Sexp → Option (Int × Int × Int)
  | .list [.int line, .int column] => some (line, column, -1)
  | .list [.int line, .int column, .int offset] => some (line, column, offset)
  | _ => none

def integer? : Sexp → Option Int
  | .int n => some n
  | _ => none

theorem ok?_integer (x : Sexp) (s : State) :
    ok? (integer x) s = (integer? x).map fun n => (n, s) := by
  cases x <;> rfl

/-- The place of a form: that of its `:at`, else the first known one among the fallbacks. -/
theorem ok?_position (keys : Keys) (fallback : List Position) (s : State) :
    ok? (position keys fallback) s =
      (keys "at").elim (some ((fallback.find? (·.isKnown)).getD ⟨s.file, 0, 0, -1⟩, s))
        fun x => (placeOf x).map fun p => (⟨s.file, p.1, p.2.1, p.2.2⟩, s) := by
  unfold position
  split
  case h_1 h =>
    rw [h]
    cases fallback.find? (·.isKnown) <;> rfl
  case h_2 line column h =>
    simp only [h, ok?_bind, ok?_integer]
    cases line <;> cases column <;> rfl
  case h_3 line column offset h =>
    simp only [h, ok?_bind, ok?_integer]
    cases line <;> cases column <;> cases offset <;> rfl
  case h_4 found two three h =>
    have hp : placeOf found = none := by
      unfold placeOf
      split
      · exact absurd rfl (two _ _)
      · exact absurd rfl (three _ _ _)
      · rfl
    simp [h, hp]

namespace Args

def map (f : α → β) (a : Args α) : Args β := ⟨a.items.map f, a.named.map fun p => (p.1, f p.2)⟩

theorem get?_map (f : α → β) (a : Args α) (key : String) :
    (a.map f).get? key = (a.get? key).map f := by
  obtain ⟨items, named⟩ := a
  unfold get? map
  rw [← List.map_reverse]
  induction named.reverse with
  | nil => rfl
  | cons p named ih =>
    rw [List.map_cons, List.lookup_cons, List.lookup_cons]
    cases key == p.1 with
    | true => rfl
    | false => exact ih

/-- A later pair of the same keyword wins over the one in front. -/
theorem get?_addNamed (a : Args α) (key : String) (x : α) (key' : String) :
    (a.addNamed key x).get? key' = (a.get? key').or (if key' = key then some x else none) := by
  unfold get? addNamed
  rw [List.reverse_cons, List.lookup_append]
  congr 1
  rw [List.lookup_cons, List.lookup_nil]
  by_cases h : key' = key
  · simp [h]
  · simp [h, beq_eq_false_iff_ne.2 h]

section

variable (keyword? : α → Option String) {x : α}

theorem split_item (hx : keyword? x = none) (xs : List α) :
    split keyword? (x :: xs) = (split keyword? xs).map (·.addItem x) := by
  rw [split.eq_def keyword? (x :: xs)]
  simp only [hx]

theorem split_named {key : String} (hx : keyword? x = some key) (value : α) (xs : List α) :
    split keyword? (x :: value :: xs) = (split keyword? xs).map (·.addNamed key value) := by
  rw [split.eq_def keyword? (x :: value :: xs)]
  simp only [hx]

theorem split_last {key : String} (hx : keyword? x = some key) :
    split keyword? [x] = .error key := by
  rw [split.eq_def keyword? [x]]
  simp only [hx]

end

theorem split_map (keyword? : β → Option String) (f : α → β) : ∀ xs : List α,
    split keyword? (xs.map f) = (split (fun x => keyword? (f x)) xs).map (·.map f)
  | [] => rfl
  | x :: xs => by
    cases hx : keyword? (f x) with
    | none =>
      rw [List.map_cons, split_item _ hx, split_item (fun x => keyword? (f x)) hx,
        split_map keyword? f xs]
      cases split (fun x => keyword? (f x)) xs <;> rfl
    | some key =>
      cases xs with
      | nil =>
        rw [List.map_cons, List.map_nil, split_last _ hx, split_last (fun x => keyword? (f x)) hx]
        rfl
      | cons value xs =>
        rw [List.map_cons, List.map_cons, split_named _ hx,
          split_named (fun x => keyword? (f x)) hx, split_map keyword? f xs]
        cases split (fun x => keyword? (f x)) xs <;> rfl

end Args

def tail? (xs : List Sexp) : Option (Args Sexp) := (Args.split keyword? xs).toOption

theorem tail?_item {x : Sexp} (hx : keyword? x = none) (xs : List Sexp) :
    tail? (x :: xs) = (tail? xs).map (·.addItem x) := by
  unfold tail?
  rw [Args.split_item keyword? hx]
  cases Args.split keyword? xs <;> rfl

theorem tail?_named {k : Sexp} {key : String} (hk : keyword? k = some key) (x : Sexp)
    (xs : List Sexp) : tail? (k :: x :: xs) = (tail? xs).map (·.addNamed key x) := by
  unfold tail?
  rw [Args.split_named keyword? hk]
  cases Args.split keyword? xs <;> rfl

/-- A tail in which every keyword has its item, and its items and keywords. -/
inductive Splits : List Sexp → Args Sexp → Prop
  | nil : Splits [] ⟨[], []⟩
  | item {x : Sexp} {xs : List Sexp} {a : Args Sexp} :
      keyword? x = none → Splits xs a → Splits (x :: xs) (a.addItem x)
  | named {k x : Sexp} {key : String} {xs : List Sexp} {a : Args Sexp} :
      keyword? k = some key → Splits xs a → Splits (k :: x :: xs) (a.addNamed key x)

theorem splits_of_tail? : ∀ {xs : List Sexp} {a : Args Sexp}, tail? xs = some a → Splits xs a
  | [], _, h => by cases h; exact .nil
  | x :: xs, a, h => by
    cases hx : keyword? x with
    | none =>
      rw [tail?_item hx] at h
      obtain ⟨b, hb, rfl⟩ := Option.map_eq_some_iff.1 h
      exact .item hx (splits_of_tail? hb)
    | some key =>
      cases xs with
      | nil =>
        unfold tail? at h
        rw [Args.split_last keyword? hx] at h
        cases h
      | cons y xs =>
        rw [tail?_named hx] at h
        obtain ⟨b, hb, rfl⟩ := Option.map_eq_some_iff.1 h
        exact .named hx (splits_of_tail? hb)

theorem formsOf_eq_map : ∀ xs : List Sexp, formsOf xs = xs.map formOf
  | [] => rfl
  | x :: xs => by rw [formsOf, List.map_cons, formsOf_eq_map xs]

theorem raw_formOf (x : Sexp) : (formOf x).raw = x := by
  unfold formOf
  split <;> rfl

theorem formOf_eq_ofTail (x : Sexp) : formOf x = ofTail x (tailForms x) := by
  unfold formOf tailForms
  split <;> rfl

theorem ok?_splitArgs_id (head : Option String) (xs : List Sexp) (s : State) :
    ok? (splitArgs id head xs) s = (tail? xs).map fun a => (a, s) := by
  unfold splitArgs tail?
  simp only [id]
  cases Args.split keyword? xs <;> rfl

theorem ok?_splitArgs (head : Option String) (xs : List Sexp) (s : State) :
    ok? (splitArgs Form.raw head (formsOf xs)) s = (tail? xs).map fun a => (a.map formOf, s) := by
  have hs : (Args.split (fun f => keyword? f.raw) (formsOf xs)) =
      (Args.split keyword? xs).map (·.map formOf) := by
    rw [formsOf_eq_map, Args.split_map (fun f : Form => keyword? f.raw) formOf]
    simp only [raw_formOf]
  unfold splitArgs tail?
  rw [hs]
  cases Args.split keyword? xs <;> rfl

theorem mem_of_lookup {table : Table α} {tag : String} {load : FormArgs → Load α}
    (h : table.lookup tag = some load) : (tag, load) ∈ table := by
  obtain ⟨l₁, l₂, rfl, -⟩ := List.lookup_eq_some_iff.1 h
  simp

theorem ok?_load_headless (table : Table α) (unknown : Sexp → Fault) {raw : Sexp}
    (hr : raw.head? = none) (tail : List Form) (s : State) :
    ok? (table.load unknown raw tail) s = none := by
  unfold Table.load
  rw [hr]
  rfl

/-- A form loads by its head, on its tail. -/
theorem ok?_load (table : Table α) (unknown : Sexp → Fault) (head : String) (xs : List Sexp)
    (s : State) :
    ok? (table.load unknown (.list (.sym head :: xs)) (formsOf xs)) s =
      (table.lookup head).bind fun load =>
        (tail? xs).bind fun a => ok? (load (a.map formOf)) s := by
  have hh : (Sexp.list (.sym head :: xs)).head? = some head := rfl
  cases hl : table.lookup head with
  | none =>
    simp only [Table.load, hh, hl]
    rfl
  | some load =>
    simp only [Table.load, hh, hl, ok?_bind, ok?_splitArgs]
    cases tail? xs <;> rfl

def paramParts? : List Sexp → Option (Option Sexp × Sexp)
  | [type] => some (none, type)
  | [name, type] => some (some name, type)
  | _ => none

def paramKeys (a : Args Sexp) (type : Sexp) : Keys := fun key =>
  (a.get? key).or (if key = "type" then some type else none)

theorem ok?_param (xs : List Sexp) (s : State) :
    ok? (param (.list xs)) s = (tail? xs).bind fun a => (paramParts? a.items).bind fun p =>
      (ok? (p.1.elim (pure "") text) s).bind fun n =>
        (ok? (info (paramKeys a p.2) []) n.2).map fun r => (⟨n.1, r.1⟩, r.2) := by
  cases xs with
  | nil => rfl
  | cons x xs =>
    unfold param
    rw [ok?_bind, ok?_splitArgs_id]
    cases tail? (x :: xs) with
    | none => rfl
    | some a =>
      have hinfo : ∀ {keys keys' : Keys} (name : String) (s : State), keys = keys' →
          ((ok? (info keys []) s).bind fun r => some ((⟨name, r.1⟩ : Param), r.2)) =
            (ok? (info keys' []) s).map fun r => (⟨name, r.1⟩, r.2) := by
        rintro keys _ name s rfl
        cases ok? (info keys []) s <;> rfl
      simp only [Option.map_some, Option.bind_some]
      match a.items with
      | [] => rfl
      | [type] =>
        simp only [paramParts?, pure_bind, ok?_bind, Option.bind_some, Option.elim, ok?_pure]
        refine hinfo _ _ (funext fun key => ?_)
        unfold paramKeys
        cases a.get? key <;> rfl
      | [name, type] =>
        simp only [paramParts?, ok?_bind, Option.bind_some, Option.elim, ok?_pure]
        refine congrArg _ (funext fun n => hinfo _ _ (funext fun key => ?_))
        unfold paramKeys
        cases a.get? key <;> rfl
      | _ :: _ :: _ :: _ => rfl

end ReadGuard.Load
