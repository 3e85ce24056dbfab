import Mathlib.Logic.Relation
import ReadGuard.Code.Render
import ReadGuard.Proofs.Code.Preorder
import ReadGuard.Proofs.Load.Outcome
import ReadGuard.Proofs.TypeGraph.Sharing

namespace ReadGuard

mutual

def Sexp.texts : Sexp → List String
  | .int n => [toString n]
  | .float x => [x.text]
  | .str s => [s]
  | .sym s => [s]
  | .list items => Sexp.textsAll items
  | .brackets items => Sexp.textsAll items
  | .quoted item => item.texts

def Sexp.textsAll : List Sexp → List String
  | [] => []
  | item :: items => item.texts ++ Sexp.textsAll items

end

namespace Node

open Load

def words : Node → List String
  | .expr (.ident id) => [id.name, id.package]
  | .expr (.lit kind value _) => [kind, value]
  | .expr (.selector _ field _) => [field]
  | .expr (.unary op _ _) | .expr (.binary op _ _ _) => [op]
  | .stmt (.assign _ op _ _) | .stmt (.incDec _ op _) | .stmt (.range _ _ _ _ op _) => [op]
  | .stmt (.branch keyword label _) => [keyword, label]
  | .param p => [p.name]
  | .func f => [f.name]
  | .file f => [f.name, f.package]
  | .unit u => [u.name, u.path]
  | _ => []

def type? : Node → Option Ty
  | .expr e => e.type
  | .stmt (.decl _ _ type _) => type
  | .param p => p.info.type
  | _ => none

def args? : Node → Sexp → Option (Args Sexp)
  | .param _, .list xs => tail? xs
  | .param _, _ => none
  | _, .list (_ :: xs) => tail? xs
  | _, _ => none

def paramsForm (items : List Sexp) : Option Sexp :=
  (items.filter fun y => y.head? = some "params").getLast?

def bodyForm (items : List Sexp) : Option Sexp :=
  (items.filter fun y => y.head? ≠ some "params").getLast?

def itemsOf : Sexp → List Sexp
  | .list (_ :: items) => items
  | _ => []

def paramForms (items : List Sexp) : List Sexp := (paramsForm items).elim [] itemsOf

/-- The forms of the parts of a node, where its own form is known. The names of a declaration go by
the form of the declaration. Only a body that a function literal leaves out has no form. -/
def partForms (n : Node) (x : Sexp) (a : Args Sexp) : List (Option Sexp) :=
  match n with
  | .expr (.ident _) | .expr (.lit _ _ _) | .stmt (.branch _ _ _) | .param _ => []
  | .expr (.selector _ _ _) | .stmt (.incDec _ _ _) => (a.items.take 1).map some
  | .expr (.unary _ _ _) | .expr (.binary _ _ _ _) | .file _ | .unit _ =>
    (a.items.drop 1).map some
  | .expr (.funcLit _ _ _) => (paramForms a.items).map some ++ [bodyForm a.items]
  | .stmt (.assign _ _ _ _) => (a.items.filter fun y => (string? y).isNone).map some
  | .stmt (.decl names _ _ _) => names.map (fun _ => some x) ++ (a.items.filter isList).map some
  | .stmt (.cond _ _ _ _ _) => ((a.get? "init").toList ++ a.items).map some
  | .stmt (.loop _ _ _ _ _) =>
    ((a.get? "init").toList ++ (a.get? "cond").toList ++ (a.get? "post").toList ++ a.items).map some
  | .stmt (.range _ _ _ _ _ _) =>
    ((a.get? "key").toList ++ (a.get? "value").toList ++ a.items).map some
  | .stmt (.switch _ _ _ _) =>
    ((a.get? "init").toList ++ (a.get? "tag").toList ++ a.items).map some
  | .func _ =>
    ((a.get? "recv").toList ++ paramForms (a.items.drop 1) ++
      (bodyForm (a.items.drop 1)).toList).map some
  | _ => a.items.map some

def forms (n : Node) (s : Option Sexp) : List (Option Sexp) :=
  (s.bind fun x => (n.args? x).map (n.partForms x)).getD []

def Part (p q : Option Sexp × Node) : Prop := q ∈ (p.2.forms p.1).zip p.2.children

def noBody : Node := .stmt (.block (.mk [] {}))

end Node

namespace Load

open Node Relation

/-- A place is that of `:at`, where it is given; else it is one of the fallbacks, or unknown in the
file. -/
def PlacedBy (file : String) (place : Option Sexp) (fallback : List Position) (pos : Position) :
    Prop :=
  match place with
  | some x => ∃ line column offset,
      placeOf x = some (line, column, offset) ∧ pos = ⟨file, line, column, offset⟩
  | none => pos = ⟨file, 0, 0, -1⟩ ∨ pos ∈ fallback

theorem PlacedBy.mono {file : String} {place : Option Sexp} {fallback known : List Position}
    {pos : Position} (h : PlacedBy file place fallback pos) (hk : ∀ p ∈ fallback, p ∈ known) :
    PlacedBy file place known pos := by
  cases place with
  | some x => exact h
  | none => exact h.imp_right (hk pos)

theorem PlacedBy.of_eq {file : String} {place : Option Sexp} {fallback known : List Position}
    {pos : Position} (h : PlacedBy file place fallback pos) (he : fallback = known) :
    PlacedBy file place known pos :=
  he ▸ h

theorem PlacedBy.after {file : String} {place : Option Sexp} {A B C : List Position}
    {p pos : Position} (h : PlacedBy file place (A ++ [p]) pos) (hA : ∀ q ∈ A, q ∈ B) :
    PlacedBy file place (B ++ p :: C) pos := by
  apply h.mono
  intro q hq
  obtain hq | hq := List.mem_append.1 hq
  · exact List.mem_append_left _ (hA q hq)
  · rw [List.mem_singleton.1 hq]
    exact List.mem_append_right _ List.mem_cons_self

theorem PlacedBy.first {file : String} {place : Option Sexp} {C : List Position}
    {p pos : Position} (h : PlacedBy file place [p] pos) : PlacedBy file place (p :: C) pos :=
  PlacedBy.after (A := []) (B := []) h (List.forall_mem_nil _)

structure Formed (file : String) (W : String → Prop) (x : Sexp) (a : Args Sexp) (n : Node) :
    Prop where
  args : n.args? x = some a
  place : PlacedBy file (a.get? "at") (n.children.map Node.pos) n.pos
  words : ∀ w ∈ n.words, W w
  types : ∀ t ∈ n.type?, t.Everywhere Ty.Proper

/-- A node with its form, and all parts below it with theirs. -/
def ComesFrom (file : String) (W : String → Prop) (p : Option Sexp × Node) : Prop :=
  ∀ q, ReflTransGen Part p q →
    (q.2.forms q.1).length = q.2.children.length ∧
      (q = (none, noBody) ∨ ∃ x a, q.1 = some x ∧ Formed file W x a q.2)

section

variable {file : String} {W : String → Prop} {x : Sexp} {a : Args Sexp} {n : Node}

theorem comesFrom_noBody : ComesFrom file W (none, noBody) := by
  intro q hq
  cases hq.cases_head with
  | inl h => cases h; exact ⟨rfl, .inl rfl⟩
  | inr h =>
    obtain ⟨r, hr, -⟩ := h
    cases hr

theorem ComesFrom.types (h : ComesFrom file W (some x, n)) :
    ∀ t ∈ n.type?, t.Everywhere Ty.Proper := by
  obtain he | ⟨_, _, -, hf⟩ := (h _ .refl).2
  · cases he
  · exact hf.types

theorem Formed.comesFrom (h : Formed file W x a n)
    (hp : List.Forall₂ (fun t m => ComesFrom file W (t, m)) (n.partForms x a) n.children) :
    ComesFrom file W (some x, n) := by
  have hforms : n.forms (some x) = n.partForms x a := by
    unfold forms
    rw [Option.bind_some, h.args]
    rfl
  intro q hq
  cases hq.cases_head with
  | inl he =>
    cases he
    exact ⟨by rw [hforms, hp.length_eq], .inr ⟨x, a, rfl, h⟩⟩
  | inr hr =>
    obtain ⟨⟨t, m⟩, hpart, hrest⟩ := hr
    have hz : (t, m) ∈ (n.partForms x a).zip n.children := hforms ▸ hpart
    exact List.forall₂_iff_zip.1 hp |>.2 hz q hrest

def PartsFrom (file : String) (W : String → Prop) (ys : List Sexp) (ns : List Node) : Prop :=
  List.Forall₂ (fun y m => ComesFrom file W (some y, m)) ys ns

theorem PartsFrom.append {ys zs : List Sexp} {ns ms : List Node} (h : PartsFrom file W ys ns)
    (h' : PartsFrom file W zs ms) : PartsFrom file W (ys ++ zs) (ns ++ ms) :=
  List.rel_append h h'

theorem PartsFrom.forms {ys : List Sexp} {ns : List Node} (h : PartsFrom file W ys ns) :
    List.Forall₂ (fun t m => ComesFrom file W (t, m)) (ys.map some) ns :=
  List.forall₂_map_left_iff.2 h

theorem Formed.comesFrom_forms (h : Formed file W x a n) {ys : List Sexp}
    (he : n.partForms x a = ys.map some) (hp : PartsFrom file W ys n.children) :
    ComesFrom file W (some x, n) :=
  h.comesFrom (he ▸ hp.forms)

end

def ValidTypes (s : State) : Prop := s.types.Valid

structure InFile (file : String) (s : State) : Prop where
  file : s.file = file
  types : ValidTypes s

/-- What a step of loading gives, if it does not fail, and what it keeps of the state. -/
def Gives {α : Type} (I : State → Prop) (m : Load α) (P : α → Prop) : Prop :=
  ∀ (s s' : State) (a : α), I s → ok? m s = some (a, s') → I s' ∧ P a

namespace Gives

variable {α β : Type} {I : State → Prop} {m : Load α} {P Q : α → Prop} {R : β → Prop}

theorem pure {a : α} (h : P a) : Gives I (Pure.pure a) P := by
  intro s s' b hs hb
  cases hb
  exact ⟨hs, h⟩

theorem of_fail (h : ∀ s, ok? m s = none) : Gives I m P := by
  intro s s' a _ ha
  rw [h] at ha
  cases ha

theorem failAt (keys : Keys) (fault : Fault) : Gives I (Load.failAt keys fault) P :=
  of_fail fun s => ok?_failAt s keys fault

theorem bind {k : α → Load β} (h : Gives I m P) (hk : ∀ a, P a → Gives I (k a) R) :
    Gives I (m >>= k) R := by
  intro s s' b hs hb
  rw [ok?_bind] at hb
  obtain ⟨⟨a, s₁⟩, ha, hb⟩ := Option.bind_eq_some_iff.1 hb
  obtain ⟨hs₁, hp⟩ := h s s₁ a hs ha
  exact hk a hp s₁ s' b hs₁ hb

/-- What would come after a fault does not matter. -/
theorem failAt_bind (keys : Keys) (fault : Fault) (k : α → Load β) :
    Gives I (Load.failAt keys fault >>= k) R :=
  Gives.bind (P := fun _ => False) (failAt keys fault) fun _ hf => hf.elim

theorem map {f : α → β} (h : Gives I m P) (hf : ∀ a, P a → R (f a)) : Gives I (f <$> m) R := by
  rw [← bind_pure_comp]
  exact h.bind fun a ha => .pure (hf a ha)

theorem imp (h : Gives I m P) (hq : ∀ a, P a → Q a) : Gives I m Q := by
  intro s s' a hs ha
  exact (h s s' a hs ha).imp_right (hq a)

/-- From here on, places belong to a file. -/
theorem enter {name : String} (h : Gives (InFile name) m P) :
    Gives ValidTypes (do modify fun s => { s with file := name }; m) P := by
  intro s s' a hs ha
  rw [ok?_bind, ok?_modify, Option.bind_some] at ha
  exact (h { s with file := name } s' a ⟨rfl, hs⟩ ha).imp_left InFile.types

end Gives

section

variable {I : State → Prop} {file : String} {W : String → Prop}

theorem position_gives (keys : Keys) (fallback : List Position) :
    Gives (InFile file) (position keys fallback) (PlacedBy file (keys "at") fallback) := by
  intro s s' pos hs hpos
  rw [ok?_position] at hpos
  unfold PlacedBy
  cases hk : keys "at" with
  | none =>
    rw [hk] at hpos
    cases hf : fallback.find? (·.isKnown) with
    | none =>
      rw [hf] at hpos
      cases hpos
      exact ⟨hs, .inl (by rw [← hs.file]; rfl)⟩
    | some p =>
      rw [hf] at hpos
      cases hpos
      exact ⟨hs, .inr (List.mem_of_find?_eq_some hf)⟩
  | some x =>
    rw [hk] at hpos
    obtain ⟨⟨line, column, offset⟩, hp, he⟩ := Option.map_eq_some_iff.1 hpos
    cases he
    exact ⟨hs, line, column, offset, hp, by rw [← hs.file]⟩

theorem text_gives {x : Sexp} (hx : ∀ w ∈ x.texts, W w) : Gives I (text x) W := by
  cases x with
  | int n | float n | str n | sym n => exact .pure (hx _ (List.mem_singleton_self _))
  | list | brackets | quoted => exact .of_fail fun _ => rfl

theorem objectOf_gives (keys : Keys) : Gives (InFile file) (objectOf keys) fun _ => True := by
  unfold objectOf
  cases keys "obj" with
  | none => exact .pure trivial
  | some x =>
    refine Gives.bind (P := fun _ => True) (text_gives fun _ _ => trivial) fun name _ => ?_
    cases ObjectKind.ofName? name with
    | some kind => exact .pure trivial
    | none => exact .failAt _ _

theorem textOr_gives {keys : Keys} {key default : String} (hd : W default)
    (hk : ∀ x, keys key = some x → ∀ w ∈ x.texts, W w) : Gives I (textOr keys key default) W := by
  unfold textOr
  cases h : keys key with
  | none => exact .pure hd
  | some x => exact text_gives (hk x h)

theorem typeOf_gives (keys : Keys) :
    Gives (InFile file) (typeOf keys) fun type => ∀ t ∈ type, t.Everywhere Ty.Proper := by
  unfold typeOf
  cases keys "type" with
  | none => exact .pure (by simp)
  | some x =>
    refine Gives.bind (P := fun _ => True) (text_gives fun _ _ => trivial) fun text _ => ?_
    intro s s' type hs ht
    simp only [ok?_bind, ok?_get, Option.bind_some] at ht
    cases hr : Ty.read text with
    | error e =>
      rw [(hs.types.get_of_error hr).1] at ht
      simp at ht
    | ok t =>
      obtain ⟨root, hg, -⟩ := hs.types.get_of_read hr
      rw [hg] at ht
      cases ht
      exact ⟨⟨hs.file, (hs.types.requested text).valid⟩, by simpa using Ty.read_everywhere hr⟩

theorem info_gives (keys : Keys) (fallback : List Position) :
    Gives (InFile file) (info keys fallback) fun i =>
      (∀ t ∈ i.type, t.Everywhere Ty.Proper) ∧ PlacedBy file (keys "at") fallback i.pos :=
  (typeOf_gives keys).bind fun _ ht => (position_gives keys fallback).bind fun _ hp =>
    .pure ⟨ht, hp⟩

end

end Load

end ReadGuard
