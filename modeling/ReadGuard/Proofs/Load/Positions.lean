import ReadGuard.Proofs.Load.Formation

namespace ReadGuard

open Node Relation Load

def Node.at? (n : Node) (x : Sexp) : Option Sexp := (n.args? x).bind fun a => a.get? "at"

/-- A node has its place in a file from its form, or else from a form below. -/
structure Located (file : String) (t : Option Sexp) (n : Node) : Prop where
  inFile : n.pos.line ≠ 0 → n.pos.file = file
  found : n.pos.line ≠ 0 → ∃ x m place, ReflTransGen Part (t, n) (some x, m) ∧
    m.at? x = some place ∧ placeOf place = some (n.pos.line, n.pos.column, n.pos.offset)
  own : ∀ x place, t = some x → n.at? x = some place → ∃ line column offset,
    placeOf place = some (line, column, offset) ∧ n.pos = ⟨file, line, column, offset⟩

structure Positioned (form : Sexp) (f : SourceFile) : Prop where
  covered : ∀ n ∈ (Node.file f).walk, ∃ t, ReflTransGen Part (some form, .file f) (t, n)
  aligned : ∀ t n, ReflTransGen Part (some form, .file f) (t, n) →
    (n.forms t).length = n.children.length
  located : ∀ t n, TransGen Part (some form, .file f) (t, n) → Located f.name t n

namespace Load

variable {file : String} {W : String → Prop}

theorem exists_mem_zip {α β : Type} {xs : List α} {ys : List β} (h : xs.length = ys.length) {y : β}
    (hy : y ∈ ys) : ∃ x, (x, y) ∈ xs.zip ys := by
  have hm : y ∈ (xs.zip ys).map Prod.snd := by rwa [List.map_snd_zip (by omega)]
  obtain ⟨⟨x, _⟩, hp, rfl⟩ := List.mem_map.1 hm
  exact ⟨x, hp⟩

theorem ComesFrom.below {p q : Option Sexp × Node} (h : ComesFrom file W p)
    (hq : ReflTransGen Part p q) : ComesFrom file W q :=
  fun r hr => h r (hq.trans hr)

/-- Every part of a node has its form. -/
theorem ComesFrom.child {t : Option Sexp} {n m : Node} (h : ComesFrom file W (t, n))
    (hm : m ∈ n.children) : ∃ t', Part (t, n) (t', m) :=
  exists_mem_zip (h _ .refl).1 hm

theorem ComesFrom.exists_form {t : Option Sexp} {n m : Node} (h : ComesFrom file W (t, n))
    (hm : m ∈ n.walk) : ∃ t', ReflTransGen Part (t, n) (t', m) := by
  induction hs : n.size using Nat.strongRecOn generalizing t n with
  | _ size ih =>
    subst hs
    rw [walk_eq, List.mem_cons, List.mem_flatMap] at hm
    obtain rfl | ⟨child, hc, hm⟩ := hm
    · exact ⟨t, .refl⟩
    · obtain ⟨t₁, hpart⟩ := h.child hc
      obtain ⟨t', hrest⟩ := ih _ (size_lt_of_child hc) (h.below (.single hpart)) hm rfl
      exact ⟨t', .head hpart hrest⟩

theorem ComesFrom.located {t : Option Sexp} {n : Node} (h : ComesFrom file W (t, n)) :
    Located file t n := by
  induction hs : n.size using Nat.strongRecOn generalizing t n with
  | _ size ih =>
    subst hs
    obtain ⟨hlen, he | ⟨x, a, ht, hf⟩⟩ := h _ .refl
    · cases he
      exact ⟨fun hl => absurd rfl hl, fun hl => absurd rfl hl, fun x place hx => by cases hx⟩
    · obtain rfl : t = some x := ht
      have hat : n.at? x = a.get? "at" := by rw [Node.at?, hf.args, Option.bind_some]
      have hplace := hf.place
      cases ha : a.get? "at" with
      | some place =>
        rw [ha] at hplace hat
        obtain ⟨line, column, offset, hp, hpos⟩ := hplace
        refine ⟨fun _ => by rw [hpos], fun _ => ⟨x, n, place, .refl, hat, by rw [hp, hpos]⟩, ?_⟩
        intro x' place' hx' hat'
        cases hx'
        rw [hat] at hat'
        cases hat'
        exact ⟨line, column, offset, hp, hpos⟩
      | none =>
        rw [ha] at hplace hat
        -- a known place was taken over from a part, and the part has it from its form or from below
        have hpart : n.pos.line ≠ 0 → ∃ t' m, Part (some x, n) (t', m) ∧ m.pos = n.pos ∧
            Located file t' m := by
          intro hl
          obtain ⟨m, hm, hpos⟩ := List.mem_map.1 (hplace.resolve_left fun he => hl (by rw [he]))
          obtain ⟨t', hp⟩ := h.child hm
          exact ⟨t', m, hp, hpos, ih _ (size_lt_of_child hm) (h.below (.single hp)) rfl⟩
        refine ⟨fun hl => ?_, fun hl => ?_, fun x' place' hx' hat' => ?_⟩
        · obtain ⟨t', m, -, hpos, hm⟩ := hpart hl
          rw [← hpos] at hl ⊢
          exact hm.inFile hl
        · obtain ⟨t', m, hp, hpos, hm⟩ := hpart hl
          rw [← hpos] at hl ⊢
          obtain ⟨y, k, place, hr, hk, hplace⟩ := hm.found hl
          exact ⟨y, k, place, .head hp hr, hk, hplace⟩
        · cases hx'
          rw [hat] at hat'
          cases hat'

theorem FileFrom.forms {y : Sexp} {f : SourceFile} (h : FileFrom W y f) :
    List.Forall₂ (fun t n => ComesFrom f.name W (t, n)) ((Node.file f).forms (some y))
      (Node.file f).children := by
  obtain ⟨a, ha, hd⟩ := h.decls
  unfold Node.forms
  rw [Option.bind_some, ha]
  exact hd.forms

theorem FileFrom.positioned {y : Sexp} {f : SourceFile} (h : FileFrom W y f) : Positioned y f := by
  have hpart : ∀ {p}, Part (some y, .file f) p → ComesFrom f.name W p := fun hp =>
    (List.forall₂_iff_zip.1 h.forms).2 hp
  refine ⟨fun n hn => ?_, fun t n hr => ?_, fun t n hr => ?_⟩
  · rw [walk_eq, List.mem_cons, List.mem_flatMap] at hn
    obtain rfl | ⟨m, hm, hn⟩ := hn
    · exact ⟨_, .refl⟩
    · obtain ⟨t, ht⟩ := exists_mem_zip h.forms.length_eq hm
      obtain ⟨t', hr⟩ := (hpart ht).exists_form hn
      exact ⟨t', .head ht hr⟩
  · obtain he | ⟨p, hp, hr⟩ := hr.cases_head
    · cases he
      exact h.forms.length_eq
    · exact (hpart hp _ hr).1
  · obtain ⟨p, hp, hr⟩ := TransGen.head'_iff.1 hr
    exact ((hpart hp).below hr).located

/-- Every known place in a loaded unit is in the file that holds the node, and it is the place that
the form of the node gives, or the form of a node below it. Where the form gives a place, the node
has that one. -/
theorem places_from_forms {name text : String} {u : SourceUnit}
    (h : SourceUnit.ofText name text = .ok u) :
    ∃ raw a, Sexp.read text = .ok raw ∧ (Node.unit u).args? raw = some a ∧
      List.Forall₂ Positioned (a.items.drop 1) u.files := by
  obtain ⟨raw, hraw⟩ := read_of_ofText h
  obtain ⟨-, a, ha, hf⟩ := unitFrom_of_ofText (W := fun _ => True) trivial trivial hraw
    (fun _ _ => trivial) h
  exact ⟨raw, a, hraw, ha, hf.imp fun _ _ hf => hf.positioned⟩

def placedDecl : String := "(unit r (file a.go (func f (block (var x :at (3 4))))))"

theorem places_from_forms_decl : ∃ u raw a, SourceUnit.ofText "r.sexp" placedDecl = .ok u ∧
    u.files.map (fun f => (Node.file f).walk.map fun n => n.pos.line) = [[0, 0, 3, 3, 3]] ∧
    Sexp.read placedDecl = .ok raw ∧ (Node.unit u).args? raw = some a ∧
    List.Forall₂ Positioned (a.items.drop 1) u.files := by
  have hlines : (SourceUnit.ofText "r.sexp" placedDecl).toOption.map (fun u =>
      u.files.map fun f => (Node.file f).walk.map fun n => n.pos.line) =
      some [[0, 0, 3, 3, 3]] := by
    decide +kernel
  cases hu : SourceUnit.ofText "r.sexp" placedDecl with
  | error e =>
    rw [hu] at hlines
    cases hlines
  | ok u =>
    rw [hu] at hlines
    obtain ⟨raw, a, hraw, ha, hf⟩ := places_from_forms hu
    exact ⟨u, raw, a, rfl, Option.some.inj hlines, hraw, ha, hf⟩

end Load

end ReadGuard
