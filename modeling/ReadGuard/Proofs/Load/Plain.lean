import ReadGuard.Proofs.Issue.Lines
import ReadGuard.Proofs.Load.Positions

namespace ReadGuard

namespace Ty

open Ty.Rule Ty.Grammar

theorem oneLine_of_nameChars {cs : List Char} (h : ∀ c ∈ cs, isNameChar c = true) :
    OneLine (String.ofList cs) := by
  intro hm
  rw [String.toList_ofList] at hm
  exact absurd (h _ hm) (by decide)

theorem oneLine_packageName {path : String} (h : OneLine path) : OneLine (packageName path) := by
  unfold packageName Text.lastPart
  split
  · rename_i before after hcut
    have hsplit := toList_of_cutLast hcut
    rw [OneLine, hsplit] at h
    simp only [List.mem_append, List.mem_cons, not_or] at h
    exact h.2.2
  · exact h

theorem IsAtom.oneLine_textTo {t : Ty} (h : IsAtom t) (depth : Nat) :
    OneLine (t.textTo (depth + 1)) := by
  cases h with
  | name hw =>
    rw [textTo_ofName hw]
    exact oneLine_of_nameChars (nameChars hw)
  | untyped hw =>
    refine oneLine_append.2 ⟨.fixed rfl, oneLine_of_nameChars (nameChars ?_)⟩
    obtain ⟨c, ds, rfl, hc, hds⟩ := hw
    exact ⟨c, ds, rfl, hc, fun d hd => nameChar_of_identChar (hds d hd)⟩

theorem Proper.oneLine_named {path name : String} (h : Proper (.named path name)) :
    OneLine path ∧ OneLine name := by
  have htext : OneLine (TypeText.named path name) := IsAtom.oneLine_textTo h 0
  unfold TypeText.named at htext
  split at htext
  · rename_i he
    rw [String.isEmpty_iff.1 he]
    exact ⟨.fixed rfl, htext⟩
  · simp only [oneLine_append] at htext
    exact ⟨htext.1.1, htext.2⟩

theorem FieldNamed.oneLine_field {f : Field Ty} (h : FieldNamed f) {type : String}
    (ht : OneLine type) : OneLine (TypeText.field { f with type := type }) := by
  unfold FieldNamed at h
  unfold TypeText.field
  split
  · exact ht
  · rename_i he
    rw [if_neg he] at h
    obtain ⟨c, ds, hname, hc, hds⟩ := h
    have hn : OneLine f.name := by
      rw [← String.ofList_toList (s := f.name), hname]
      exact oneLine_of_nameChars
        (nameChars ⟨c, ds, rfl, hc, fun d hd => nameChar_of_identChar (hds d hd)⟩)
    exact oneLine_append.2 ⟨oneLine_append.2 ⟨hn, .fixed rfl⟩, ht⟩

theorem oneLine_func {params results : List String} (hp : ∀ s ∈ params, OneLine s)
    (hr : ∀ s ∈ results, OneLine s) : OneLine (TypeText.func params results) := by
  unfold TypeText.func
  simp only [oneLine_append]
  refine ⟨⟨⟨.fixed rfl, oneLine_intercalate (.fixed rfl) hp⟩, .fixed rfl⟩, ?_⟩
  split
  · exact .fixed rfl
  · exact oneLine_append.2 ⟨.fixed rfl, hr _ (by simp)⟩
  · simp only [oneLine_append]
    exact ⟨⟨.fixed rfl, oneLine_intercalate (.fixed rfl) hr⟩, .fixed rfl⟩

theorem oneLine_textTo {t : Ty} (h : t.Everywhere Proper) (depth : Nat) :
    OneLine (t.textTo depth) := by
  induction depth generalizing t with
  | zero =>
    unfold textTo
    exact .fixed rfl
  | succ depth ih =>
    obtain ⟨hown, hparts⟩ := everywhere_iff.1 h
    replace hparts : ∀ v ∈ t.parts, OneLine (v.textTo depth) := fun v hv => ih (hparts v hv)
    cases t with
    | basic name => exact IsAtom.oneLine_textTo hown depth
    | named path name => exact IsAtom.oneLine_textTo hown depth
    | pointer elem | slice elem | chan elem =>
      exact oneLine_append.2 ⟨.fixed rfl, hparts elem (by simp [parts])⟩
    | array length elem =>
      simp only [textTo, TypeText.array, oneLine_append, oneLine_toString, and_true]
      exact ⟨⟨.fixed rfl, .fixed rfl⟩, hparts elem (by simp [parts])⟩
    | map key elem =>
      simp only [textTo, TypeText.map, oneLine_append]
      exact ⟨⟨⟨.fixed rfl, hparts key (by simp [parts])⟩, .fixed rfl⟩,
        hparts elem (by simp [parts])⟩
    | struct fields =>
      simp only [textTo, TypeText.struct, oneLine_append]
      refine ⟨⟨.fixed rfl, oneLine_intercalate (.fixed rfl) ?_⟩, .fixed rfl⟩
      simp only [List.forall_mem_map]
      exact fun f hf => FieldNamed.oneLine_field (hown f hf)
        (hparts f.type (List.mem_map_of_mem hf))
    | func params results =>
      refine oneLine_func ?_ ?_ <;> simp only [List.forall_mem_map]
      · exact fun v hv => hparts v (List.mem_append_left _ hv)
      · exact fun v hv => hparts v (List.mem_append_right _ hv)
    | interface =>
      unfold textTo
      exact .fixed rfl

end Ty

namespace Node

/-- The words, the types and the file of a node are without line feeds. -/
structure Plain (n : Node) : Prop where
  words : ∀ w ∈ n.words, OneLine w
  types : ∀ t ∈ n.type?, t.Everywhere Ty.Proper
  file : OneLine n.pos.file

def AllPlain (n : Node) : Prop := ∀ m ∈ n.walk, m.Plain

namespace AllPlain

variable {n m : Node}

theorem self (h : n.AllPlain) : n.Plain := h n (mem_walk_self n)

theorem of_mem (h : n.AllPlain) (hm : m ∈ n.walk) : m.AllPlain :=
  fun _ hk => h _ (mem_walk_trans hm hk)

theorem child (h : n.AllPlain) (hm : m ∈ n.children) : m.AllPlain :=
  fun _ hk => h _ (mem_walk_of_child hm hk)

theorem unparen {e : Expr} (h : (Node.expr e).AllPlain) : (Node.expr e.unparen).AllPlain :=
  h.of_mem (unparen_mem_walk e)

theorem intro (h : n.Plain) (hc : ∀ m ∈ n.children, m.AllPlain) : n.AllPlain := by
  intro k hk
  rw [walk_eq, List.mem_cons, List.mem_flatMap] at hk
  obtain rfl | ⟨m, hm, hk⟩ := hk
  · exact h
  · exact hc m hm k hk

end AllPlain

end Node

theorem Expr.renderAll_eq (es : List Expr) : renderAll es = es.map render := by
  induction es with
  | nil => rfl
  | cons e es ih => rw [renderAll, ih, List.map_cons]

theorem Expr.oneLine_render {e : Expr} (h : (Node.expr e).AllPlain) : OneLine e.render := by
  induction hs : (Node.expr e).size using Nat.strongRecOn generalizing e with
  | _ size ih =>
    subst hs
    have hpart {x : Expr} (hx : .expr x ∈ (Node.expr e).children) : OneLine x.render :=
      ih _ (Node.size_lt_of_child hx) (h.child hx) rfl
    have hparts {es : List Expr} (hes : Node.exprs es ⊆ (Node.expr e).children) :
        OneLine (", ".intercalate (renderAll es)) := by
      rw [renderAll_eq]
      apply oneLine_intercalate (.fixed rfl)
      rw [List.forall_mem_map]
      exact fun x hx => hpart (hes (List.mem_map_of_mem hx))
    have hwords := h.self.words
    cases e with
    | ident id => exact hwords id.name (by simp [Node.words])
    | lit kind value info => exact hwords value (by simp [Node.words])
    | composite elems info =>
      simp only [render, oneLine_append]
      refine ⟨⟨⟨?_, .fixed rfl⟩, hparts (List.Subset.refl _)⟩, .fixed rfl⟩
      split
      · rename_i t ht
        exact Ty.oneLine_textTo (h.self.types t ht) _
      · exact .fixed rfl
    | keyValue key value info =>
      simp only [render, oneLine_append]
      exact ⟨⟨hpart (by simp [Node.children, Node.ofExpr]), .fixed rfl⟩,
        hpart (by simp [Node.children, Node.ofExpr])⟩
    | funcLit params body info =>
      unfold render
      exact .fixed rfl
    | paren x info =>
      simp only [render, oneLine_append]
      exact ⟨⟨.fixed rfl, hpart (by simp [Node.children, Node.ofExpr])⟩, .fixed rfl⟩
    | selector x field info =>
      simp only [render, oneLine_append]
      exact ⟨⟨hpart (by simp [Node.children, Node.ofExpr]), .fixed rfl⟩,
        hwords _ (by simp [Node.words])⟩
    | index x i info =>
      simp only [render, oneLine_append]
      exact ⟨⟨⟨hpart (by simp [Node.children, Node.ofExpr]), .fixed rfl⟩,
        hpart (by simp [Node.children, Node.ofExpr])⟩, .fixed rfl⟩
    | star x info =>
      exact oneLine_append.2 ⟨.fixed rfl, hpart (by simp [Node.children, Node.ofExpr])⟩
    | unary op x info =>
      exact oneLine_append.2
        ⟨hwords _ (by simp [Node.words]), hpart (by simp [Node.children, Node.ofExpr])⟩
    | binary op x y info =>
      simp only [render, oneLine_append]
      exact ⟨⟨⟨⟨hpart (by simp [Node.children, Node.ofExpr]), .fixed rfl⟩,
        hwords _ (by simp [Node.words])⟩, .fixed rfl⟩, hpart (by simp [Node.children, Node.ofExpr])⟩
    | call fn args info =>
      simp only [render, oneLine_append]
      exact ⟨⟨⟨hpart (by simp [Node.children, Node.ofExpr]), .fixed rfl⟩,
        hparts (List.subset_cons_self _ _)⟩, .fixed rfl⟩

namespace Load

open Node Relation

variable {file : String}

/-- A node is in the file, also if its line is not known, or it stands for a missing body. -/
theorem ComesFrom.file_eq {W : String → Prop} {t : Option Sexp} {n : Node}
    (h : ComesFrom file W (t, n)) : n.pos.file = file ∨ n.pos.file = "<unknown>" := by
  induction hs : n.size using Nat.strongRecOn generalizing t n with
  | _ size ih =>
    subst hs
    obtain ⟨-, he | ⟨x, a, -, hf⟩⟩ := h _ .refl
    · cases he
      exact .inr rfl
    · have hplace := hf.place
      unfold PlacedBy at hplace
      split at hplace
      · obtain ⟨line, column, offset, -, hpos⟩ := hplace
        exact .inl (by rw [hpos])
      · obtain hpos | hpos := hplace
        · exact .inl (by rw [hpos])
        · obtain ⟨m, hm, hpos⟩ := List.mem_map.1 hpos
          obtain ⟨t', hp⟩ := h.child hm
          rw [← hpos]
          exact ih _ (size_lt_of_child hm) (h.below (.single hp)) rfl

theorem ComesFrom.allPlain {t : Option Sexp} {n : Node} (h : ComesFrom file OneLine (t, n))
    (hfile : OneLine file) : n.AllPlain := by
  intro m hm
  obtain ⟨t', hr⟩ := h.exists_form hm
  have hplace : OneLine m.pos.file := by
    obtain he | he := (h.below hr).file_eq
    · rwa [he]
    · rw [he]
      exact .fixed rfl
  obtain ⟨-, he | ⟨x, a, -, hf⟩⟩ := h _ hr
  · cases he
    exact ⟨by simp [noBody, words], by simp [noBody, type?], hplace⟩
  · exact ⟨hf.words, hf.types, hplace⟩

theorem FileFrom.allPlain {y : Sexp} {f : SourceFile} (h : FileFrom OneLine y f) :
    (Node.file f).AllPlain := by
  have hunknown : OneLine ({} : Position).file := .fixed rfl
  refine .intro ⟨h.words, by simp [type?], hunknown⟩ fun m hm => ?_
  obtain ⟨t, ht⟩ := exists_mem_zip h.forms.length_eq hm
  exact ((List.forall₂_iff_zip.1 h.forms).2 ht).allPlain (h.words f.name (by simp [Node.words]))

theorem UnitFrom.allPlain {raw : Sexp} {u : SourceUnit} (h : UnitFrom OneLine raw u) :
    (Node.unit u).AllPlain := by
  have hunknown : OneLine ({} : Position).file := .fixed rfl
  refine .intro ⟨h.words, by simp [type?], hunknown⟩ fun n hn => ?_
  obtain ⟨f, hf, rfl⟩ := List.mem_map.1 hn
  obtain ⟨a, -, hfiles⟩ := h.files
  obtain ⟨y, hy⟩ := exists_mem_zip hfiles.length_eq hf
  exact ((List.forall₂_iff_zip.1 hfiles).2 hy).allPlain

end Load

end ReadGuard
