import Mathlib.Data.List.Dedup
import ReadGuard.Proofs.Ty.RoundTrip
import ReadGuard.TypeCache

namespace ReadGuard

namespace TypeGraph

mutual

/-- The node and the nodes inside it make up the type. -/
def Shows (g : TypeGraph) : Ty → Nat → Prop
  | .basic name, i => g.node? i = some (.basic name)
  | .named path name, i => g.node? i = some (.named path name)
  | .pointer elem, i => ∃ e, g.node? i = some (.pointer (some e)) ∧ g.Shows elem e
  | .slice elem, i => ∃ e, g.node? i = some (.slice (some e)) ∧ g.Shows elem e
  | .array length elem, i => ∃ e, g.node? i = some (.array length (some e)) ∧ g.Shows elem e
  | .map key elem, i =>
    ∃ k e, g.node? i = some (.map (some k) (some e)) ∧ g.Shows key k ∧ g.Shows elem e
  | .chan elem, i => ∃ e, g.node? i = some (.chan (some e)) ∧ g.Shows elem e
  | .struct fields, i => ∃ fs, g.node? i = some (.struct fs) ∧ g.ShowsFields fields fs
  | .func params results, i =>
    ∃ ps rs, g.node? i = some (.func ps rs) ∧ g.ShowsAll params ps ∧ g.ShowsAll results rs
  | .interface, i => g.node? i = some .interface

def ShowsFields (g : TypeGraph) : List (Field Ty) → List (Field (Option Nat)) → Prop
  | [], fs => fs = []
  | ⟨name, type, embedded⟩ :: fields, fs =>
    ∃ t rest, fs = ⟨name, some t, embedded⟩ :: rest ∧ g.Shows type t ∧ g.ShowsFields fields rest

def ShowsAll (g : TypeGraph) : List Ty → List (Option Nat) → Prop
  | [], ts => ts = []
  | type :: types, ts => ∃ t rest, ts = some t :: rest ∧ g.Shows type t ∧ g.ShowsAll types rest

end

def Extends (g g' : TypeGraph) : Prop := ∀ i node, g.node? i = some node → g'.node? i = some node

theorem Extends.refl (g : TypeGraph) : g.Extends g := fun _ _ h => h

theorem Extends.trans {g g' g'' : TypeGraph} (h : g.Extends g') (h' : g'.Extends g'') :
    g.Extends g'' :=
  fun i node hn => h' i node (h i node hn)

theorem node?_push (g : TypeGraph) (node : TypeNode) (i : Nat) :
    (g.push node).2.node? i = if i = g.size then some node else g.node? i :=
  Array.getElem?_push

theorem extends_push (g : TypeGraph) (node : TypeNode) : g.Extends (g.push node).2 := by
  intro i n hn
  have hlt : i < g.size := (Array.getElem?_eq_some_iff.mp hn).1
  rw [node?_push, if_neg (by omega), hn]

theorem text_named {g : TypeGraph} {i : Nat} {path name : String}
    (h : g.node? i = some (.named path name)) : g.text i = TypeText.named path name := by
  simp [text, TypeText.depth, textTo, h]

end TypeGraph

theorem Ty.Everywhere.part {P : Ty → Prop} {t v : Ty} (h : t.Everywhere P) (hv : v ∈ t.parts) :
    v.Everywhere P :=
  (everywhere_iff.mp h).2 v hv

/-- The text of a named type that was read gives back its path and its name. -/
theorem Ty.ofName_named {path name : String} (h : Ty.Proper (.named path name)) :
    Ty.ofName (TypeText.named path name) = .named path name := by
  have hatom : Ty.IsAtom (.named path name) := h
  generalize ht : Ty.named path name = t at hatom
  cases hatom with
  | name hw =>
    have htext := Ty.textTo_ofName hw 0
    rw [← ht] at htext ⊢
    rw [show TypeText.named path name = _ from htext, ht]
  | untyped hw => cases ht

namespace TypeCache

open TypeGraph

structure NamesValid (c : TypeCache) : Prop where
  found : ∀ i path name, c.graph.node? i = some (.named path name) →
    c.named.lookup (TypeText.named path name) = some i
  known : ∀ text i, c.named.lookup text = some i →
    ∃ path name, c.graph.node? i = some (.named path name) ∧ Ty.ofName text = .named path name

/-- A cache is extended by nodes, with which something holds of its graph and of every extension of
that. -/
structure Interned (c : TypeCache) (P : TypeGraph → Prop) (c' : TypeCache) : Prop where
  names : c'.NamesValid
  grows : c.graph.Extends c'.graph
  entries : c'.entries = c.entries
  holds : ∀ g, c'.graph.Extends g → P g

namespace Interned

variable {c c₁ c₂ : TypeCache} {P Q : TypeGraph → Prop}

theorem start (h : c.NamesValid) : Interned c (fun _ => True) c :=
  ⟨h, .refl _, rfl, fun _ _ => trivial⟩

theorem imp (h : Interned c P c₁) (hpq : ∀ g, P g → Q g) : Interned c Q c₁ :=
  ⟨h.names, h.grows, h.entries, fun g hg => hpq g (h.holds g hg)⟩

theorem andThen (h : Interned c P c₁) (h' : Interned c₁ Q c₂) :
    Interned c (fun g => P g ∧ Q g) c₂ where
  names := h'.names
  grows := h.grows.trans h'.grows
  entries := h'.entries.trans h.entries
  holds g hg := ⟨h.holds g (h'.grows.trans hg), h'.holds g hg⟩

/-- A node that is not named needs no entry among the names. -/
theorem push {t : Ty} (h : Interned c P c₁) (node : TypeNode)
    (hnode : ∀ path name, node ≠ .named path name)
    (hr : ∀ g i, P g → g.node? i = some node → g.Shows t i) :
    Interned c (fun g => g.Shows t (c₁.push node).1) (c₁.push node).2 where
  names := by
    constructor
    · intro i path name hi
      apply h.names.found i path name
      change (c₁.graph.push node).2.node? i = _ at hi
      rw [node?_push] at hi
      split at hi
      · cases hi
        exact absurd rfl (hnode path name)
      · exact hi
    · intro text i hl
      obtain ⟨path, name, hi, hn⟩ := h.names.known text i hl
      exact ⟨path, name, extends_push _ node i _ hi, hn⟩
  grows := h.grows.trans (extends_push _ node)
  entries := h.entries
  holds g hg := by
    apply hr g _ (h.holds g ((extends_push _ node).trans hg))
    apply hg
    change (c₁.graph.push node).2.node? c₁.graph.size = _
    rw [node?_push, if_pos rfl]

end Interned

/-- A named node is added under a text that is new. -/
theorem NamesValid.register {c : TypeCache} {path name : String} (h : c.NamesValid)
    (hname : Ty.ofName (TypeText.named path name) = .named path name)
    (hl : c.named.lookup (TypeText.named path name) = none) :
    Interned c (fun g => g.node? c.graph.size = some (.named path name))
      { c with
        graph := (c.graph.push (.named path name)).2
        named := (TypeText.named path name, c.graph.size) :: c.named } where
  names := by
    constructor
    · intro i path' name' hi
      rw [node?_push] at hi
      split at hi
      · rename_i he
        cases hi
        simp [he]
      · have hold := h.found i path' name' hi
        have hne : TypeText.named path' name' ≠ TypeText.named path name := by
          intro he
          rw [he, hl] at hold
          cases hold
        rw [List.lookup_cons, beq_false_of_ne hne]
        exact hold
    · intro text i hi
      by_cases he : text = TypeText.named path name
      · rw [he, List.lookup_cons_self] at hi
        cases hi
        exact ⟨path, name, by rw [node?_push, if_pos rfl], he ▸ hname⟩
      · rw [List.lookup_cons, beq_false_of_ne he] at hi
        obtain ⟨path', name', hi, hn⟩ := h.known text i hi
        exact ⟨path', name', extends_push _ _ i _ hi, hn⟩
  grows := extends_push _ _
  entries := rfl
  holds g hg := by
    apply hg
    rw [node?_push, if_pos rfl]

theorem internNamed_interned {c : TypeCache} {path name : String} (h : c.NamesValid)
    (hp : Ty.Proper (.named path name)) :
    Interned c (fun g => g.node? (c.internNamed path name).1 = some (.named path name))
      (c.internNamed path name).2 := by
  have hname := Ty.ofName_named hp
  rw [internNamed]
  cases hl : c.named.lookup (TypeText.named path name) with
  | some i =>
    -- the node was made for the same text, and the text tells path and name
    obtain ⟨path', name', hi, hn⟩ := h.known _ i hl
    rw [hname] at hn
    cases hn
    exact ⟨h, .refl _, rfl, fun g hg => hg i _ hi⟩
  | none => exact h.register hname hl

mutual

theorem intern_interned : (t : Ty) → (c : TypeCache) → c.NamesValid → t.Everywhere Ty.Proper →
    Interned c (fun g => g.Shows t (intern t c).1) (intern t c).2
  | .basic name, c, h, _ => (Interned.start h).push (.basic name) (by simp) fun _ _ _ hi => hi
  | .named path name, c, h, hp => internNamed_interned h (hp 0 _ (.root _))
  | .pointer elem, c, h, hp => by
    have he := intern_interned elem c h (hp.part (by simp [Ty.parts]))
    exact he.push (.pointer (some _)) (by simp) fun _ _ he hi => ⟨_, hi, he⟩
  | .slice elem, c, h, hp => by
    have he := intern_interned elem c h (hp.part (by simp [Ty.parts]))
    exact he.push (.slice (some _)) (by simp) fun _ _ he hi => ⟨_, hi, he⟩
  | .array length elem, c, h, hp => by
    have he := intern_interned elem c h (hp.part (by simp [Ty.parts]))
    exact he.push (.array length (some _)) (by simp) fun _ _ he hi => ⟨_, hi, he⟩
  | .map key elem, c, h, hp => by
    have he := intern_interned elem c h (hp.part (by simp [Ty.parts]))
    have hk := intern_interned key _ he.names (hp.part (by simp [Ty.parts]))
    exact (he.andThen hk).push (.map (some _) (some _)) (by simp)
      fun _ _ h hi => ⟨_, _, hi, h.2, h.1⟩
  | .chan elem, c, h, hp => by
    have he := intern_interned elem c h (hp.part (by simp [Ty.parts]))
    exact he.push (.chan (some _)) (by simp) fun _ _ he hi => ⟨_, hi, he⟩
  | .struct fields, c, h, hp => by
    have hfs := internFields_interned fields c h fun f hf => hp.part (List.mem_map_of_mem hf)
    exact hfs.push (.struct _) (by simp) fun _ _ hs hi => ⟨_, hi, hs⟩
  | .func params results, c, h, hp => by
    have hps := internAll_interned params c h fun t ht => hp.part (List.mem_append_left _ ht)
    have hrs := internAll_interned results _ hps.names fun t ht =>
      hp.part (List.mem_append_right _ ht)
    exact (hps.andThen hrs).push (.func _ _) (by simp) fun _ _ h hi => ⟨_, _, hi, h.1, h.2⟩
  | .interface, c, h, _ => (Interned.start h).push .interface (by simp) fun _ _ _ hi => hi

theorem internFields_interned : (fields : List (Field Ty)) → (c : TypeCache) → c.NamesValid →
    (∀ f ∈ fields, f.type.Everywhere Ty.Proper) →
    Interned c (fun g => g.ShowsFields fields (internFields fields c).1) (internFields fields c).2
  | [], c, h, _ => (Interned.start h).imp fun _ _ => rfl
  | ⟨name, type, embedded⟩ :: fields, c, h, hp => by
    have ht := intern_interned type c h (hp _ List.mem_cons_self)
    have hfs := internFields_interned fields _ ht.names fun f hf => hp f (List.mem_cons_of_mem _ hf)
    exact (ht.andThen hfs).imp fun _ h => ⟨_, _, rfl, h.1, h.2⟩

theorem internAll_interned : (types : List Ty) → (c : TypeCache) → c.NamesValid →
    (∀ t ∈ types, t.Everywhere Ty.Proper) →
    Interned c (fun g => g.ShowsAll types (internAll types c).1) (internAll types c).2
  | [], c, h, _ => (Interned.start h).imp fun _ _ => rfl
  | type :: types, c, h, hp => by
    have ht := intern_interned type c h (hp _ List.mem_cons_self)
    have hts := internAll_interned types _ ht.names fun t ht => hp t (List.mem_cons_of_mem _ ht)
    exact (ht.andThen hts).imp fun _ h => ⟨_, _, rfl, h.1, h.2⟩

end

theorem get_cases (c : TypeCache) (text : String) :
    (∃ entry ∈ c.entries, entry.text = text ∧ c.get text = .ok (entry, c)) ∨
    (∀ entry ∈ c.entries, entry.text ≠ text) ∧
      ((∃ e, Ty.read text = .error e ∧ c.get text = .error e) ∨
        ∃ t, Ty.read text = .ok t ∧ c.get text = .ok (⟨text, t, (intern t c).1⟩,
          { (intern t c).2 with
            entries := (intern t c).2.entries ++ [⟨text, t, (intern t c).1⟩] })) := by
  cases hf : c.entries.find? (·.text == text) with
  | some entry =>
    refine .inl ⟨entry, List.mem_of_find?_eq_some hf, ?_, by simp [get, hf]⟩
    simpa using List.find?_some hf
  | none =>
    refine .inr ⟨fun entry hm => by simpa using List.find?_eq_none.mp hf entry hm, ?_⟩
    cases hr : Ty.read text with
    | error e => exact .inl ⟨e, rfl, by simp [get, hf, hr]⟩
    | ok t => exact .inr ⟨t, rfl, by simp [get, hf, hr]⟩

def request (c : TypeCache) (text : String) : TypeCache :=
  match c.get text with
  | .ok (_, c') => c'
  | .error _ => c

def after (texts : List String) : TypeCache := texts.foldl request {}

/-- Each text has one entry, whose node shows the type that the text writes, in the graph and in
every extension of it. -/
structure Valid (c : TypeCache) : Prop where
  names : c.NamesValid
  read : ∀ entry ∈ c.entries, Ty.read entry.text = .ok entry.type
  shown : ∀ entry ∈ c.entries, ∀ g, c.graph.Extends g → g.Shows entry.type entry.root
  distinct : (c.entries.map (·.text)).Nodup

theorem valid_empty : Valid {} :=
  ⟨⟨by simp [node?], by simp⟩, by simp, by simp, by simp⟩

structure Requested (c : TypeCache) (text : String) (c' : TypeCache) : Prop where
  valid : c'.Valid
  grows : c.graph.Extends c'.graph
  entries : c.entries <+: c'.entries
  texts : ∀ t, t ∈ c'.entries.map (·.text) ↔
    t ∈ c.entries.map (·.text) ∨ t = text ∧ (Ty.read text).isOk = true

theorem isOk_read {text : String} {t : Ty} (h : Ty.read text = .ok t) :
    (Ty.read text).isOk = true := by
  rw [h]
  rfl

/-- A new entry for a type whose nodes are there. -/
theorem Valid.add {c c₁ : TypeCache} {text : String} {t : Ty} {root : Nat} (h : c.Valid)
    (hnew : ∀ entry ∈ c.entries, entry.text ≠ text) (hr : Ty.read text = .ok t)
    (hi : Interned c (fun g => g.Shows t root) c₁) :
    Requested c text { c₁ with entries := c₁.entries ++ [⟨text, t, root⟩] } := by
  have hentries : c₁.entries ++ [⟨text, t, root⟩] = c.entries ++ [⟨text, t, root⟩] := by
    rw [hi.entries]
  rw [hentries]
  refine ⟨⟨⟨hi.names.found, hi.names.known⟩, ?_, ?_, ?_⟩, hi.grows, List.prefix_append _ _, ?_⟩
  · intro entry hm
    obtain hm | hm := List.mem_append.mp hm
    · exact h.read entry hm
    · cases List.mem_singleton.mp hm
      exact hr
  · intro entry hm g hg
    obtain hm | hm := List.mem_append.mp hm
    · exact h.shown entry hm g (hi.grows.trans hg)
    · cases List.mem_singleton.mp hm
      exact hi.holds g hg
  · have hout : text ∉ c.entries.map (·.text) := by
      intro hm
      obtain ⟨entry, hm, he⟩ := List.mem_map.mp hm
      exact hnew entry hm he
    rw [List.map_append, List.map_singleton]
    exact h.distinct.append (List.nodup_singleton _) (List.disjoint_singleton.mpr hout)
  · intro u
    simp [isOk_read hr]

theorem Valid.requested {c : TypeCache} (h : c.Valid) (text : String) :
    Requested c text (c.request text) := by
  obtain ⟨entry, hm, he, hg⟩ | ⟨hnew, ⟨e, hr, hg⟩ | ⟨t, hr, hg⟩⟩ := c.get_cases text
  · rw [request, hg]
    refine ⟨h, .refl _, List.prefix_refl _, fun t => ?_⟩
    constructor
    · exact .inl
    · rintro (ht | ⟨rfl, -⟩)
      · exact ht
      · exact List.mem_map.mpr ⟨entry, hm, he⟩
  · rw [request, hg]
    exact ⟨h, .refl _, List.prefix_refl _, by simp [hr, Except.isOk, Except.toBool]⟩
  · rw [request, hg]
    exact h.add hnew hr (intern_interned t c h.names (Ty.read_everywhere hr))

/-- An entry is found by its text. -/
theorem Valid.get_of_mem {c : TypeCache} (h : c.Valid) {entry : TypeEntry}
    (hm : entry ∈ c.entries) : c.get entry.text = .ok (entry, c) := by
  obtain ⟨other, hm', he, hg⟩ | ⟨hnew, -⟩ := c.get_cases entry.text
  · rw [hg, List.inj_on_of_nodup_map h.distinct hm' hm he]
  · exact absurd rfl (hnew entry hm)

/-- What requests one after the other do to a cache. -/
theorem Valid.requests {c : TypeCache} (h : c.Valid) (texts : List String) :
    (texts.foldl request c).Valid ∧ c.graph.Extends (texts.foldl request c).graph ∧
      c.entries <+: (texts.foldl request c).entries ∧
      ∀ t, t ∈ (texts.foldl request c).entries.map (·.text) ↔
        t ∈ c.entries.map (·.text) ∨ t ∈ texts ∧ (Ty.read t).isOk = true := by
  induction texts generalizing c with
  | nil => exact ⟨h, .refl _, List.prefix_refl _, by simp⟩
  | cons text texts ih =>
    have hq := h.requested text
    obtain ⟨hvalid, hgrows, hentries, htexts⟩ := ih hq.valid
    refine ⟨hvalid, hq.grows.trans hgrows, hq.entries.trans hentries, fun t => ?_⟩
    rw [List.foldl_cons, htexts, hq.texts, List.mem_cons]
    constructor
    · rintro ((ht | ⟨rfl, hr⟩) | ⟨ht, hr⟩)
      · exact .inl ht
      · exact .inr ⟨.inl rfl, hr⟩
      · exact .inr ⟨.inr ht, hr⟩
    · rintro (ht | ⟨rfl | ht, hr⟩)
      · exact .inl (.inl ht)
      · exact .inl (.inr ⟨rfl, hr⟩)
      · exact .inr ⟨ht, hr⟩

theorem valid_after (texts : List String) : (after texts).Valid :=
  (valid_empty.requests texts).1

theorem after_append (before later : List String) :
    after (before ++ later) = later.foldl request (after before) :=
  List.foldl_append

theorem Valid.get_of_read {c : TypeCache} (h : c.Valid) {text : String} {t : Ty}
    (hr : Ty.read text = .ok t) : ∃ root, c.get text = .ok (⟨text, t, root⟩, c.request text) ∧
      ⟨text, t, root⟩ ∈ (c.request text).entries := by
  obtain ⟨⟨text', t', root⟩, hm, rfl, hg⟩ | ⟨-, ⟨e, he, -⟩ | ⟨t', ht, hg⟩⟩ := c.get_cases text
  · have ht := h.read _ hm
    rw [hr] at ht
    cases ht
    rw [request, hg]
    exact ⟨root, rfl, hm⟩
  · rw [hr] at he
    cases he
  · rw [hr] at ht
    cases ht
    rw [request, hg]
    exact ⟨_, rfl, List.mem_append_right _ (List.mem_singleton_self _)⟩

theorem Valid.get_of_error {c : TypeCache} (h : c.Valid) {text : String} {e : Ty.ReadError}
    (hr : Ty.read text = .error e) : c.get text = .error e ∧ c.request text = c := by
  obtain ⟨entry, hm, rfl, -⟩ | ⟨-, ⟨e', he, hg⟩ | ⟨t, ht, -⟩⟩ := c.get_cases text
  · have ht := h.read entry hm
    rw [hr] at ht
    cases ht
  · rw [hr] at he
    cases he
    exact ⟨hg, by rw [request, hg]⟩
  · rw [hr] at ht
    cases ht

theorem NamesValid.same_iff {c : TypeCache} (h : c.NamesValid) {i j : Nat}
    {path name path' name' : String} (hi : c.graph.node? i = some (.named path name))
    (hj : c.graph.node? j = some (.named path' name')) :
    i = j ↔ c.graph.text i = c.graph.text j := by
  constructor
  · rintro rfl
    rfl
  · intro he
    have hl := h.found i path name hi
    rw [← text_named hi, he, text_named hj, h.found j path' name' hj] at hl
    exact (Option.some.inj hl).symm

theorem size_after (texts : List String) :
    (after texts).size = (texts.filter fun t => (Ty.read t).isOk).dedup.length := by
  have hmem : ∀ t, t ∈ (after texts).entries.map (·.text) ↔
      t ∈ (texts.filter fun t => (Ty.read t).isOk).dedup := by
    intro t
    rw [after, (valid_empty.requests texts).2.2.2]
    simp
  have hperm := (List.perm_ext_iff_of_nodup (valid_after texts).distinct (List.nodup_dedup _)).mpr
    hmem
  rw [size, ← hperm.length_eq, List.length_map]

/-- Whatever was requested before and is requested later: a text that writes a type gives a node
that shows the type from then on, and the same one at every later request; any other text changes
nothing. All results lie in one graph. No node of it ever changes, and two named nodes of it are the
same if and only if they have the same text. The size is the number of distinct texts that write a
type. -/
theorem after_shares_names (before later : List String) (text : String) :
    (∀ t, Ty.read text = .ok t → ∃ root,
      (after before).get text = .ok (⟨text, t, root⟩, after (before ++ [text])) ∧
      (after (before ++ text :: later)).graph.Shows t root ∧
      (after (before ++ text :: later)).get text =
        .ok (⟨text, t, root⟩, after (before ++ text :: later))) ∧
    (∀ e, Ty.read text = .error e →
      (after before).get text = .error e ∧ after (before ++ [text]) = after before) ∧
    (∀ i node, (after before).graph.node? i = some node →
      (after (before ++ later)).graph.node? i = some node) ∧
    (∀ i j path name path' name', (after before).graph.node? i = some (.named path name) →
      (after before).graph.node? j = some (.named path' name') →
      (i = j ↔ (after before).graph.text i = (after before).graph.text j)) ∧
    (after before).size = (before.filter fun t => (Ty.read t).isOk).dedup.length := by
  have h := valid_after before
  refine ⟨fun t hr => ?_, fun e hr => ?_, ?_, fun i j _ _ _ _ hi hj => h.names.same_iff hi hj,
    size_after before⟩
  · obtain ⟨root, hget, hm⟩ := h.get_of_read hr
    have hlast : (after before).request text = after (before ++ [text]) := by
      rw [after_append]
      rfl
    have hlater : after (before ++ text :: later) =
        later.foldl request ((after before).request text) := by
      rw [after_append]
      rfl
    obtain ⟨hvalid, -, hentries, -⟩ := (h.requested text).valid.requests later
    rw [← hlater] at hvalid hentries
    have hm' := hentries.subset hm
    exact ⟨root, hlast ▸ hget, hvalid.shown _ hm' _ (.refl _), hvalid.get_of_mem hm'⟩
  · rw [after_append]
    exact h.get_of_error hr
  · rw [after_append]
    exact (h.requests later).2.1

theorem after_shares_names_slice : ∃ t root, Ty.read "[]data.T" = .ok t ∧
    (after ["*data.T"]).get "[]data.T" =
      .ok (⟨"[]data.T", t, root⟩, after ["*data.T", "[]data.T"]) ∧
    (after ["*data.T", "[]data.T", "data.T"]).graph.Shows t root := by
  have hok : (Ty.read "[]data.T").isOk = true := by decide +kernel
  cases hr : Ty.read "[]data.T" with
  | error e =>
    rw [hr] at hok
    cases hok
  | ok t =>
    obtain ⟨root, hget, hshows, -⟩ := (after_shares_names ["*data.T"] ["data.T"] "[]data.T").1 t hr
    exact ⟨t, root, rfl, hget, hshows⟩

end TypeCache

end ReadGuard
