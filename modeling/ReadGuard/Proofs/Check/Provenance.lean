import ReadGuard.Proofs.Check.Reached

namespace ReadGuard

namespace AliasStore

def LeadsTo (R : α → Prop) (s : AliasStore α) : Prop :=
  ∀ a ∈ s.arena, ∀ target, a.link = .field target → R target

namespace LeadsTo

variable {α : Type} {R : α → Prop} {s : AliasStore α} {target : α}

theorem bind (h : s.LeadsTo R) (name : String) {link : AliasLink α}
    (hl : ∀ target, link = .field target → R target) : (s.bind name link).LeadsTo R := by
  intro a ha target ht
  rcases Array.mem_push.mp ha with ha | rfl
  · exact h a ha target ht
  · exact hl target ht

theorem record (h : s.LeadsTo R) (name : String) (ht : R target) :
    (s.record name target).LeadsTo R := by
  apply h.bind name
  rintro _ ⟨rfl⟩
  exact ht

theorem copy (h : s.LeadsTo R) (name source : String) : (s.copy name source).2.LeadsTo R := by
  unfold AliasStore.copy
  cases s.head? source with
  | none => exact h
  | some handle =>
    by_cases he : source = name
    · simpa only [if_pos he] using h
    · simpa only [if_neg he] using h.bind name (by simp)

theorem follow (h : s.LeadsTo R) {limit : Nat} {seen : List String} {handle : Nat}
    (hf : s.follow limit seen handle = some target) : R target := by
  induction limit generalizing seen handle with
  | zero => cases hf
  | succ limit ih =>
    rw [AliasStore.follow] at hf
    cases ha : s.arena[handle]? with
    | none => simp [ha] at hf
    | some a =>
      by_cases hs : a.name ∈ seen
      · simp [ha, hs] at hf
      · cases hl : a.link with
        | field t =>
          simp only [ha, List.contains_iff_mem, hs, if_false, hl, Option.some.injEq] at hf
          subst hf
          exact h a (Array.mem_of_getElem? ha) _ hl
        | copied earlier =>
          simp only [ha, List.contains_iff_mem, hs, if_false, hl] at hf
          exact ih hf

theorem resolve (h : s.LeadsTo R) {name : String} (hr : s.resolve name = some target) :
    R target := by
  unfold AliasStore.resolve at hr
  cases hh : s.head? name with
  | none => simp [hh] at hr
  | some handle =>
    rw [hh] at hr
    exact h.follow hr

end LeadsTo

end AliasStore

namespace Protection

theorem selector_of_fieldRoot {p : Protection} {field : Expr} : (e : Expr) →
    p.fieldRoot e = some field →
      ∃ x name info, field = .selector x name info ∧ p.holds? x.type = true
  | .paren x _, h => selector_of_fieldRoot x h
  | .selector x name info, h => by
    rw [fieldRoot] at h
    by_cases hx : p.holds? x.type = true
    · rw [if_pos hx, Option.some.injEq] at h
      exact ⟨x, name, info, h.symm, hx⟩
    · rw [if_neg hx] at h
      split at h
      · exact selector_of_fieldRoot x h
      · cases h
  | .index x _ _, h => by
    rw [fieldRoot] at h
    by_cases hx : p.isFieldRef x = true
    · rw [if_pos hx, Option.some.injEq] at h
      unfold isFieldRef at hx
      cases hu : x.unparen with
      | selector y name info =>
        rw [hu] at hx h
        exact ⟨y, name, info, h.symm, hx⟩
      | _ => simp [hu] at hx
    · rw [if_neg hx] at h
      split at h
      · exact selector_of_fieldRoot x h
      · cases h

theorem exists_of_addressed {p : Protection} {e field : Expr} (h : p.addressed e = some field) :
    ∃ x info, e = .unary "&" x info ∧ p.fieldRoot x = some field := by
  unfold addressed at h
  split at h
  · exact ⟨_, _, rfl, h⟩
  · cases h

end Protection

/-- The function takes the address of the field, or of storage that is part of it. -/
def FuncDecl.Addresses (p : Protection) (f : FuncDecl) (field : Expr) : Prop :=
  ∃ body x info, f.body = some body ∧
    .expr (.unary "&" x info) ∈ (Node.stmt (.block body)).walk ∧ p.fieldRoot x = some field

def SourceUnit.Addresses (p : Protection) (u : SourceUnit) (field : Expr) : Prop :=
  ∃ f ∈ (CallGraph.ofUnit u).functions, f.decl.Addresses p field

def Event.operands : Event → List Expr
  | .call c => c.args
  | .assign _ _ right => right
  | .declare _ values => values
  | _ => []

theorem Node.operands_subset_children {n : Node} {event : Event} (hn : event ∈ n.own) {e : Expr}
    (he : e ∈ event.operands) : .expr e ∈ n.children := by
  cases n with
  | expr x =>
    cases x with
    | call fn args info =>
      cases List.mem_singleton.mp hn
      exact List.mem_cons_of_mem _ (List.mem_map_of_mem he)
    | _ => cases hn
  | stmt s =>
    cases s with
    | assign left op right pos =>
      cases List.mem_singleton.mp hn
      exact List.mem_append_right _ (List.mem_map_of_mem he)
    | incDec x op pos =>
      cases List.mem_singleton.mp hn
      cases he
    | decl names values type pos =>
      cases List.mem_singleton.mp hn
      exact List.mem_append_right _ (List.mem_map_of_mem he)
    | range x body key value op pos =>
      cases List.mem_singleton.mp hn
      cases he
    | _ => cases hn
  | _ => cases hn

namespace Action

def operand : Action → Option Expr
  | passes _ _ _ arg => some arg
  | assigns _ value => value
  | _ => none

variable {a : Action} {e : Expr}

theorem operand_mem_of_assignments {names values : List Expr} (ha : a ∈ assignments names values)
    (he : a.operand = some e) : e ∈ values := by
  obtain ⟨⟨target, value⟩, hp, rfl⟩ := List.mem_map.mp ha
  change value = some e at he
  subst he
  unfold Aliases.pairs at hp
  split at hp
  · obtain ⟨v, hv, hve⟩ := List.mem_map.mp (List.of_mem_zip hp).2
    rwa [← Option.some.inj hve]
  · simp at hp

theorem operand_mem_operands {event : Event} {keyOf : Call → String} (ha : a ∈ event.actions keyOf)
    (he : a.operand = some e) : e ∈ event.operands := by
  cases event with
  | call c =>
    simp only [Event.actions, List.mem_cons, List.mem_map] at ha
    obtain rfl | rfl | ⟨⟨arg, index⟩, hm, rfl⟩ := ha
    · cases he
    · cases he
    · cases he
      exact List.fst_mem_of_mem_zipIdx hm
  | assign left op right =>
    simp only [Event.actions, List.mem_cons] at ha
    obtain rfl | ha := ha
    · cases he
    · split at ha
      · exact operand_mem_of_assignments ha he
      · cases ha
  | incDec x pos =>
    rw [Event.actions, List.mem_singleton] at ha
    subst ha
    cases he
  | declare names values => exact operand_mem_of_assignments ha he
  | range key value op =>
    simp only [Event.actions, List.mem_cons] at ha
    obtain rfl | ha := ha
    · cases he
    · exact operand_mem_of_assignments ha he

theorem seeds_not_mem_actions {f : FuncDecl} {keyOf : Call → String} {name : String}
    {source : Expr} : seeds name source ∉ f.actions keyOf := by
  intro h
  obtain ⟨event, -, h⟩ := List.mem_flatMap.mp h
  cases event with
  | assign left op right =>
    simp only [Event.actions, assignments] at h
    split at h <;> simp at h
  | _ => simp [Event.actions, assignments] at h

theorem operand_mem_walk {f : FuncDecl} {keyOf : Call → String} (ha : a ∈ f.actions keyOf)
    (he : a.operand = some e) : ∃ body, f.body = some body ∧
      .expr e ∈ (Node.stmt (.block body)).walk := by
  obtain ⟨event, hev, ha⟩ := List.mem_flatMap.mp ha
  obtain ⟨n, hn, hown⟩ := FuncDecl.mem_events.mp hev
  obtain ⟨body, hb, hn⟩ := FuncDecl.exists_body_of_reached hn
  have hpart := Node.operands_subset_children hown (operand_mem_operands ha he)
  have hchild := Node.mem_walk_of_child hpart (Node.mem_walk_self _)
  exact ⟨body, hb, Node.mem_walk_trans hn hchild⟩

theorem addresses_of_operand {p : Protection} {f : FuncDecl} {keyOf : Call → String}
    (ha : a ∈ f.actions keyOf) (he : a.operand = some e) {field : Expr}
    (hf : p.addressed e.unparen = some field) : f.Addresses p field := by
  obtain ⟨body, hb, hm⟩ := operand_mem_walk ha he
  obtain ⟨x, info, hx, hr⟩ := Protection.exists_of_addressed hf
  have hu := Node.mem_walk_trans hm (Node.unparen_mem_walk e)
  rw [hx] at hu
  exact ⟨body, x, info, hb, hu, hr⟩

end Action

namespace Aliases

open AliasStore

variable {R : Expr → Prop} {s : Aliases} {p : Protection}

theorem leadsTo_assign (h : s.LeadsTo R) (name : String) {value : Option Expr}
    (hv : ∀ e, value = some e → ∀ field, p.addressed e.unparen = some field → R field) :
    (s.assign p name value).1.LeadsTo R := by
  unfold assign
  cases value with
  | none => exact h
  | some e =>
    have he := hv e rfl
    rw [Option.map_some]
    cases hu : e.unparen with
    | ident id =>
      dsimp only
      split
      · exact h.copy name id.name
      · exact h
    | _ =>
      rw [hu] at he
      dsimp only
      cases hf : p.addressed _ with
      | none => exact h
      | some field => exact h.record name (he field hf)

theorem leadsTo_assignTo (h : s.LeadsTo R) (target : Expr) {value : Option Expr}
    (hv : ∀ e, value = some e → ∀ field, p.addressed e.unparen = some field → R field) :
    (s.assignTo p target value).1.LeadsTo R := by
  unfold assignTo
  cases target.unparen with
  | ident id =>
    by_cases hid : id.name = "_"
    · simpa only [if_pos hid] using h
    · simpa only [if_neg hid] using leadsTo_assign h id.name hv
  | _ => exact h

end Aliases

namespace Run

variable {r : Run} {f : FuncRecord} {source : Int × Expr}

theorem mem_sources_absorb {recording : Bool} {key : String} {e : Effect}
    (hf : f ∈ (r.absorb recording key e).graph.functions) (hs : source ∈ f.sources) :
    (∃ f₀ ∈ r.graph.functions, source ∈ f₀.sources) ∨
      ∃ pos callee index, e = .passes pos callee index source.2 := by
  obtain ⟨f₀, hf₀, -, he | ⟨pos, index, field, rfl, he⟩⟩ := mem_functions_absorb hf
  · exact .inl ⟨f₀, hf₀, (Prod.mk.inj he).2 ▸ hs⟩
  · rw [(Prod.mk.inj he).2] at hs
    obtain hs | rfl := FuncRecord.mem_sources_taint hs
    · exact .inl ⟨f₀, hf₀, hs⟩
    · exact .inr ⟨pos, f₀.key, index, rfl⟩

structure Knows (R : Expr → Prop) (r : Run) : Prop where
  aliases : r.aliases.LeadsTo R
  sources : ∀ f ∈ r.graph.functions, ∀ source ∈ f.sources, R source.2

variable {R : Expr → Prop} {w : Watch}

theorem escaping_of_leadsTo {s : Aliases} (h : s.LeadsTo R) {arg field : Expr}
    (ha : ∀ field, w.protection.addressed arg.unparen = some field → R field)
    (he : escaping w s arg = some field) : R field := by
  unfold escaping at he
  cases hu : arg.unparen with
  | ident id =>
    rw [hu] at he
    exact h.resolve he
  | _ =>
    rw [hu] at he ha
    exact ha field he

theorem Knows.absorbAll (h : r.Knows R) {recording : Bool} {key : String} (es : List Effect)
    (hes : ∀ pos callee index source, .passes pos callee index source ∈ es → R source) :
    (r.absorbAll recording key es).Knows R := by
  induction es generalizing r with
  | nil => exact h
  | cons e es ih =>
    apply ih
    · refine ⟨by simpa only [aliases_absorb] using h.aliases, fun f hf source hs => ?_⟩
      obtain ⟨f₀, hf₀, hs⟩ | ⟨pos, callee, index, rfl⟩ := mem_sources_absorb hf hs
      · exact h.sources f₀ hf₀ source hs
      · exact hes pos callee index source.2 List.mem_cons_self
    · intro pos callee index source hm
      exact hes pos callee index source (List.mem_cons_of_mem _ hm)

/-- An action keeps what is known of the fields, if the addresses it hands on are of such fields. -/
theorem Knows.act (h : r.Knows R) (recording : Bool) (key : String) {a : Action}
    (ha : ∀ e, a.operand = some e → ∀ field, w.protection.addressed e.unparen = some field →
      R field) (hs : ∀ name source, a = .seeds name source → R source) :
    (r.act w recording key a).Knows R := by
  rw [act_eq]
  have hes : ∀ pos callee index source,
      .passes pos callee index source ∈ a.effects w r.aliases → R source := by
    intro pos callee index source hm
    cases a with
    | passes pos' callee' index' arg =>
      obtain ⟨source', he, heq⟩ := List.mem_map.mp hm
      cases heq
      exact escaping_of_leadsTo h.aliases (ha arg rfl) (Option.mem_toList.mp he)
    | _ => simp [Action.effects] at hm
  refine ⟨?_, (h.absorbAll _ hes).sources⟩
  cases a with
  | assigns target value => exact Aliases.leadsTo_assignTo h.aliases target ha
  | seeds name source => exact h.aliases.record name (hs name source rfl)
  | _ => exact h.aliases

end Run

namespace Policy

theorem invariant_knows (p : Policy) (u : SourceUnit) :
    p.Invariant u (Run.Knows (u.Addresses p.protection)) where
  declared decls := by
    have hb := (CallGraph.blank_empty u.name u.path).registerAll decls
    refine ⟨by simp [AliasStore.LeadsTo], fun f hf source hs => ?_⟩
    rw [hb.functions f hf] at hs
    cases hs
  queued r queue h := ⟨h.aliases, h.sources⟩
  begun r h := ⟨by simp [AliasStore.LeadsTo], h.sources⟩
  seeded r recording f h hf b hb := by
    apply h.act recording f.key
    · intro e he
      cases he
    · rintro name source ⟨rfl, rfl⟩
      obtain ⟨index, hs⟩ := FuncRecord.mem_sources_of_mem_bound hb
      exact h.sources f hf _ hs
  acted r recording h hu f hf a ha := by
    apply h.act recording f.key
    · intro e he field hfield
      exact ⟨f, hf, Action.addresses_of_operand ha he hfield⟩
    · rintro name source rfl
      exact absurd ha Action.seeds_not_mem_actions
  spread r g h hg := by
    refine ⟨h.aliases, fun f hf source hs => ?_⟩
    obtain ⟨f₀, hf₀, hff⟩ := hg.exists_of_mem hf
    rw [(Prod.mk.inj hff.received).2] at hs
    exact h.sources f₀ hf₀ source hs
  reported r i h := ⟨h.aliases, h.sources⟩

/-- In every state of a check, each field that a name or a parameter is known to point to comes from
an address that some function of the unit takes, and is a field of the protected type. -/
theorem reached_fields_addressed (p : Policy) (u : SourceUnit) (r : Run) (h : p.Reached u r) :
    (∀ a ∈ r.aliases.arena, ∀ field, a.link = .field field →
      u.Addresses p.protection field ∧
        ∃ x name info, field = .selector x name info ∧ p.protection.holds? x.type = true) ∧
    ∀ f ∈ r.graph.functions, ∀ source ∈ f.sources,
      u.Addresses p.protection source.2 ∧
        ∃ x name info, source.2 = .selector x name info ∧ p.protection.holds? x.type = true := by
  have hk := (p.invariant_knows u).reached h
  have hroot : ∀ field, u.Addresses p.protection field →
      ∃ x name info, field = .selector x name info ∧ p.protection.holds? x.type = true := by
    rintro field ⟨f, -, body, x, info, -, -, hx⟩
    exact Protection.selector_of_fieldRoot x hx
  constructor
  · intro a ha field hl
    have hfield := hk.aliases a ha field hl
    exact ⟨hfield, hroot field hfield⟩
  · intro f hf source hs
    have hfield := hk.sources f hf source hs
    exact ⟨hfield, hroot source.2 hfield⟩

theorem reached_fields_addressed_counter : ∃ r, Reached {} .counter r ∧
    (∃ a ∈ r.aliases.arena, ∃ field, a.link = .field field ∧
      SourceUnit.counter.Addresses (protection {}) field) ∧
    ∃ f ∈ r.graph.functions, ∃ source ∈ f.sources,
      SourceUnit.counter.Addresses (protection {}) source.2 := by
  have hr := reached_close {} .counter
  obtain ⟨ha, hs⟩ := reached_fields_addressed {} .counter _ hr
  have harena : (((settled {} .counter).close (watch {})).2.aliases.arena.any fun a =>
      match a.link with
      | .field _ => true
      | .copied _ => false) = true := by
    decide +kernel
  have hsources : (((settled {} .counter).close (watch {})).2.graph.functions.any fun f =>
      !f.sources.isEmpty) = true := by
    decide +kernel
  refine ⟨_, hr, ?_, ?_⟩
  · obtain ⟨a, hmem, hl⟩ := Array.any_eq_true'.mp harena
    cases hlink : a.link with
    | field field => exact ⟨a, hmem, field, hlink, (ha a hmem field hlink).1⟩
    | copied handle => simp [hlink] at hl
  · obtain ⟨f, hf, hne⟩ := List.any_eq_true.mp hsources
    obtain ⟨source, hsource⟩ := List.exists_mem_of_ne_nil f.sources (by simpa using hne)
    exact ⟨f, hf, source, hsource, (hs f hf source hsource).1⟩

end Policy

end ReadGuard
