import ReadGuard.Check.Verdict
import ReadGuard.Proofs.Check.Budget

namespace ReadGuard

structure CallGraph.Blank (g : CallGraph) : Prop where
  keys : g.keys.Nodup
  functions : ∀ f ∈ g.functions, f = { key := g.functionKey f.decl, decl := f.decl }
  reported : g.reported = []

namespace CallGraph

theorem Blank.register {g : CallGraph} (h : g.Blank) (decl : FuncDecl) :
    (g.register decl).Blank := by
  simp only [CallGraph.register]
  split
  case isTrue => exact h
  case isFalse hd =>
    refine ⟨?_, ?_, h.reported⟩
    · have hn : g.functionKey decl ∉ g.keys := fun hm => hd (declares_iff.mpr hm)
      unfold CallGraph.keys at hn ⊢
      rw [List.map_append, List.nodup_append]
      refine ⟨h.keys, by simp, ?_⟩
      intro a ha b hb
      rw [List.map_singleton, List.mem_singleton] at hb
      rintro rfl
      rw [hb] at ha
      exact hn ha
    · intro f hf
      rcases List.mem_append.mp hf with hf | hf
      · exact h.functions f hf
      · rw [List.mem_singleton.mp hf]
        rfl

theorem Blank.registerAll {g : CallGraph} (h : g.Blank) (decls : List FuncDecl) :
    (decls.foldl CallGraph.register g).Blank := by
  induction decls generalizing g with
  | nil => exact h
  | cons decl decls ih => exact ih (h.register decl)

theorem blank_empty (name path : String) : (CallGraph.empty name path).Blank :=
  ⟨List.nodup_nil, by simp [empty], rfl⟩

theorem blank_ofUnit (u : SourceUnit) : (ofUnit u).Blank :=
  (blank_empty u.name u.path).registerAll u.functions

theorem Blank.known {α : Type} {g : CallGraph} (h : g.Blank) (key : String)
    (read : FuncRecord → α) {unknown : α}
    (hr : ∀ key decl, read { key := key, decl := decl } = unknown) :
    g.known read unknown key = unknown := by
  cases hf : g.get? key with
  | none => simp [CallGraph.known, hf]
  | some f =>
    rw [known_of_get? hf, h.functions f (get?_mem hf)]
    exact hr _ _

theorem Blank.sourced {g : CallGraph} (h : g.Blank) {f : FuncRecord} (hf : f ∈ g.functions) :
    f.Sourced := by
  rw [h.functions f hf]
  exact .of_untainted rfl rfl

end CallGraph

namespace Run

variable {w : Watch} {r r' : Run} {f f' : FuncRecord} {key : String}

/-- What is true of the state all through a check. -/
structure Valid (r : Run) : Prop where
  worded : r.issues.Worded
  budget : r.Budget
  sourced : ∀ f ∈ r.graph.functions, f.Sourced

theorem Valid.with_queue (h : r.Valid) (queue : Queue) : Valid { r with queue := queue } :=
  ⟨h.worded, ⟨h.budget.keys, h.budget.taints, h.budget.sites⟩, h.sourced⟩

theorem sourced_absorb (h : ∀ f ∈ r.graph.functions, f.Sourced) (recording : Bool) (e : Effect) :
    ∀ f ∈ (r.absorb recording key e).graph.functions, f.Sourced := by
  intro f hf
  obtain ⟨f₀, hf₀, -, hr | ⟨pos, index, source, -, hr⟩⟩ := mem_functions_absorb hf
  · exact (h f₀ hf₀).congr hr
  · exact ((h f₀ hf₀).taint index source).congr hr

theorem sourced_absorbAll (h : ∀ f ∈ r.graph.functions, f.Sourced) (recording : Bool)
    (es : List Effect) : ∀ f ∈ (r.absorbAll recording key es).graph.functions, f.Sourced := by
  induction es generalizing r with
  | nil => exact h
  | cons e es ih => exact ih (sourced_absorb h recording e)

theorem absorbed_with_aliases {s : Aliases} {e : Effect} :
    Absorbed { r with aliases := s } key e ↔ r.Absorbed key e := by
  cases e <;> rfl

theorem absorbed_with_queue {queue : Queue} {e : Effect} :
    Absorbed { r with queue := queue } key e ↔ r.Absorbed key e := by
  cases e <;> rfl

structure Walked (w : Watch) (r : Run) (f : FuncRecord) (s : Aliases) (r' : Run) : Prop where
  grows : Grows r r'
  paid : Paid r r'
  valid : Valid r'
  absorbed : ∀ e ∈ effectsOf w r.graph f s, r'.Absorbed f.key e

theorem walk_walked (hv : r.Valid) (hf : r.graph.get? f.key = some f')
    (hd : f.decl = f'.decl) (recording : Bool) (s : Aliases) :
    Walked w r f s (r.walk w recording f s) := by
  have hproper : ∀ e ∈ effectsOf w r.graph f s, e.Proper := fun e he => Effect.ofEvents_proper he
  have hwithin : ∀ e ∈ effectsOf w r.graph f s, e.Within r.graph := fun e he =>
    Effect.within_effectsOf (CallGraph.get?_mem hf) hd he
  have hg := grows_absorbAll recording f.key r (effectsOf w r.graph f s)
  have hp := hv.budget.paid_absorbAll hwithin recording f.key
  rw [walk_eq]
  refine ⟨⟨hg.sameUnit, hg.modifies, hg.tainted, hg.requeued, hg.issues, hg.escapes, hg.queue⟩,
    ⟨⟨hp.budget.keys, hp.budget.taints, hp.budget.sites⟩, hp.queue⟩,
    ⟨worded_absorbAll hv.worded hproper recording f.key,
      ⟨hp.budget.keys, hp.budget.taints, hp.budget.sites⟩,
      sourced_absorbAll hv.sourced recording _⟩, ?_⟩
  intro e he
  rw [absorbed_with_aliases]
  exact absorbed_absorbAll hv.worded hproper recording (CallGraph.declares_of_get? hf) he

theorem rewalk_walked (hv : r.Valid) (hf : r.graph.get? key = some f) (queue : Queue) :
    Walked w { r with queue := queue } f (seeded f.bound)
      ({ r with queue := queue }.walk w false f (seeded f.bound)) :=
  walk_walked (hv.with_queue queue) (CallGraph.get?_key hf ▸ hf) rfl false (seeded f.bound)

/-- Every function that does not wait has no effect left that is not part of the state. -/
def Settled (w : Watch) (r : Run) : Prop :=
  ∀ f ∈ r.graph.functions, f.key ∉ r.queue →
    ∀ e ∈ effectsOf w r.graph f (seeded f.bound), r.Absorbed f.key e

/-- A function that does not wait was the same before, as far as its effects go. -/
theorem Grows.record (hg : Grows r r') (hk : r'.graph.keys.Nodup) (hf' : f' ∈ r'.graph.functions)
    (hq : f'.key ∉ r'.queue) : ∃ f ∈ r.graph.functions, f.key = f'.key ∧ f.decl = f'.decl ∧
      f.received = f'.received := by
  have hget' := CallGraph.get?_of_mem hk hf'
  obtain ⟨f, hget, hkey, hd⟩ := hg.sameUnit.symm.get?_decl hget'
  have hs := (hg.requeued f'.key).resolve_right hq
  rw [CallGraph.received_of_get? hget, CallGraph.received_of_get? hget'] at hs
  exact ⟨f, CallGraph.get?_mem hget, hkey, hd, hs.symm⟩

/-- Taking a function off the queue and going through it again settles it, unless it taints itself;
whatever it taints waits. -/
theorem Settled.walk (hs : Settled w r) (hv : r.Valid) {queue : Queue}
    (hq : r.queue.pop? = some (key, queue)) (hf : r.graph.get? key = some f) :
    Settled w ({ r with queue := queue }.walk w false f (seeded f.bound)) := by
  have hw : Walked w { r with queue := queue } f (seeded f.bound) _ := rewalk_walked hv hf queue
  intro f' hf' hnot
  obtain ⟨f₀, hf₀, hk, hd, hrec⟩ := hw.grows.record hw.valid.budget.keys hf' hnot
  rw [effectsOf_congr w hw.grows.sameUnit hd.symm, FuncRecord.bound_congr hd.symm hrec.symm,
    ← hk]
  rw [← hk] at hnot
  -- the function itself was just walked with its present names, or it waits again
  by_cases hself : f₀.key = key
  · have hget := CallGraph.get?_of_mem hv.budget.keys hf₀
    rw [hself, hf, Option.some.injEq] at hget
    subst hget
    exact hw.absorbed
  · intro e he
    have hwait : f₀.key ∉ r.queue := by
      rw [Queue.mem_of_pop? hq, not_or]
      exact ⟨hself, fun hm => hnot (hw.grows.queue hm)⟩
    exact (absorbed_with_queue.mpr (hs f₀ hf₀ hwait e he)).grows hw.grows

theorem rewalk_cases (w : Watch) (limit : Nat) (r : Run) :
    (r.queue.pending = [] ∧ rewalk w (limit + 1) r = { count := 0, run := r }) ∨
    (∃ key queue, r.queue.pop? = some (key, queue) ∧ r.graph.get? key = none ∧
      rewalk w (limit + 1) r = rewalk w limit { r with queue := queue }) ∨
    (∃ key queue f, r.queue.pop? = some (key, queue) ∧ r.graph.get? key = some f ∧
      f.bindings = .ok f.bound ∧ rewalk w (limit + 1) r =
        { rewalk w limit ({ r with queue := queue }.walk w false f (seeded f.bound)) with
          count := (rewalk w limit
            ({ r with queue := queue }.walk w false f (seeded f.bound))).count + 1 }) ∨
    (∃ key queue f fault, r.queue.pop? = some (key, queue) ∧ r.graph.get? key = some f ∧
      f.bindings = .error fault ∧
      rewalk w (limit + 1) r = ⟨0, { r with queue := queue }, some fault⟩) := by
  rw [rewalk]
  cases hq : r.queue.pop? with
  | none => exact .inl ⟨Queue.pop?_eq_none_iff.mp hq, rfl⟩
  | some next =>
    obtain ⟨key, queue⟩ := next
    refine .inr ?_
    cases hf : r.graph.get? key with
    | none => exact .inl ⟨key, queue, rfl, hf, by simp only [hf]⟩
    | some f =>
      cases hb : f.bindings with
      | error fault => exact .inr (.inr ⟨key, queue, f, fault, rfl, hf, hb, by simp only [hf, hb]⟩)
      | ok bindings =>
        obtain rfl := FuncRecord.bindings_eq_bound hb
        exact .inr (.inl ⟨key, queue, f, rfl, hf, hb, by simp only [hf, hb]⟩)

/-- What is kept by taking a function off the queue, and by going through it again then, is kept by
the whole pass. -/
theorem rewalk_induction {P : Run → Prop}
    (hwalk : ∀ r key queue f, P r → r.queue.pop? = some (key, queue) →
      r.graph.get? key = some f → f.bindings = .ok f.bound →
      P ({ r with queue := queue }.walk w false f (seeded f.bound)))
    (hskip : ∀ r key queue, P r → r.queue.pop? = some (key, queue) →
      (∀ f, r.graph.get? key = some f → ∃ fault, f.bindings = .error fault) →
      P { r with queue := queue })
    (limit : Nat) (r : Run) (h : P r) : P (rewalk w limit r).run := by
  induction limit generalizing r with
  | zero => exact h
  | succ limit ih =>
    obtain ⟨-, he⟩ | ⟨key, queue, hq, hf, he⟩ | ⟨key, queue, f, hq, hf, hb, he⟩ |
      ⟨key, queue, f, fault, hq, hf, hb, he⟩ := rewalk_cases w limit r
    · rw [he]
      exact h
    · rw [he]
      exact ih _ (hskip r key queue h hq (by simp [hf]))
    · rw [he]
      exact ih _ (hwalk r key queue f h hq hf hb)
    · rw [he]
      refine hskip r key queue h hq fun f' hf' => ⟨fault, ?_⟩
      rw [hf, Option.some.injEq] at hf'
      rw [← hf']
      exact hb

/-- The fields of the tainted parameters are known, so a pass comes to the end of the queue. Its
limit is never met: each waiting function is paid for by a tainted parameter, and there are no more
of those than arguments. -/
theorem rewalk_queue (limit : Nat) (r : Run) (hv : r.Valid)
    (hl : r.queue.pending.length + argumentCount r.graph ≤ limit + r.graph.taints.length) :
    (rewalk w limit r).run.queue.pending = [] ∧ (rewalk w limit r).fault? = none := by
  induction limit generalizing r with
  | zero =>
    have hb := hv.budget.length_taints_le
    have hz : r.queue.pending.length = 0 := by omega
    exact ⟨List.length_eq_zero_iff.mp hz, rfl⟩
  | succ limit ih =>
    obtain ⟨hq, he⟩ | ⟨key, queue, hq, -, he⟩ | ⟨key, queue, f, hq, hf, -, he⟩ |
      ⟨key, queue, f, fault, hq, hf, hb, he⟩ := rewalk_cases w limit r
    · rw [he]
      exact ⟨hq, rfl⟩
    · rw [he]
      apply ih _ (hv.with_queue queue)
      rw [Queue.pending_of_pop? hq, List.length_cons] at hl
      dsimp only
      omega
    · have hw : Walked w { r with queue := queue } f (seeded f.bound) _ := rewalk_walked hv hf queue
      have hp := hw.paid.queue
      have hc : argumentCount ({ r with queue := queue }.walk w false f (seeded f.bound)).graph =
          argumentCount r.graph := by
        rw [← CallGraph.length_sites, ← CallGraph.length_sites, hw.grows.sameUnit.sites]
      rw [he]
      apply ih _ hw.valid
      rw [Queue.pending_of_pop? hq, List.length_cons] at hl
      rw [hc]
      dsimp only at hp
      omega
    · rw [(hv.sourced f (CallGraph.get?_mem hf)).bindings] at hb
      cases hb

def Waiting (r : Run) : Prop := ∀ key, r.graph.received key ≠ ([], []) → key ∈ r.queue

theorem Waiting.grows (h : Waiting r) (hg : Grows r r') : Waiting r' := by
  intro key hne
  rcases hg.requeued key with hs | hq
  · exact hg.queue (h key (hs ▸ hne))
  · exact hq

def Listed (r : Run) (fs : List FuncRecord) : Prop :=
  ∀ f ∈ fs, ∃ f', r.graph.get? f.key = some f' ∧ f.decl = f'.decl

theorem Listed.sameUnit {fs : List FuncRecord} (h : r.Listed fs)
    (hu : r.graph.SameUnit r'.graph) : r'.Listed fs := by
  intro f hf
  obtain ⟨f₁, hget, hd⟩ := h f hf
  obtain ⟨f₂, hget', -, hd'⟩ := hu.get?_decl hget
  exact ⟨f₂, hget', hd.trans hd'.symm⟩

structure WalkedAll (w : Watch) (r : Run) (fs : List FuncRecord) (r' : Run) : Prop where
  grows : Grows r r'
  paid : Paid r r'
  valid : Valid r'
  absorbed : ∀ f ∈ fs, ∀ e ∈ effectsOf w r.graph f {}, r'.Absorbed f.key e

theorem walks_walked (hv : r.Valid) (fs : List FuncRecord) (hfs : r.Listed fs) :
    WalkedAll w r fs (fs.foldl (fun r f => r.walk w true f {}) r) := by
  induction fs generalizing r with
  | nil => exact ⟨.refl r, hv.budget.paid_of_eq (.refl _) rfl rfl, hv, by simp⟩
  | cons f fs ih =>
    obtain ⟨f', hf, hd⟩ := hfs f (by simp)
    have hw : Walked w r f {} (r.walk w true f {}) := walk_walked hv hf hd true {}
    have hrest : r.Listed fs := fun a ha => hfs a (List.mem_cons_of_mem _ ha)
    have h := ih hw.valid (hrest.sameUnit hw.grows.sameUnit)
    refine ⟨hw.grows.trans h.grows, hw.paid.trans h.paid, h.valid, ?_⟩
    intro a hm e he
    rcases List.mem_cons.mp hm with rfl | hm
    · exact (hw.absorbed e he).grows h.grows
    · apply h.absorbed a hm e
      rwa [effectsOf_congr w hw.grows.sameUnit rfl]

def start (u : SourceUnit) : Run := { graph := .ofUnit u }

theorem valid_start (u : SourceUnit) : Valid (start u) := by
  have hb := CallGraph.blank_ofUnit u
  have ht : (CallGraph.ofUnit u).taints = [] := by
    unfold CallGraph.taints
    rw [List.flatMap_eq_nil_iff]
    intro f hf
    rw [hb.functions f hf]
    rfl
  refine ⟨by simp [start, IssueSet.Worded], ⟨hb.keys, ?_, ?_⟩, fun f hf => hb.sourced hf⟩
  · show (CallGraph.ofUnit u).taints.Nodup
    rw [ht]
    exact List.nodup_nil
  · show (CallGraph.ofUnit u).taints ⊆ _
    rw [ht]
    exact List.nil_subset _

theorem listed_start (u : SourceUnit) : (start u).Listed (CallGraph.ofUnit u).functions :=
  fun f hf => ⟨f, CallGraph.get?_of_mem (CallGraph.blank_ofUnit u).keys hf, rfl⟩

theorem firstPass_walked (w : Watch) (u : SourceUnit) :
    WalkedAll w (start u) (CallGraph.ofUnit u).functions (firstPass w (start u)) :=
  walks_walked (valid_start u) _ (listed_start u)

theorem firstPass_waiting (w : Watch) (u : SourceUnit) : Waiting (firstPass w (start u)) := by
  apply Waiting.grows _ (firstPass_walked w u).grows
  intro key hne
  exact absurd ((CallGraph.blank_ofUnit u).known key FuncRecord.received fun _ _ => rfl) hne

/-- After the first pass, only functions with a tainted parameter have effects left. -/
theorem firstPass_settled (w : Watch) (u : SourceUnit) : Settled w (firstPass w (start u)) := by
  obtain ⟨hg, -, hv, ha⟩ := firstPass_walked w u
  have hwait := firstPass_waiting w u
  intro f hf hq e he
  -- a function is either without tainted parameters, as it was walked, or it waits
  have hr : f.received = ([], []) := by
    have hget := CallGraph.get?_of_mem hv.budget.keys hf
    by_contra hne
    exact hq (hwait f.key (by rwa [CallGraph.received_of_get? hget]))
  have hseed : seeded f.bound = {} := by
    simp [seeded, FuncRecord.bound, (Prod.mk.inj hr).1]
  obtain ⟨f₀, hf₀, hk, hd, -⟩ := hg.record hv.budget.keys hf hq
  rw [hseed, effectsOf_congr w hg.sameUnit hd.symm] at he
  rw [← hk]
  exact ha f₀ hf₀ e he

/-- Two states that differ in the names, in notes and in repetitions of escapes only. -/
structure Unchanged (r r' : Run) : Prop where
  graph : r'.graph = r.graph
  queue : r'.queue = r.queue
  issues : r'.issues = r.issues
  escapes : ∀ site, site ∈ r'.escapes ↔ site ∈ r.escapes

theorem Unchanged.trans {r'' : Run} (h : Unchanged r r') (h' : Unchanged r' r'') :
    Unchanged r r'' :=
  ⟨h'.graph.trans h.graph, h'.queue.trans h.queue, h'.issues.trans h.issues,
    fun site => (h'.escapes site).trans (h.escapes site)⟩

theorem Absorbed.unchanged {e : Effect} (h : r.Absorbed key e) (hu : Unchanged r r') :
    r'.Absorbed key e := by
  cases e with
  | breach i =>
    rw [Absorbed, hu.issues, hu.graph]
    exact h
  | passes pos callee index source =>
    rw [Absorbed, hu.issues, hu.graph, hu.escapes]
    exact h
  | calls callee => trivial
  | binds b => trivial

theorem Absorbed.absorb_unchanged {e : Effect} (h : r.Absorbed key e) :
    Unchanged r (r.absorb false key e) := by
  cases e with
  | calls callee => exact ⟨rfl, rfl, rfl, fun _ => Iff.rfl⟩
  | breach i =>
    obtain ⟨hm, hn, -⟩ | ⟨-, he⟩ := blame_cases r key i
    · rw [h.2 hm] at hn
      cases hn
    · rw [absorb, he]
      exact ⟨rfl, rfl, IssueSet.add_of_mem h.1, fun _ => Iff.rfl⟩
  | binds b => exact ⟨rfl, rfl, rfl, fun _ => Iff.rfl⟩
  | passes pos callee index source =>
    obtain ⟨hesc, hissue, htaint⟩ := h
    obtain ⟨-, he⟩ | ⟨f, hf, hn, -⟩ := taint_cases
      ({ r with escapes := (pos, callee) :: r.escapes }.report
        ⟨pos, escapeMessage source callee, .pointerEscape⟩) callee index source
    · rw [absorb, he]
      refine ⟨rfl, rfl, IssueSet.add_of_mem hissue, fun site => ?_⟩
      show site ∈ (pos, callee) :: r.escapes ↔ _
      rw [List.mem_cons, or_iff_right_of_imp]
      rintro rfl
      exact hesc
    · change r.graph.get? callee = some f at hf
      have ht := htaint (CallGraph.declares_of_get? hf)
      rw [CallGraph.isTainted_of_get? hf, hn] at ht
      cases ht

theorem absorbAll_unchanged {es : List Effect} (h : ∀ e ∈ es, r.Absorbed key e) :
    Unchanged r (r.absorbAll false key es) := by
  induction es generalizing r with
  | nil => exact ⟨rfl, rfl, rfl, fun _ => Iff.rfl⟩
  | cons e es ih =>
    have hu := (h e (by simp)).absorb_unchanged
    exact hu.trans (ih fun e' hm => (h e' (List.mem_cons_of_mem _ hm)).unchanged hu)

end Run

namespace Policy

def settled (p : Policy) (u : SourceUnit) : Run := (p.walked u).run

theorem settled_valid (p : Policy) (u : SourceUnit) :
    (p.settled u).Valid ∧ Run.Settled p.watch (p.settled u) := by
  have hv := (Run.firstPass_walked p.watch u).valid
  have hs := Run.firstPass_settled p.watch u
  apply Run.rewalk_induction (P := fun r => r.Valid ∧ Run.Settled p.watch r) _ _ _ _ ⟨hv, hs⟩
  · intro r key queue f ⟨hv, hs⟩ hq hf _
    exact ⟨(Run.rewalk_walked hv hf queue).valid, hs.walk hv hq hf⟩
  · intro r key queue ⟨hv, hs⟩ hq hfault
    refine ⟨hv.with_queue queue, ?_⟩
    intro f hfun hnot e he
    have hne : f.key ≠ key := by
      rintro rfl
      obtain ⟨fault, hb⟩ := hfault f (CallGraph.get?_of_mem hv.budget.keys hfun)
      rw [(hv.sourced f hfun).bindings] at hb
      cases hb
    have hwait : f.key ∉ r.queue := by
      rw [Queue.mem_of_pop? hq, not_or]
      exact ⟨hne, hnot⟩
    exact Run.absorbed_with_queue.mpr (hs f hfun hwait e he)

theorem walked_ends (p : Policy) (u : SourceUnit) :
    (p.settled u).queue.pending = [] ∧ (p.walked u).fault? = none := by
  have hw := Run.firstPass_walked p.watch u
  have hq := hw.paid.queue
  have hz : (Run.start u).queue.pending.length = 0 := rfl
  generalize hr : Run.firstPass p.watch (.start u) = r at hw hq
  have he : p.walked u = r.taintPass p.watch := congrArg (Run.taintPass p.watch) hr
  rw [settled, he]
  exact Run.rewalk_queue _ r hw.valid (by omega)

theorem not_mem_settled_queue (p : Policy) (u : SourceUnit) (key : String) :
    key ∉ (p.settled u).queue := by
  have hq := (p.walked_ends u).1
  intro hm
  change key ∈ (p.settled u).queue.pending at hm
  simp [hq] at hm

/-- No function is left out because the fields of its parameters were not known. -/
theorem check_eq (p : Policy) (u : SourceUnit) :
    p.check u = if p.covers u.name u.path then .checked (p.findings u) else .skipped := by
  simp only [check, (p.walked_ends u).2, findings]

theorem check_eq_checked {p : Policy} {u : SourceUnit} {found : Findings}
    (h : p.check u = .checked found) : found = p.findings u := by
  rw [check_eq] at h
  split at h
  · exact (Verdict.checked.inj h).symm
  · cases h

/-- Once no parameter is newly tainted, going through any function again with what is known of its
parameters finds nothing new. -/
theorem settled_walk_unchanged (p : Policy) (u : SourceUnit) :
    (p.settled u).queue.pending = [] ∧ ∀ f ∈ (p.settled u).graph.functions,
      ∃ bindings, f.bindings = .ok bindings ∧ Run.Unchanged (p.settled u)
        ((p.settled u).walk p.watch false f (Run.seeded bindings)) := by
  obtain ⟨hv, hs⟩ := p.settled_valid u
  refine ⟨(p.walked_ends u).1, fun f hf => ⟨f.bound, (hv.sourced f hf).bindings, ?_⟩⟩
  have hu := Run.absorbAll_unchanged (hs f hf (p.not_mem_settled_queue u f.key))
  rw [Run.walk_eq]
  exact ⟨hu.graph, hu.queue, hu.issues, hu.escapes⟩

end Policy

namespace FuncDecl

def increment : FuncDecl where
  name := "increment"
  params := [{ name := "p" }]
  body := some (.mk [.incDec (.star (.ident { name := "p" }) {}) "++" { line := 1 }] {})

def update : FuncDecl where
  name := "update"
  body := some (.mk [.expr (.call (.ident { name := "increment" })
    [.unary "&" (.selector (.ident { name := "d", info := ⟨some (.named "data" "BigStruct"), {}⟩ })
      "n" {}) {}] ⟨none, { line := 2 }⟩) {}] {})

def main : FuncDecl where
  name := "main"
  body := some (.mk [.expr (.call (.ident { name := "update" }) [] ⟨none, { line := 3 }⟩) {}] {})

end FuncDecl

def SourceUnit.counter : SourceUnit where
  name := "reader"
  files := [⟨"counter.go", "reader", [.increment, .update, .main]⟩]

theorem Policy.settled_walk_unchanged_counter :
    ∃ f ∈ (settled {} .counter).graph.functions, f.tainted.isEmpty = false ∧
      ∃ bindings, f.bindings = .ok bindings ∧ Run.Unchanged (settled {} .counter)
        ((settled {} .counter).walk (watch {}) false f (Run.seeded bindings)) := by
  have h : (settled {} .counter).graph.functions.any (fun f => !f.tainted.isEmpty) = true := by
    decide +kernel
  obtain ⟨f, hf, ht⟩ := List.any_eq_true.mp h
  exact ⟨f, hf, by simpa using ht, (settled_walk_unchanged {} .counter).2 f hf⟩

end ReadGuard
