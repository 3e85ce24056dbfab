import ReadGuard.Proofs.Check.Reached

namespace ReadGuard

namespace CallGraph

theorem Spread.taints {g g' : CallGraph} (h : Spread g g') : g'.taints = g.taints := by
  have hf := h.functions
  unfold CallGraph.taints
  generalize g.functions = fs, g'.functions = fs' at hf
  induction hf with
  | nil => rfl
  | cons ha _ ih => rw [List.flatMap_cons, List.flatMap_cons, ih, (Prod.mk.inj ha.received).1,
      ha.key]

end CallGraph

namespace FuncRecord

/-- A field is known for each tainted parameter and for no other, and a call that passed a pointer
to it on was reported. -/
structure Traced (issues : List Issue) (f : FuncRecord) : Prop extends Sourced f where
  escapes : ∀ s ∈ f.sources, ∃ pos, Run.escapeIssue pos s.2 f.key ∈ issues

namespace Traced

variable {issues : List Issue} {f f' : FuncRecord}

theorem of_untainted (ht : f.tainted = []) (hs : f.sources = []) : f.Traced issues :=
  ⟨.of_untainted ht hs, by simp [hs]⟩

theorem congr (h : f.Traced issues) (hk : f'.key = f.key) (hr : f'.received = f.received) :
    f'.Traced issues := by
  refine ⟨h.toSourced.congr hr, ?_⟩
  rw [(Prod.mk.inj hr).2, hk]
  exact h.escapes

theorem mono (h : f.Traced issues) {issues' : List Issue} (hi : issues ⊆ issues') :
    f.Traced issues' := by
  refine ⟨h.toSourced, fun s hs => ?_⟩
  obtain ⟨pos, hp⟩ := h.escapes s hs
  exact ⟨pos, hi hp⟩

theorem taint (h : f.Traced issues) (index : Nat) {pos : Position} {source : Expr}
    (hp : Run.escapeIssue pos source f.key ∈ issues) : (f.taint index source).Traced issues := by
  refine ⟨h.toSourced.taint index source, fun s hs => ?_⟩
  rw [key_taint]
  obtain hs | rfl := mem_sources_taint hs
  · exact h.escapes s hs
  · exact ⟨pos, hp⟩

end Traced

end FuncRecord

theorem Action.effects_proper {w : Watch} {s : Aliases} {a : Action} {e : Effect}
    (h : e ∈ a.effects w s) : e.Proper := by
  cases a with
  | judges event =>
    obtain ⟨i, hi, rfl⟩ := List.mem_map.mp h
    have hb : .breach i ∈ Effect.ofEvent w (fun _ => "") s event := Effect.breach_mem_ofEvent.mpr hi
    exact Effect.ofEvent_proper hb
  | calls callee =>
    rw [List.mem_singleton.mp h]
    trivial
  | passes pos callee index arg =>
    obtain ⟨source, -, rfl⟩ := List.mem_map.mp h
    trivial
  | assigns target value =>
    obtain ⟨b, -, rfl⟩ := List.mem_map.mp h
    trivial
  | seeds name source => cases h

namespace Run

variable {r r' : Run}

structure Traced (r : Run) : Prop where
  worded : r.issues.Worded
  functions : ∀ f ∈ r.graph.functions, f.Traced r.issues.issues

namespace Traced

theorem absorb (h : r.Traced) {e : Effect} (he : e.Proper) (recording : Bool) (key : String) :
    (r.absorb recording key e).Traced := by
  have hi := (grows_absorb recording key r e).issues
  refine ⟨worded_absorb h.worded he recording key, fun f hf => ?_⟩
  obtain ⟨f₀, hf₀, hk, hs | ⟨pos, index, source, rfl, hs⟩⟩ := mem_functions_absorb hf
  · exact ((h.functions f₀ hf₀).congr hk hs).mono hi
  · -- the call is reported before the parameter is marked
    have hp : escapeIssue pos source f₀.key ∈
        (r.absorb recording key (.passes pos f₀.key index source)).issues.issues := by
      rw [(reported_absorb _ _ _ _).1]
      exact (h.worded.mem_add (escapeIssue_worded pos source f₀.key)).mpr (.inr rfl)
    exact (((h.functions f₀ hf₀).mono hi).taint index hp).congr
      (hk.trans (f₀.key_taint _ _).symm) hs

theorem absorbAll (h : r.Traced) {es : List Effect} (he : ∀ e ∈ es, e.Proper)
    (recording : Bool) (key : String) : (r.absorbAll recording key es).Traced := by
  induction es generalizing r with
  | nil => exact h
  | cons e es ih =>
    rw [List.forall_mem_cons] at he
    exact ih (h.absorb he.1 recording key) he.2

theorem act (h : r.Traced) (w : Watch) (recording : Bool) (key : String) (a : Action) :
    (r.act w recording key a).Traced := by
  have hp : ∀ e ∈ a.effects w r.aliases, e.Proper := fun e he => Action.effects_proper he
  have ha := h.absorbAll hp recording key
  rw [act_eq]
  exact ⟨ha.worded, ha.functions⟩

end Traced

theorem issues_subset_foldl_report (found : List Issue) (r : Run) :
    r.issues.issues ⊆ (found.foldl report r).issues.issues := by
  induction found generalizing r with
  | nil => exact fun _ h => h
  | cons i found ih => exact List.Subset.trans (grows_report r i).issues (ih _)

end Run

namespace Policy

theorem stepwise_traced (p : Policy) (u : SourceUnit) : p.Stepwise u Run.Traced where
  declared decls := by
    have hb := (CallGraph.blank_empty u.name u.path).registerAll decls
    refine ⟨by simp [IssueSet.Worded], fun f hf => ?_⟩
    rw [hb.functions f hf]
    exact .of_untainted rfl rfl
  queued r queue h := ⟨h.worded, h.functions⟩
  begun r h := ⟨h.worded, h.functions⟩
  seeded r recording f h _ b _ := h.act _ recording f.key _
  acted r recording h _ f _ a _ := h.act _ recording f.key a

/-- While the marks spread, issues come in addition and nothing changes for the parameters. -/
theorem reached_traced {p : Policy} {u : SourceUnit} {r : Run} (h : p.Reached u r)
    {f : FuncRecord} (hf : f ∈ r.graph.functions) : f.Traced r.issues.issues := by
  obtain hr | ⟨hs, g, found, hg, rfl⟩ := (p.stepwise_traced u).reached h
  · exact hr.functions f hf
  rw [(Run.foldl_report_frame found _).2] at hf
  obtain ⟨f₀, hf₀, hff⟩ := hg.exists_of_mem hf
  exact ((hs.functions f₀ hf₀).congr hff.key hff.received).mono
    (Run.issues_subset_foldl_report found { p.settled u with graph := g })

end Policy

namespace Run

variable {w : Watch}

/-- The queue is served until it is empty, however long that takes; the functions with the keys are
gone through again on the way. -/
inductive Rewalks (w : Watch) : Run → List String → Run → Prop
  | done {r : Run} (hq : r.queue.pending = []) : Rewalks w r [] r
  | skip {r r' : Run} {key : String} {queue : Queue} {keys : List String}
      (hq : r.queue.pop? = some (key, queue)) (hf : r.graph.get? key = none)
      (h : Rewalks w { r with queue := queue } keys r') : Rewalks w r keys r'
  | again {r r' : Run} {key : String} {queue : Queue} {keys : List String} {f : FuncRecord}
      {bindings : List (String × Expr)} (hq : r.queue.pop? = some (key, queue))
      (hf : r.graph.get? key = some f) (hb : f.bindings = .ok bindings)
      (h : Rewalks w ({ r with queue := queue }.walk w false f (seeded bindings)) keys r') :
      Rewalks w r (key :: keys) r'

/-- A pass that was not cut short is one without a limit. -/
theorem rewalks_of_queue (limit : Nat) (r : Run) (h : (rewalk w limit r).run.queue.pending = [])
    (hn : (rewalk w limit r).fault? = none) :
    ∃ keys, Rewalks w r keys (rewalk w limit r).run ∧
      keys.length = (rewalk w limit r).count := by
  induction limit generalizing r with
  | zero => exact ⟨[], .done h, rfl⟩
  | succ limit ih =>
    obtain ⟨hq, he⟩ | ⟨key, queue, hq, hf, he⟩ | ⟨key, queue, f, hq, hf, hb, he⟩ |
      ⟨key, queue, f, fault, -, -, -, he⟩ := rewalk_cases w limit r
    · rw [he]
      exact ⟨[], .done hq, rfl⟩
    · rw [he] at h hn ⊢
      obtain ⟨keys, hk, hl⟩ := ih _ h hn
      exact ⟨keys, .skip hq hf hk, hl⟩
    · rw [he] at h hn ⊢
      obtain ⟨keys, hk, hl⟩ := ih _ h hn
      exact ⟨key :: keys, .again hq hf hb hk, by rw [List.length_cons, hl]⟩
    · rw [he] at hn
      cases hn

namespace Rewalks

variable {keys : List String}

/-- Every function that is gone through again is paid for by a tainted parameter. -/
theorem length_le (h : Rewalks w r keys r') (hv : r.Valid) :
    keys.length + r.graph.taints.length ≤ r.queue.pending.length + r'.graph.taints.length := by
  induction h with
  | done hq => simp
  | @skip r r' key queue keys hq hf h ih =>
    have hl := ih (hv.with_queue queue)
    rw [Queue.pending_of_pop? hq, List.length_cons]
    dsimp only at hl
    omega
  | @again r r' key queue keys f bindings hq hf hb h ih =>
    obtain rfl := FuncRecord.bindings_eq_bound hb
    have hw : Walked w { r with queue := queue } f (seeded f.bound) _ := rewalk_walked hv hf queue
    have hp := hw.paid.queue
    have hl := ih hw.valid
    rw [Queue.pending_of_pop? hq, List.length_cons, List.length_cons]
    dsimp only at hp
    omega

/-- A function that waits, or that is newly tainted on the way, is gone through again. -/
theorem mem_keys (h : Rewalks w r keys r') (hv : r.Valid) {k : String}
    (hd : r.graph.declares k = true)
    (hk : k ∈ r.queue ∨ r'.graph.received k ≠ r.graph.received k) : k ∈ keys := by
  induction h with
  | @done r hq =>
    obtain hm | hne := hk
    · change k ∈ r.queue.pending at hm
      simp [hq] at hm
    · exact absurd rfl hne
  | @skip r r' key queue keys hq hf h ih =>
    apply ih (hv.with_queue queue) hd
    rw [Queue.mem_of_pop? hq] at hk
    obtain (rfl | hm) | hne := hk
    · rw [CallGraph.declares, hf] at hd
      cases hd
    · exact .inl hm
    · exact .inr hne
  | @again r r' key queue keys f bindings hq hf hb h ih =>
    obtain rfl := FuncRecord.bindings_eq_bound hb
    have hw : Walked w { r with queue := queue } f (seeded f.bound) _ := rewalk_walked hv hf queue
    have hd' := (hw.grows.sameUnit.declares k).trans hd
    by_cases hself : k = key
    · exact hself ▸ List.mem_cons_self
    apply List.mem_cons_of_mem
    apply ih hw.valid hd'
    rw [Queue.mem_of_pop? hq, or_iff_right hself] at hk
    obtain hm | hne := hk
    · exact .inl (hw.grows.queue hm)
    · -- what changed did so in this walk, and then it waits again, or later
      obtain hs | hm := hw.grows.requeued k
      · exact .inr (hs ▸ hne)
      · exact .inl hm

end Rewalks

end Run

namespace Policy

section Count

variable (p : Policy) (u : SourceUnit)

theorem settled_rewalks :
    ∃ keys, Run.Rewalks p.watch (Run.firstPass p.watch (.start u)) keys (p.settled u) ∧
      keys.length = (p.findings u).rewalks :=
  Run.rewalks_of_queue _ _ (p.walked_ends u).1 (p.walked_ends u).2

variable {p u} {keys : List String}

/-- No function with a tainted parameter is left out. -/
theorem mem_keys_of_tainted
    (h : Run.Rewalks p.watch (Run.firstPass p.watch (.start u)) keys (p.settled u))
    {f : FuncRecord} (hf : f ∈ (p.findings u).graph.functions) (ht : f.tainted ≠ []) :
    f.key ∈ keys := by
  have hw := Run.firstPass_walked p.watch u
  have hu : (CallGraph.ofUnit u).SameUnit (Run.firstPass p.watch (.start u)).graph :=
    hw.grows.sameUnit
  obtain ⟨f₀, hf₀, hff⟩ := (p.findings_spread u).exists_of_mem hf
  have hget := CallGraph.get?_of_mem (p.settled_valid u).1.budget.keys hf₀
  have hr : (p.settled u).graph.received f₀.key ≠ ([], []) := by
    rw [CallGraph.received_of_get? hget, ← hff.received]
    exact fun he => ht (Prod.mk.inj he).1
  rw [hff.key]
  apply h.mem_keys hw.valid
  · rw [hu.declares, ← (p.settled_sameUnit u).declares]
    exact CallGraph.declares_of_get? hget
  · by_cases hsame : (p.settled u).graph.received f₀.key =
        (Run.firstPass p.watch (.start u)).graph.received f₀.key
    · exact .inl (Run.firstPass_waiting p.watch u f₀.key (hsame ▸ hr))
    · exact .inr hsame

theorem statistics_tainted_le
    (h : Run.Rewalks p.watch (Run.firstPass p.watch (.start u)) keys (p.settled u)) :
    (p.findings u).graph.statistics.tainted ≤ keys.length := by
  have hn : (p.findings u).graph.keys.Nodup := by
    rw [(p.findings_sameUnit u).keys]
    exact (CallGraph.blank_ofUnit u).keys
  have hsublist : (((p.findings u).graph.functions.filter fun f => !f.tainted.isEmpty).map
      (·.key)).Sublist (p.findings u).graph.keys := List.filter_sublist.map _
  have hsubset : ((p.findings u).graph.functions.filter fun f => !f.tainted.isEmpty).map
      (·.key) ⊆ keys := by
    intro k hk
    obtain ⟨f, hf, rfl⟩ := List.mem_map.mp hk
    obtain ⟨hf, hs⟩ := List.mem_filter.mp hf
    exact mem_keys_of_tainted h hf (by simpa using hs)
  have hlen := (List.subperm_of_subset (hn.sublist hsublist) hsubset).length_le
  rwa [List.length_map, ← List.countP_eq_length_filter] at hlen

theorem length_le_taints
    (h : Run.Rewalks p.watch (Run.firstPass p.watch (.start u)) keys (p.settled u)) :
    keys.length ≤ (p.findings u).graph.taints.length := by
  have hw := Run.firstPass_walked p.watch u
  have hq := hw.paid.queue
  have hl := h.length_le hw.valid
  have hz : (Run.start u).queue.pending.length = 0 := rfl
  rw [(p.findings_spread u).taints]
  omega

end Count

/-- In every state of a check, the parameters of a function that a field is known for are the
tainted ones, each once, so that the names to start with can always be told, and a call that passed
a pointer to the field on was reported. No check breaks off. Going through functions again comes to
an end without any limit, and the number of times lies between the number of functions with tainted
parameters and the number of tainted parameters. -/
theorem taints_traced (p : Policy) (u : SourceUnit) :
    (∀ r, p.Reached u r → ∀ f ∈ r.graph.functions,
      f.tainted.Pairwise (· < ·) ∧ (f.sources.map Prod.fst).Perm f.tainted ∧
      (∀ index, f.isTainted index = true ↔ ∃ source, f.source? index = some source) ∧
      (f.bindings = .ok (f.tainted.filterMap fun index => (f.paramName? index).bind fun name =>
        (f.source? index).map fun source => (name, source))) ∧
      ∀ index source, f.source? index = some source →
        ∃ i ∈ r.issues.issues, i.rule = .pointerEscape ∧ i.message =
          "passing pointer to protected field " ++ source.render ++ " into function " ++ f.key) ∧
    (∀ fault, p.check u ≠ .broken fault) ∧
    (∃ keys, Run.Rewalks p.watch (Run.firstPass p.watch (.start u)) keys (p.settled u) ∧
      (p.findings u).rewalks = keys.length) ∧
    (p.findings u).graph.statistics.tainted ≤ (p.findings u).rewalks ∧
    (p.findings u).graph.taints.Nodup ∧
    (p.findings u).rewalks ≤ (p.findings u).graph.taints.length := by
  refine ⟨fun r hr f hf => ?_, fun fault => ?_, ?_⟩
  · have h := reached_traced hr hf
    refine ⟨h.sorted, h.keys, fun index => h.isTainted_iff, h.bindings, ?_⟩
    intro index source hs
    obtain ⟨pos, hp⟩ := h.escapes _ (FuncRecord.mem_sources_of_source? hs)
    exact ⟨_, hp, rfl, rfl⟩
  · rw [check_eq]
    split <;> simp
  · obtain ⟨keys, h, hl⟩ := p.settled_rewalks u
    refine ⟨⟨keys, h, hl.symm⟩, ?_, ?_, ?_⟩
    · exact hl ▸ statistics_tainted_le h
    · rw [(p.findings_spread u).taints]
      exact (p.settled_valid u).1.budget.taints
    · exact hl ▸ length_le_taints h

theorem taints_traced_counter : ∃ r, Reached {} .counter r ∧
    (∃ f ∈ r.graph.functions, ∃ index source, f.source? index = some source ∧
      ∃ i ∈ r.issues.issues, i.rule = .pointerEscape ∧ i.message =
        "passing pointer to protected field " ++ source.render ++ " into function " ++ f.key) ∧
    (findings {} .counter).rewalks = 1 := by
  have hr := reached_close {} .counter
  obtain ⟨hall, -, -, hlow, -, hhigh⟩ := taints_traced {} .counter
  have htainted : (((settled {} .counter).close (watch {})).2.graph.functions.any fun f =>
      f.isTainted 0) = true := by
    decide +kernel
  have hone : (findings {} .counter).graph.statistics.tainted = 1 ∧
      (findings {} .counter).graph.taints.length = 1 := by
    decide +kernel
  refine ⟨_, hr, ?_, by omega⟩
  obtain ⟨f, hf, ht⟩ := List.any_eq_true.mp htainted
  obtain ⟨-, -, hiff, -, hissue⟩ := hall _ hr f hf
  obtain ⟨source, hs⟩ := (hiff 0).mp ht
  exact ⟨f, hf, 0, source, hs, hissue 0 source hs⟩

end Policy

end ReadGuard
