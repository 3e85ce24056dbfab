import ReadGuard.Check.Run
import ReadGuard.Proofs.CallGraph.Lookup

namespace ReadGuard

inductive Effect
  | calls (callee : String)
  | breach (i : Issue)
  | binds (b : Aliases.Bound)
  /-- A call passes a pointer to a field on, as the argument with the index. -/
  | passes (pos : Position) (callee : String) (index : Nat) (source : Expr)

namespace Effect

def ofArguments (w : Watch) (s : Aliases) (pos : Position) (callee : String) :
    Nat → List Expr → List Effect
  | _, [] => []
  | index, arg :: rest =>
    ((Run.escaping w s arg).toList.map fun source => passes pos callee index source) ++
      ofArguments w s pos callee (index + 1) rest

/-- The effects of an event. They depend on the names that hold pointers, but on nothing else that
was found before. -/
def ofEvent (w : Watch) (keyOf : Call → String) (s : Aliases) : Event → List Effect
  | .call c =>
    calls (keyOf c) :: ((w.inMethodCall c).map breach ++ (w.inBuiltinCall s c).map breach ++
      ofArguments w s c.info.pos (keyOf c) 0 c.args)
  | .assign left op right =>
    (w.inAssign s left).map breach ++
      if isPlainAssign op then (s.assignAll w.protection left right).2.map binds else []
  | .incDec x pos => (w.inIncDec s x pos).map breach
  | .declare names values => (s.assignAll w.protection (names.map .ident) values).2.map binds
  | .range key value op =>
    (w.inRange s key value op).map breach ++
      (s.assignAll w.protection (key.toList ++ value.toList) []).2.map binds

end Effect

def Event.breaches (w : Watch) (s : Aliases) : Event → List Issue
  | .call c => w.inMethodCall c ++ w.inBuiltinCall s c
  | .assign left _ _ => w.inAssign s left
  | .incDec x pos => w.inIncDec s x pos
  | .declare _ _ => []
  | .range key value op => w.inRange s key value op

def Event.rebound (w : Watch) (s : Aliases) : Event → Aliases
  | .call _ => s
  | .assign left op right =>
    if isPlainAssign op then (s.assignAll w.protection left right).1 else s
  | .incDec _ _ => s
  | .declare names values => (s.assignAll w.protection (names.map .ident) values).1
  | .range key value _ => (s.assignAll w.protection (key.toList ++ value.toList) []).1

def Effect.ofEvents (w : Watch) (keyOf : Call → String) : Aliases → List Event → List Effect
  | _, [] => []
  | s, e :: es => ofEvent w keyOf s e ++ ofEvents w keyOf (e.rebound w s) es

namespace Effect

variable {w : Watch} {keyOf : Call → String} {s : Aliases} {event : Event} {i : Issue}
  {pos : Position} {callee : String} {index : Nat} {source : Expr}

theorem passes_mem_ofArguments {pos' : Position} {key : String} {n : Nat} {args : List Expr} :
    passes pos callee index source ∈ ofArguments w s pos' key n args ↔
      pos = pos' ∧ callee = key ∧ ∃ k arg, index = n + k ∧ args[k]? = some arg ∧
        Run.escaping w s arg = some source := by
  induction args generalizing n with
  | nil => simp [ofArguments]
  | cons arg rest ih =>
    rw [ofArguments, List.mem_append, ih, List.mem_map]
    constructor
    · rintro (⟨a, ha, he⟩ | ⟨hp, hc, k, b, hk, hb, hs⟩)
      · cases he
        exact ⟨rfl, rfl, 0, arg, rfl, rfl, Option.mem_toList.mp ha⟩
      · exact ⟨hp, hc, k + 1, b, by omega, hb, hs⟩
    · rintro ⟨rfl, rfl, k, b, hk, hb, hs⟩
      cases k with
      | zero =>
        rw [List.getElem?_cons_zero, Option.some.injEq] at hb
        subst hb hk
        exact .inl ⟨source, Option.mem_toList.mpr hs, rfl⟩
      | succ k => exact .inr ⟨rfl, rfl, k, b, by omega, by simpa using hb, hs⟩

theorem breach_not_mem_ofArguments {n : Nat} {args : List Expr} :
    breach i ∉ ofArguments w s pos callee n args := by
  induction args generalizing n with
  | nil => simp [ofArguments]
  | cons arg rest ih => simp [ofArguments, ih]

/-- Only calls pass pointers on. -/
theorem passes_mem_ofEvent : passes pos callee index source ∈ ofEvent w keyOf s event ↔
    ∃ c arg, event = .call c ∧ pos = c.info.pos ∧ callee = keyOf c ∧ c.args[index]? = some arg ∧
      Run.escaping w s arg = some source := by
  cases event with
  | call c =>
    simp [ofEvent, passes_mem_ofArguments]
  | assign left op right =>
    simp only [ofEvent, List.mem_append, List.mem_map]
    split <;> simp
  | incDec x pos => simp [ofEvent]
  | declare names values => simp [ofEvent]
  | range key value op => simp [ofEvent]

theorem breach_mem_ofEvent :
    breach i ∈ ofEvent w keyOf s event ↔ i ∈ event.breaches w s := by
  cases event with
  | call c =>
    have hn : breach i ∉ ofArguments w s c.info.pos (keyOf c) 0 c.args := breach_not_mem_ofArguments
    simp [ofEvent, Event.breaches, hn]
  | assign left op right =>
    simp only [ofEvent, Event.breaches, List.mem_append, List.mem_map]
    split <;> simp
  | incDec x pos => simp [ofEvent, Event.breaches]
  | declare names values => simp [ofEvent, Event.breaches]
  | range key value op => simp [ofEvent, Event.breaches]

end Effect

namespace Queue

variable {q rest : Queue} {key k : String}

theorem mem_push : k ∈ q.push key ↔ k = key ∨ k ∈ q := by
  change k ∈ (q.push key).pending ↔ k = key ∨ k ∈ q.pending
  unfold push
  split
  · case isTrue h =>
    rw [q.agree] at h
    exact ⟨.inr, fun hk => hk.elim (fun he => he ▸ h) id⟩
  · simp [or_comm]

theorem length_push (q : Queue) (key : String) :
    (q.push key).pending.length ≤ q.pending.length + 1 := by
  unfold push
  split <;> simp

theorem pop?_eq_none_iff : q.pop? = none ↔ q.pending = [] := by
  unfold pop?
  split <;> simp_all

theorem pending_of_pop? (h : q.pop? = some (key, rest)) : q.pending = key :: rest.pending := by
  unfold pop? at h
  split at h
  · cases h
  · case h_2 hq =>
    cases h
    exact hq

theorem mem_of_pop? (h : q.pop? = some (key, rest)) : k ∈ q ↔ k = key ∨ k ∈ rest := by
  change k ∈ q.pending ↔ k = key ∨ k ∈ rest.pending
  rw [pending_of_pop? h, List.mem_cons]

end Queue

namespace Run

theorem blame_cases (r : Run) (key : String) (i : Issue) :
    (i.rule.mutates = true ∧ r.graph.modifies key = false ∧ r.blame key i =
      { (r.report i).note (.mutates key i) with graph := r.graph.setModifies key }) ∨
    ((i.rule.mutates = true → r.graph.modifies key = true) ∧ r.blame key i = r.report i) := by
  cases hr : i.rule.mutates <;> cases hm : r.graph.modifies key <;>
    simp [blame, report, note, hr, hm]

/-- A parameter that was tainted before or is not declared leaves the state alone; a new taint is
noted and puts its function into the queue. -/
theorem taint_cases (r : Run) (key : String) (index : Nat) (source : Expr) :
    ((∀ f, r.graph.get? key = some f → f.isTainted index = true) ∧
      r.taint key index source = r) ∨
    (∃ f, r.graph.get? key = some f ∧ f.isTainted index = false ∧ r.taint key index source =
      { r.note (.tainted key index source) with
        graph := r.graph.taint key index source
        queue := r.queue.push key }) := by
  unfold taint
  cases hf : r.graph.get? key with
  | none => exact .inl ⟨by simp, rfl⟩
  | some f =>
    cases ht : f.isTainted index with
    | true => exact .inl ⟨by simpa using ht, by simp [ht]⟩
    | false => exact .inr ⟨f, rfl, ht, by simp [ht, enqueue, note]⟩

def absorb (recording : Bool) (key : String) (r : Run) : Effect → Run
  | .calls callee => if recording then { r with graph := r.graph.recordCall key callee } else r
  | .breach i => r.blame key i
  | .binds b => r.note (.bound b.name b.field)
  | .passes pos callee index source =>
    ({ r with escapes := (pos, callee) :: r.escapes }.report
      ⟨pos, escapeMessage source callee, .pointerEscape⟩).taint callee index source

def absorbAll (recording : Bool) (key : String) (r : Run) (effects : List Effect) : Run :=
  effects.foldl (absorb recording key) r

section Absorb

variable (recording : Bool) (key : String) (r : Run)

theorem absorbAll_append (es es' : List Effect) :
    r.absorbAll recording key (es ++ es') =
      (r.absorbAll recording key es).absorbAll recording key es' :=
  List.foldl_append

theorem absorbAll_breach (issues : List Issue) :
    r.absorbAll recording key (issues.map .breach) = r.blameAll key issues :=
  List.foldl_map

theorem absorbAll_binds (bounds : List Aliases.Bound) :
    r.absorbAll recording key (bounds.map .binds) = { r with
      notes := bounds.foldl (fun notes b => notes.push (.bound b.name b.field)) r.notes } := by
  induction bounds generalizing r with
  | nil => rfl
  | cons b bounds ih => exact ih (r.note (.bound b.name b.field))

theorem absorb_aliases (s : Aliases) (e : Effect) :
    absorb recording key { r with aliases := s } e =
      { r.absorb recording key e with aliases := s } := by
  cases e with
  | calls callee => cases recording <;> rfl
  | breach i =>
    cases hr : i.rule.mutates <;> cases hm : r.graph.modifies key <;>
      simp [absorb, blame, report, note, hr, hm]
  | binds b => rfl
  | passes pos callee index source =>
    cases hf : r.graph.get? callee with
    | none => simp [absorb, taint, report, note, hf]
    | some f =>
      cases ht : f.isTainted index <;> simp [absorb, taint, report, note, enqueue, hf, ht]

theorem absorbAll_aliases (s : Aliases) (es : List Effect) :
    absorbAll recording key { r with aliases := s } es =
      { r.absorbAll recording key es with aliases := s } := by
  induction es generalizing r with
  | nil => rfl
  | cons e es ih =>
    simp only [absorbAll, List.foldl_cons] at ih ⊢
    rw [absorb_aliases, ih]

theorem aliases_absorb (e : Effect) : (r.absorb recording key e).aliases = r.aliases := by
  rw [absorb_aliases recording key r r.aliases e]

theorem aliases_absorbAll (es : List Effect) :
    (r.absorbAll recording key es).aliases = r.aliases := by
  rw [absorbAll_aliases recording key r r.aliases es]

theorem sameUnit_absorb (e : Effect) :
    r.graph.SameUnit (r.absorb recording key e).graph := by
  cases e with
  | calls callee =>
    cases recording
    · exact .refl _
    · exact .recordCall _ _ _
  | breach i =>
    obtain ⟨-, -, he⟩ | ⟨-, he⟩ := blame_cases r key i
    · rw [absorb, he]
      exact .setModifies _ _
    · rw [absorb, he]
      exact .refl _
  | binds b => exact .refl _
  | passes pos callee index source =>
    obtain ⟨-, he⟩ | ⟨f, -, -, he⟩ := taint_cases _ callee index source
    · rw [absorb, he]
      exact .refl _
    · rw [absorb, he]
      exact .taint _ _ _ _

theorem sameUnit_absorbAll (es : List Effect) :
    r.graph.SameUnit (r.absorbAll recording key es).graph := by
  induction es generalizing r with
  | nil => exact .refl _
  | cons e es ih => exact (sameUnit_absorb recording key r e).trans (ih _)

theorem passArguments_eq (w : Watch) (pos : Position) (callee : String) (index : Nat)
    (args : List Expr) : passArguments w pos callee index args r =
      r.absorbAll recording key (Effect.ofArguments w r.aliases pos callee index args) := by
  induction args generalizing index r with
  | nil => rfl
  | cons arg rest ih =>
    simp only [passArguments, passArgument, Effect.ofArguments, absorbAll_append]
    cases he : escaping w r.aliases arg with
    | none => exact ih r (index + 1)
    | some source =>
      have ha := aliases_absorb recording key r (.passes pos callee index source)
      simp only [absorb] at ha
      rw [ih, ha]
      rfl

theorem aliases_blameAll (issues : List Issue) : (r.blameAll key issues).aliases = r.aliases := by
  rw [← absorbAll_breach false, aliases_absorbAll]

theorem call_eq (w : Watch) (c : Call) : r.call w recording key c =
    r.absorbAll recording key (Effect.ofEvent w r.graph.calleeKey r.aliases (.call c)) := by
  have ha := aliases_absorb recording key r (.calls (r.graph.calleeKey c))
  simp only [Effect.ofEvent, absorbAll, List.foldl_cons]
  simp only [← absorbAll.eq_1, absorbAll_append, absorbAll_breach]
  simp only [absorb] at ha ⊢
  simp only [call, passArguments_eq recording key, aliases_blameAll, ha]

theorem rebind_eq (result : Aliases × List Aliases.Bound) : r.rebind result =
    { r.absorbAll recording key (result.2.map .binds) with aliases := result.1 } := by
  rw [absorbAll_binds]
  rfl

theorem with_same_aliases {r : Run} {s : Aliases} (h : r.aliases = s) :
    { r with aliases := s } = r := by
  rw [← h]

theorem step_eq (w : Watch) (e : Event) : r.step w recording key e =
    { r.absorbAll recording key (Effect.ofEvent w r.graph.calleeKey r.aliases e) with
      aliases := e.rebound w r.aliases } := by
  cases e with
  | call c =>
    rw [step, call_eq, Event.rebound]
    exact (with_same_aliases (aliases_absorbAll recording key r _)).symm
  | assign left op right =>
    cases hp : isPlainAssign op with
    | true => simp [step, Effect.ofEvent, Event.rebound, hp, rebind_eq recording key,
        absorbAll_append, absorbAll_breach, aliases_blameAll]
    | false =>
      simp only [step, Effect.ofEvent, Event.rebound, hp, Bool.false_eq_true, if_false,
        List.append_nil, absorbAll_breach]
      exact (with_same_aliases (aliases_blameAll key r _)).symm
  | incDec x pos =>
    simp only [step, Effect.ofEvent, Event.rebound, absorbAll_breach]
    exact (with_same_aliases (aliases_blameAll key r _)).symm
  | declare names values =>
    simp [step, Effect.ofEvent, Event.rebound, rebind_eq recording key]
  | range k value op =>
    simp [step, Effect.ofEvent, Event.rebound, rebind_eq recording key, absorbAll_append,
      absorbAll_breach, aliases_blameAll]

/-- Going through events leaves the effects of all of them. The keys of calls do not change on the
way, so they can be read off the graph at the start. -/
theorem steps_eq (w : Watch) {keyOf : Call → String} (hk : r.graph.calleeKey = keyOf)
    (events : List Event) : events.foldl (step w recording key) r =
      { r.absorbAll recording key (Effect.ofEvents w keyOf r.aliases events) with
        aliases := events.foldl (fun s e => e.rebound w s) r.aliases } := by
  induction events generalizing r with
  | nil => rfl
  | cons e es ih =>
    have hu := sameUnit_absorbAll recording key r (Effect.ofEvent w keyOf r.aliases e)
    rw [List.foldl_cons, step_eq, hk, ih]
    · simp only [Effect.ofEvents, absorbAll_append, absorbAll_aliases, List.foldl_cons]
    · rw [← hk] at hu ⊢
      exact funext hu.calleeKey

end Absorb

def effectsOf (w : Watch) (g : CallGraph) (f : FuncRecord) (s : Aliases) : List Effect :=
  Effect.ofEvents w g.calleeKey s f.decl.events

theorem walk_eq (w : Watch) (recording : Bool) (r : Run) (f : FuncRecord) (s : Aliases) :
    r.walk w recording f s = { r.absorbAll recording f.key (effectsOf w r.graph f s) with
      aliases := f.decl.events.foldl (fun s e => e.rebound w s) s } := by
  rw [walk, steps_eq recording f.key _ w rfl, absorbAll_aliases]
  rfl

/-- The effects of a function do not depend on what is known of the functions. -/
theorem effectsOf_congr (w : Watch) {g g' : CallGraph} (h : g.SameUnit g') {f f' : FuncRecord}
    (hd : f'.decl = f.decl) (s : Aliases) : effectsOf w g' f' s = effectsOf w g f s := by
  have hk : g'.calleeKey = g.calleeKey := funext h.calleeKey
  rw [effectsOf, effectsOf, hk, hd]

end Run

end ReadGuard
