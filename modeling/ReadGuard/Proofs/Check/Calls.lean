import ReadGuard.Proofs.Check.Induction
import ReadGuard.Proofs.Code.Evaluation

namespace ReadGuard

def Event.called (keyOf : Call → String) : Event → List String
  | .call c => [keyOf c]
  | _ => []

def Effect.called : Effect → List String
  | .calls callee => [callee]
  | _ => []

namespace Effect

theorem called_ofArguments (w : Watch) (s : Aliases) (pos : Position) (callee : String)
    (index : Nat) (args : List Expr) :
    (ofArguments w s pos callee index args).flatMap called = [] := by
  induction args generalizing index with
  | nil => rfl
  | cons arg rest ih =>
    rw [ofArguments, List.flatMap_append, ih, List.append_nil, List.flatMap_map]
    simp [called]

theorem called_ofEvent (w : Watch) (keyOf : Call → String) (s : Aliases) (event : Event) :
    (ofEvent w keyOf s event).flatMap called = event.called keyOf := by
  cases event with
  | call c =>
    simp only [ofEvent, List.flatMap_cons, List.flatMap_append, List.flatMap_map,
      called_ofArguments]
    simp [called, Event.called]
  | assign left op right =>
    simp only [ofEvent, List.flatMap_append, List.flatMap_map]
    split <;> simp [called, Event.called, List.flatMap_map]
  | incDec x pos => simp [ofEvent, List.flatMap_map, called, Event.called]
  | declare names values => simp [ofEvent, List.flatMap_map, called, Event.called]
  | range key value op => simp [ofEvent, List.flatMap_map, called, Event.called]

/-- Which keys a function calls does not depend on its names. -/
theorem called_ofEvents (w : Watch) (keyOf : Call → String) (s : Aliases) (events : List Event) :
    (ofEvents w keyOf s events).flatMap called = events.flatMap (Event.called keyOf) := by
  induction events generalizing s with
  | nil => rfl
  | cons event events ih =>
    rw [ofEvents, List.flatMap_append, called_ofEvent, ih, List.flatMap_cons]

end Effect

def Block.callsInOrder (b : Block) : List Call :=
  (Node.stmt (.block b)).preorder.filterMap Node.call?

theorem Block.calls_eq_callsInOrder (b : Block) : b.calls = b.callsInOrder := by
  rw [Block.calls, Node.calls, Node.walk_eq_preorder]
  rfl

namespace CallGraph

def callsOf (g : CallGraph) (key : String) : List String :=
  g.known (·.calls) [] key

theorem callsOf_of_get? {g : CallGraph} {key : String} {f : FuncRecord}
    (h : g.get? key = some f) : g.callsOf key = f.calls :=
  known_of_get? h _ _

theorem callsOf_recordCall (g : CallGraph) (caller callee k : String) :
    (g.recordCall caller callee).callsOf k =
      g.callsOf k ++ if k = caller ∧ g.declares k = true then [callee] else [] := by
  have hg := @get?_update g caller (fun f => { f with calls := f.calls ++ [callee] })
    (fun _ => rfl) k
  unfold callsOf known recordCall declares
  rw [hg]
  by_cases hk : k = caller <;> cases g.get? k <;> simp [hk]

/-- A call is the first one of a key in the body of a function. -/
def FirstCall (g : CallGraph) (f : FuncRecord) (key : String) (c : Call) : Prop :=
  g.calleeKey c = key ∧ ∃ body before after, f.decl.body = some body ∧
    body.callsInOrder = before ++ c :: after ∧ ∀ c' ∈ before, g.calleeKey c' ≠ key

theorem firstCall_of_findCall? {g : CallGraph} {f : FuncRecord} {key : String} {c : Call}
    (h : g.findCall? f key = some c) : g.FirstCall f key c := by
  unfold findCall? at h
  cases hb : f.decl.body with
  | none => simp [hb] at h
  | some body =>
    simp only [hb, body.calls_eq_callsInOrder, List.find?_eq_some_iff_append] at h
    obtain ⟨hkey, before, after, hcalls, hbefore⟩ := h
    refine ⟨by simpa using hkey, body, before, after, hb, hcalls, ?_⟩
    intro c' hc'
    simpa using hbefore c' hc'

end CallGraph

namespace Run

theorem callsOf_absorb (recording : Bool) (key : String) (r : Run) (e : Effect) (k : String) :
    (r.absorb recording key e).graph.callsOf k = r.graph.callsOf k ++
      if recording = true ∧ k = key ∧ r.graph.declares k = true then e.called else [] := by
  cases e with
  | calls callee =>
    cases recording with
    | false => simp [absorb]
    | true => simpa [absorb, Effect.called] using r.graph.callsOf_recordCall key callee k
  | breach i =>
    obtain ⟨-, -, he⟩ | ⟨-, he⟩ := blame_cases r key i
    · have hc : (r.graph.setModifies key).callsOf k = r.graph.callsOf k := by
        apply CallGraph.known_update <;> intro f <;> rfl
      rw [absorb, he]
      simpa [Effect.called] using hc
    · rw [absorb, he]
      simp [Effect.called, report, note]
  | binds b => simp [absorb, Effect.called, note]
  | passes pos callee index source =>
    obtain ⟨-, he⟩ | ⟨f, -, -, he⟩ := taint_cases
      ({ r with escapes := (pos, callee) :: r.escapes }.report
        ⟨pos, escapeMessage source callee, .pointerEscape⟩) callee index source
    · rw [absorb, he]
      simp [Effect.called, report, note]
    · have hc : (r.graph.taint callee index source).callsOf k = r.graph.callsOf k := by
        apply CallGraph.known_update <;> intro f <;> unfold FuncRecord.taint <;> split <;> rfl
      rw [absorb, he]
      simpa [Effect.called, report, note] using hc

theorem callsOf_absorbAll (recording : Bool) (key : String) (r : Run) (es : List Effect)
    (k : String) : (r.absorbAll recording key es).graph.callsOf k = r.graph.callsOf k ++
      if recording = true ∧ k = key ∧ r.graph.declares k = true then es.flatMap Effect.called
      else [] := by
  induction es generalizing r with
  | nil => simp [absorbAll]
  | cons e es ih =>
    have h := ih (r.absorb recording key e)
    rw [callsOf_absorb, (sameUnit_absorb recording key r e).declares] at h
    rw [absorbAll, List.foldl_cons]
    rw [absorbAll] at h
    rw [h]
    split <;> simp

variable {w : Watch}

theorem callsOf_walk (recording : Bool) (r : Run) (f : FuncRecord) (s : Aliases) (k : String) :
    (r.walk w recording f s).graph.callsOf k = r.graph.callsOf k ++
      if recording = true ∧ k = f.key ∧ r.graph.declares k = true then
        f.decl.events.flatMap (Event.called r.graph.calleeKey)
      else [] := by
  rw [walk_eq]
  have h := callsOf_absorbAll recording f.key r (effectsOf w r.graph f s) k
  rwa [effectsOf, Effect.called_ofEvents] at h

theorem callsOf_walks_of_not_mem {k : String} (fs : List FuncRecord) (r : Run)
    (hk : k ∉ fs.map (·.key)) :
    (fs.foldl (fun r f => r.walk w true f {}) r).graph.callsOf k = r.graph.callsOf k := by
  induction fs generalizing r with
  | nil => rfl
  | cons f fs ih =>
    rw [List.map_cons, List.mem_cons, not_or] at hk
    rw [List.foldl_cons, ih _ hk.2, callsOf_walk]
    simp [hk.1]

theorem callsOf_walks {fs : List FuncRecord} (hn : (fs.map (·.key)).Nodup) {r : Run}
    {f : FuncRecord} (hf : f ∈ fs) (hd : r.graph.declares f.key = true) :
    (fs.foldl (fun r f => r.walk w true f {}) r).graph.callsOf f.key =
      r.graph.callsOf f.key ++ f.decl.events.flatMap (Event.called r.graph.calleeKey) := by
  induction fs generalizing r with
  | nil => simp at hf
  | cons a fs ih =>
    rw [List.map_cons, List.nodup_cons] at hn
    have hu : r.graph.SameUnit (r.walk w true a {}).graph := by
      rw [walk_eq]
      exact sameUnit_absorbAll true a.key r _
    have ha := callsOf_walk (w := w) true r a {} f.key
    rw [List.foldl_cons]
    rcases List.mem_cons.mp hf with rfl | hf
    · rw [callsOf_walks_of_not_mem fs _ hn.1, ha]
      simp [hd]
    · have hne : f.key ≠ a.key := fun he => hn.1 (he ▸ List.mem_map_of_mem hf)
      have hk : (r.walk w true a {}).graph.calleeKey = r.graph.calleeKey := funext hu.calleeKey
      rw [ih hn.2 hf (by rwa [hu.declares]), ha, hk]
      simp [hne]

end Run

namespace Policy

theorem settled_sameUnit (p : Policy) (u : SourceUnit) :
    (CallGraph.ofUnit u).SameUnit (p.settled u).graph := by
  have h : Run.Kept p.watch (fun _ _ => True) fun r => (CallGraph.ofUnit u).SameUnit r.graph :=
    { frame := fun _ _ _ h => h
      absorb := fun r recording f _ _ e _ h _ _ _ _ =>
        h.trans (Run.sameUnit_absorb recording f.key r e)
      first := fun _ => trivial
      again := fun _ _ _ _ _ => trivial }
  exact h.settled u (.refl _)

/-- What a function was found to call are the keys of the calls in it, in order. -/
theorem settled_calls (p : Policy) (u : SourceUnit) {f : FuncRecord}
    (hf : f ∈ (p.settled u).graph.functions) :
    f.calls = f.decl.events.flatMap (Event.called (p.settled u).graph.calleeKey) := by
  have hu := p.settled_sameUnit u
  have hb := CallGraph.blank_ofUnit u
  have hget := CallGraph.get?_of_mem (p.settled_valid u).1.budget.keys hf
  obtain ⟨f₀, hget₀, hk, hd⟩ := hu.symm.get?_decl hget
  have hf₀ := CallGraph.get?_mem hget₀
  -- the first pass records the calls, and going through functions again records none
  have hfirst := Run.callsOf_walks (w := p.watch) hb.keys (r := .start u) hf₀
    (CallGraph.declares_of_get? (CallGraph.get?_of_mem hb.keys hf₀))
  have hagain : ∀ k, (p.settled u).graph.callsOf k =
      (Run.firstPass p.watch (.start u)).graph.callsOf k := by
    intro k
    refine Run.rewalk_induction (P := fun r => r.graph.callsOf k = _) ?_ ?_ _ _ rfl
    · intro r key queue a hr _ _ _
      rw [Run.callsOf_walk]
      simpa using hr
    · intro r key queue hr _ _
      exact hr
  have hnone : f₀.calls = [] := by rw [hb.functions f₀ hf₀]
  have hsame : (p.settled u).graph.calleeKey = (CallGraph.ofUnit u).calleeKey :=
    funext hu.calleeKey
  calc f.calls = (p.settled u).graph.callsOf f.key := (CallGraph.callsOf_of_get? hget).symm
    _ = (Run.firstPass p.watch (.start u)).graph.callsOf f.key := hagain f.key
    _ = (CallGraph.ofUnit u).callsOf f.key ++
        f.decl.events.flatMap (Event.called (CallGraph.ofUnit u).calleeKey) := by
      rw [← hk, ← hd]
      exact hfirst
    _ = _ := by
      rw [CallGraph.callsOf_of_get? hget₀, hnone, hsame, List.nil_append]

theorem settled_findCall? (p : Policy) (u : SourceUnit) {f : FuncRecord} {key : String}
    (hf : f ∈ (p.settled u).graph.functions) (hc : key ∈ f.calls) :
    ∃ c, (p.settled u).graph.findCall? f key = some c := by
  rw [p.settled_calls u hf, List.mem_flatMap] at hc
  obtain ⟨event, he, hkey⟩ := hc
  cases event with
  | call c =>
    rw [Event.called, List.mem_singleton] at hkey
    cases hb : f.decl.body with
    | none => simp [FuncDecl.events, hb] at he
    | some body =>
      have hm : c ∈ body.calls := FuncDecl.call_mem_calls hb he
      rw [CallGraph.findCall?, hb, ← Option.isSome_iff_exists, List.find?_isSome]
      exact ⟨c, hm, by simp [hkey]⟩
  | _ => simp [Event.called] at hkey

end Policy

end ReadGuard
