import ReadGuard.Proofs.Check.Reports

namespace ReadGuard

def Issue.isMethodCall (i : Issue) : Bool := i.rule = .methodCall

def Effect.isMethodCall : Effect → Bool
  | .breach i => i.isMethodCall
  | _ => false

def Watch.lenient (w : Watch) : Watch := { w with strict := false }

namespace Watch

variable (w : Watch) (s : Aliases) {i : Issue}

theorem isMethodCall_inMethodCall {c : Call} (h : i ∈ w.inMethodCall c) :
    i.isMethodCall = true := by
  unfold inMethodCall at h
  split at h
  · split at h
    · split at h
      · rw [List.mem_singleton.mp h]
        rfl
      · cases h
    · cases h
  · cases h

theorem isMethodCall_written (f : WriteForm) (pos : Position) (t : WriteTarget) :
    (w.written f pos t).isMethodCall = false := by
  unfold written
  cases f <;> cases t.kind <;> rfl

theorem isMethodCall_inAssign {left : List Expr} (h : i ∈ w.inAssign s left) :
    i.isMethodCall = false := by
  obtain ⟨e, -, he⟩ := List.mem_filterMap.mp h
  obtain ⟨t, -, rfl⟩ := Option.map_eq_some_iff.mp he
  exact w.isMethodCall_written .assign e.pos t

theorem isMethodCall_inIncDec {x : Expr} {pos : Position} (h : i ∈ w.inIncDec s x pos) :
    i.isMethodCall = false := by
  obtain ⟨t, -, rfl⟩ := Option.map_eq_some_iff.mp (Option.mem_toList.mp h)
  exact w.isMethodCall_written .step pos t

theorem isMethodCall_inRange {key value : Option Expr} {op : String}
    (h : i ∈ w.inRange s key value op) : i.isMethodCall = false := by
  obtain ⟨v, -, hv⟩ := List.mem_flatMap.mp h
  unfold inLoopVariable at hv
  split at hv
  · exact w.isMethodCall_inAssign s hv
  · split at hv
    · rw [List.mem_singleton.mp hv]
      rfl
    · cases hv

theorem isMethodCall_inBuiltinCall {c : Call} (h : i ∈ w.inBuiltinCall s c) :
    i.isMethodCall = false := by
  unfold inBuiltinCall at h
  split at h
  · split at h
    · rw [List.mem_singleton.mp h]
      rfl
    · cases h
  · cases h

end Watch

namespace Effect

variable (w : Watch) (keyOf : Call → String) (s : Aliases)

theorem filter_breach_of_true {issues : List Issue} (h : ∀ i ∈ issues, i.isMethodCall = true) :
    (issues.map breach).filter (!·.isMethodCall) = [] := by
  rw [List.filter_eq_nil_iff]
  intro e he
  obtain ⟨i, hi, rfl⟩ := List.mem_map.mp he
  simp [isMethodCall, h i hi]

theorem filter_breach_of_false {issues : List Issue} (h : ∀ i ∈ issues, i.isMethodCall = false) :
    (issues.map breach).filter (!·.isMethodCall) = issues.map breach := by
  rw [List.filter_eq_self]
  intro e he
  obtain ⟨i, hi, rfl⟩ := List.mem_map.mp he
  simp [isMethodCall, h i hi]

theorem filter_binds (bounds : List Aliases.Bound) :
    (bounds.map binds).filter (!·.isMethodCall) = bounds.map binds := by
  simp [List.filter_map, Function.comp_def, isMethodCall]

theorem filter_calls (callee : String) (es : List Effect) :
    (calls callee :: es).filter (!·.isMethodCall) = calls callee :: es.filter (!·.isMethodCall) :=
  List.filter_cons_of_pos rfl

theorem filter_ofArguments (pos : Position) (callee : String) (index : Nat) (args : List Expr) :
    (ofArguments w s pos callee index args).filter (!·.isMethodCall) =
      ofArguments w s pos callee index args := by
  rw [List.filter_eq_self]
  intro e he
  cases e with
  | breach i => exact absurd he breach_not_mem_ofArguments
  | _ => rfl

theorem ofArguments_lenient (pos : Position) (callee : String) (index : Nat) (args : List Expr) :
    ofArguments w.lenient s pos callee index args = ofArguments w s pos callee index args := by
  induction args generalizing index with
  | nil => rfl
  | cons arg rest ih =>
    rw [ofArguments, ofArguments, ih]
    rfl

/-- Without the strict rule, an event has the same effects but for the calls of methods. -/
theorem ofEvent_lenient (event : Event) : ofEvent w.lenient keyOf s event =
    (ofEvent w keyOf s event).filter (!·.isMethodCall) := by
  cases event with
  | call c =>
    have hm := filter_breach_of_true fun i (hi : i ∈ w.inMethodCall c) =>
      w.isMethodCall_inMethodCall hi
    have hb := filter_breach_of_false fun i (hi : i ∈ w.inBuiltinCall s c) =>
      w.isMethodCall_inBuiltinCall s hi
    have hnone : w.lenient.inMethodCall c = [] := rfl
    rw [ofEvent, ofEvent, filter_calls, List.filter_append, List.filter_append, hm, hb,
      filter_ofArguments, ofArguments_lenient, hnone]
    rfl
  | assign left op right =>
    have ha := filter_breach_of_false fun i (hi : i ∈ w.inAssign s left) =>
      w.isMethodCall_inAssign s hi
    simp only [ofEvent, List.filter_append, ha]
    cases isPlainAssign op
    · rfl
    · simp only [if_true, filter_binds]
      rfl
  | incDec x pos =>
    exact (filter_breach_of_false fun i (hi : i ∈ w.inIncDec s x pos) =>
      w.isMethodCall_inIncDec s hi).symm
  | declare names values => exact (filter_binds _).symm
  | range key value op =>
    have hr := filter_breach_of_false fun i (hi : i ∈ w.inRange s key value op) =>
      w.isMethodCall_inRange s hi
    simp only [ofEvent, List.filter_append, hr, filter_binds]
    rfl

theorem ofEvents_lenient (events : List Event) : ofEvents w.lenient keyOf s events =
    (ofEvents w keyOf s events).filter (!·.isMethodCall) := by
  induction events generalizing s with
  | nil => rfl
  | cons event events ih =>
    have hr : event.rebound w.lenient s = event.rebound w s := by cases event <;> rfl
    rw [ofEvents, ofEvents, List.filter_append, ofEvent_lenient, hr, ih]

end Effect

def IssueSet.lenient (s : IssueSet) : IssueSet := ⟨s.issues.filter (!·.isMethodCall)⟩

namespace IssueSet

variable {s : IssueSet} {i : Issue}

theorem issues_lenient (s : IssueSet) : s.lenient.issues = s.issues.filter (!·.isMethodCall) := rfl

theorem lenient_add_of_true (s : IssueSet) (hi : i.isMethodCall = true) :
    (s.add i).lenient = s.lenient := by
  unfold add
  split
  · rfl
  · simp [lenient, hi]

theorem Worded.contains_lenient (hs : s.Worded) (hi : i.Worded) (hm : i.isMethodCall = false) :
    s.lenient.contains i = s.contains i := by
  rw [Bool.eq_iff_iff]
  simp only [contains, lenient, List.any_eq_true, List.mem_filter]
  constructor
  · rintro ⟨j, ⟨hj, -⟩, hsame⟩
    exact ⟨j, hj, hsame⟩
  · rintro ⟨j, hj, hsame⟩
    have he : i = j := hi.eq_of_same (hs j hj) hsame
    exact ⟨j, ⟨hj, by simp [← he, hm]⟩, hsame⟩

theorem Worded.lenient_add (hs : s.Worded) (hi : i.Worded) (hm : i.isMethodCall = false) :
    (s.add i).lenient = s.lenient.add i := by
  unfold IssueSet.add
  rw [hs.contains_lenient hi hm]
  cases s.contains i with
  | true => rfl
  | false => simp [lenient, hm]

end IssueSet

namespace Run

/-- A state of a strict check and the state of a check that is not strict at the same point. -/
structure Lenient (r r' : Run) : Prop where
  graph : r'.graph = r.graph
  queue : r'.queue = r.queue
  escapes : r'.escapes = r.escapes
  issues : r'.issues = r.issues.lenient
  worded : r.issues.Worded

/-- What becomes of the functions and of the queue depends on nothing else. -/
theorem absorb_congr {r r' : Run} (hg : r'.graph = r.graph) (hq : r'.queue = r.queue)
    (recording : Bool) (key : String) (e : Effect) :
    (r'.absorb recording key e).graph = (r.absorb recording key e).graph ∧
      (r'.absorb recording key e).queue = (r.absorb recording key e).queue := by
  cases e with
  | calls callee => cases recording <;> simp [absorb, hg, hq]
  | breach i =>
    cases hm : i.rule.mutates <;> cases hk : r.graph.modifies key <;>
      simp [absorb, blame, report, note, hg, hq, hm, hk]
  | binds b => exact ⟨hg, hq⟩
  | passes pos callee index source =>
    cases hf : r.graph.get? callee with
    | none => simp [absorb, taint, report, note, hg, hq, hf]
    | some f =>
      cases ht : f.isTainted index <;>
        simp [absorb, taint, report, note, enqueue, hg, hq, hf, ht]

namespace Lenient

variable {r r' : Run} {w : Watch}

theorem report (h : Lenient r r') {i : Issue} (hi : i.Worded) (hm : i.isMethodCall = false) :
    Lenient (r.report i) (r'.report i) := by
  refine ⟨h.graph, h.queue, h.escapes, ?_, h.worded.add hi⟩
  simp only [Run.report, h.issues, h.worded.lenient_add hi hm]

/-- The call of a method leaves no trace but its issue. -/
theorem absorb_left (h : Lenient r r') {i : Issue} (hi : i.Worded) (hm : i.isMethodCall = true)
    (recording : Bool) (key : String) : Lenient (r.absorb recording key (.breach i)) r' := by
  have hrule : i.rule = .methodCall := by simpa [Issue.isMethodCall] using hm
  have hb : r.absorb recording key (.breach i) = r.report i := by
    simp [absorb, blame, hrule, Rule.mutates]
  rw [hb]
  refine ⟨h.graph, h.queue, h.escapes, ?_, h.worded.add hi⟩
  exact h.issues.trans (r.issues.lenient_add_of_true hm).symm

theorem absorb (h : Lenient r r') {e : Effect} (hp : e.Proper) (hm : e.isMethodCall = false)
    (recording : Bool) (key : String) :
    Lenient (r.absorb recording key e) (r'.absorb recording key e) := by
  obtain ⟨hg, hq⟩ := absorb_congr h.graph h.queue recording key e
  refine ⟨hg, hq, ?_, ?_, worded_absorb h.worded hp recording key⟩
  · rw [(reported_absorb _ _ _ _).2, (reported_absorb _ _ _ _).2, h.escapes]
  · rw [(reported_absorb _ _ _ _).1, (reported_absorb _ _ _ _).1, h.issues]
    cases e with
    | breach i => exact (h.worded.lenient_add hp.1 hm).symm
    | passes pos callee index source =>
      exact (h.worded.lenient_add (escapeIssue_worded pos source callee) rfl).symm
    | _ => rfl

theorem absorbAll (h : Lenient r r') {es : List Effect} (hp : ∀ e ∈ es, e.Proper)
    (recording : Bool) (key : String) : Lenient (r.absorbAll recording key es)
      (r'.absorbAll recording key (es.filter (!·.isMethodCall))) := by
  induction es generalizing r r' with
  | nil => exact h
  | cons e es ih =>
    rw [List.forall_mem_cons] at hp
    cases hm : e.isMethodCall with
    | false =>
      rw [List.filter_cons_of_pos (by simp [hm])]
      exact ih (h.absorb hp.1 hm recording key) hp.2
    | true =>
      -- only the strict check takes a step here
      rw [List.filter_cons_of_neg (by simp [hm])]
      cases e with
      | breach i => exact ih (h.absorb_left hp.1.1 hm recording key) hp.2
      | _ => cases hm

theorem walk (h : Lenient r r') (recording : Bool) (f : FuncRecord) (s : Aliases) :
    Lenient (r.walk w recording f s) (r'.walk w.lenient recording f s) := by
  have hproper : ∀ e ∈ effectsOf w r.graph f s, e.Proper := fun e he => Effect.ofEvents_proper he
  have ha := h.absorbAll hproper recording f.key
  have hes : effectsOf w.lenient r.graph f s =
      (effectsOf w r.graph f s).filter (!·.isMethodCall) := Effect.ofEvents_lenient w _ s _
  rw [walk_eq, walk_eq, h.graph, hes]
  exact ⟨ha.graph, ha.queue, ha.escapes, ha.issues, ha.worded⟩

theorem walks (h : Lenient r r') (fs : List FuncRecord) :
    Lenient (fs.foldl (fun r f => r.walk w true f {}) r)
      (fs.foldl (fun r f => r.walk w.lenient true f {}) r') := by
  induction fs generalizing r r' with
  | nil => exact h
  | cons f fs ih => exact ih (h.walk true f {})

theorem with_queue (h : Lenient r r') (queue : Queue) :
    Lenient { r with queue := queue } { r' with queue := queue } :=
  ⟨h.graph, rfl, h.escapes, h.issues, h.worded⟩

theorem rewalk (h : Lenient r r') (limit : Nat) :
    Lenient (rewalk w limit r).run (rewalk w.lenient limit r').run := by
  induction limit generalizing r r' with
  | zero => exact h
  | succ limit ih =>
    rw [Run.rewalk, Run.rewalk, h.queue]
    cases r.queue.pop? with
    | none => exact h
    | some next =>
      obtain ⟨key, queue⟩ := next
      have hget : r'.graph.get? key = r.graph.get? key := by rw [h.graph]
      dsimp only
      rw [hget]
      cases r.graph.get? key with
      | none => exact ih (h.with_queue queue)
      | some f =>
        dsimp only
        cases f.bindings with
        | error fault => exact h.with_queue queue
        | ok bindings => exact ih ((h.with_queue queue).walk false f (seeded bindings))

theorem firstPass (h : Lenient r r') : Lenient (r.firstPass w) (r'.firstPass w.lenient) := by
  rw [Run.firstPass, Run.firstPass, h.graph]
  exact h.walks _

theorem taintPass (h : Lenient r r') :
    Lenient (r.taintPass w).run (r'.taintPass w.lenient).run := by
  rw [Run.taintPass, Run.taintPass, h.graph]
  exact h.rewalk _

theorem reportAll (h : Lenient r r') {issues : List Issue}
    (hi : ∀ i ∈ issues, i.Worded ∧ i.isMethodCall = false) :
    Lenient (issues.foldl Run.report r) (issues.foldl Run.report r') := by
  induction issues generalizing r r' with
  | nil => exact h
  | cons i issues ih =>
    rw [List.forall_mem_cons] at hi
    exact ih (h.report hi.1.1 hi.1.2) hi.2

theorem close (h : Lenient r r') : Lenient (r.close w).2 (r'.close w.lenient).2 := by
  have hgraph : r'.graph.propagate = r.graph.propagate := by rw [h.graph]
  have hfound : contaminatedIssues w.lenient r'.escapes r'.graph.propagate.found =
      contaminatedIssues w r.escapes r.graph.propagate.found := by
    rw [h.escapes, hgraph]
    rfl
  have hspread : Lenient { r with graph := r.graph.propagate.graph }
      { r' with graph := r'.graph.propagate.graph } :=
    ⟨by rw [hgraph], h.queue, h.escapes, h.issues, h.worded⟩
  rw [close_eq, close_eq, hfound]
  apply hspread.reportAll
  intro i hi
  obtain ⟨c, -, site, -, -, rfl⟩ := mem_contaminatedIssues.mp hi
  exact ⟨contaminatedIssue_worded _ _ _, rfl⟩

end Lenient

end Run

namespace Policy

theorem settled_lenient (p : Policy) (u : SourceUnit) :
    Run.Lenient (settled { p with strict := true } u) (settled { p with strict := false } u) := by
  have hstart : Run.Lenient (.start u) (.start u) :=
    ⟨rfl, rfl, rfl, rfl, (Run.valid_start u).worded⟩
  exact hstart.firstPass.taintPass

theorem findings_lenient (p : Policy) (u : SourceUnit) :
    (findings { p with strict := true } u).issues.filter (!·.isMethodCall) =
        (findings { p with strict := false } u).issues ∧
      (findings { p with strict := true } u).graph =
        (findings { p with strict := false } u).graph := by
  have hclose := (p.settled_lenient u).close (w := watch { p with strict := true })
  have hwatch : watch { p with strict := false } = (watch { p with strict := true }).lenient := rfl
  obtain ⟨hgraph, hissues, -⟩ := findings_close { p with strict := true } u
  obtain ⟨hgraph', hissues', -⟩ := findings_close { p with strict := false } u
  rw [hgraph, hgraph', hissues, hissues', hwatch, hclose.issues, IssueSet.issues_lenient]
  exact ⟨rfl, hclose.graph.symm⟩

/-- A strict check finds what a check that is not strict finds, in the same order, and calls of
methods on top. What is known of the functions in the end is the same. -/
theorem check_strict_adds_method_calls (p : Policy) (u : SourceUnit) :
    (check { p with strict := true } u).issues.filter (·.rule ≠ .methodCall) =
        (check { p with strict := false } u).issues ∧
      (check { p with strict := true } u).graph? = (check { p with strict := false } u).graph? := by
  have hcovers : covers { p with strict := true } = covers { p with strict := false } := rfl
  obtain ⟨hissues, hgraph⟩ := p.findings_lenient u
  rw [check_eq, check_eq, hcovers]
  by_cases hc : covers { p with strict := false } u.name u.path
  · rw [if_pos hc, if_pos hc]
    refine ⟨Eq.trans ?_ hissues, congrArg some hgraph⟩
    simp [Verdict.issues, Issue.isMethodCall]
  · rw [if_neg hc, if_neg hc]
    exact ⟨rfl, rfl⟩

end Policy

end ReadGuard
