import ReadGuard.Proofs.Check.Reports

namespace ReadGuard

namespace Event

def escapes (w : Watch) (keyOf : Call → String) (s : Aliases) : Event → List Issue
  | .call c => (c.args.filterMap (Run.escaping w s)).map fun source =>
      Run.escapeIssue c.info.pos source (keyOf c)
  | _ => []

def reports (w : Watch) (keyOf : Call → String) : Aliases → List Event → List Issue
  | _, [] => []
  | s, e :: es => e.breaches w s ++ e.escapes w keyOf s ++ reports w keyOf (e.rebound w s) es

end Event

namespace Effect

variable (w : Watch) (keyOf : Call → String) (s : Aliases)

theorem reported_breach (issues : List Issue) : (issues.map breach).flatMap reported = issues := by
  rw [List.flatMap_map]
  exact List.flatMap_singleton' issues

theorem reported_binds (bounds : List Aliases.Bound) :
    (bounds.map binds).flatMap reported = [] := by
  simp [reported]

theorem reported_ofArguments (pos : Position) (callee : String) (index : Nat) (args : List Expr) :
    (ofArguments w s pos callee index args).flatMap reported =
      (args.filterMap (Run.escaping w s)).map fun source => Run.escapeIssue pos source callee := by
  induction args generalizing index with
  | nil => rfl
  | cons arg rest ih =>
    rw [ofArguments, List.flatMap_append, ih, List.filterMap_cons]
    cases Run.escaping w s arg <;> rfl

theorem reported_ofEvent (e : Event) :
    (ofEvent w keyOf s e).flatMap reported = e.breaches w s ++ e.escapes w keyOf s := by
  cases e with
  | call c =>
    rw [ofEvent, List.flatMap_cons, List.flatMap_append, List.flatMap_append, reported_breach,
      reported_breach, reported_ofArguments]
    rfl
  | assign left op right =>
    rw [ofEvent, List.flatMap_append, reported_breach]
    cases isPlainAssign op
    · rfl
    · rw [if_pos rfl, reported_binds]
      rfl
  | incDec x pos =>
    rw [ofEvent, reported_breach]
    exact (List.append_nil _).symm
  | declare names values => exact reported_binds _
  | range key value op =>
    rw [ofEvent, List.flatMap_append, reported_breach, reported_binds]
    rfl

theorem reported_ofEvents (events : List Event) :
    (ofEvents w keyOf s events).flatMap reported = Event.reports w keyOf s events := by
  induction events generalizing s with
  | nil => rfl
  | cons e events ih =>
    rw [ofEvents, List.flatMap_append, reported_ofEvent, ih]
    rfl

end Effect

/-- Adding issues one after the other keeps the first of those that are the same. -/
theorem IssueSet.foldl_add (issues : List Issue) (s : IssueSet) : (issues.foldl add s).issues =
    List.eraseDupsBy.loop Issue.same issues s.issues.reverse := by
  induction issues generalizing s with
  | nil => exact s.issues.reverse_reverse.symm
  | cons i issues ih =>
    -- the library keeps what it has seen with the latest first
    rw [List.foldl_cons, ih, List.eraseDupsBy.loop, List.any_reverse, ← contains]
    cases hc : s.contains i <;> simp [add, hc]

namespace Run

structure Reporting (r : Run) (issues : List Issue) (r' : Run) : Prop where
  reports : r'.reports = r.reports ++ issues
  issues : r'.issues = issues.foldl .add r.issues
  sameUnit : r.graph.SameUnit r'.graph

namespace Reporting

variable {r r' r'' : Run} {w : Watch}

theorem refl (r : Run) : Reporting r [] r :=
  ⟨(List.append_nil _).symm, rfl, .refl _⟩

theorem trans {first second : List Issue} (h : Reporting r first r')
    (h' : Reporting r' second r'') : Reporting r (first ++ second) r'' := by
  refine ⟨?_, ?_, h.sameUnit.trans h'.sameUnit⟩
  · rw [h'.reports, h.reports, List.append_assoc]
  · rw [h'.issues, h.issues, List.foldl_append]

theorem absorb (recording : Bool) (key : String) (r : Run) (e : Effect) :
    Reporting r e.reported (r.absorb recording key e) := by
  refine ⟨(reports_absorb recording key r e).1, ?_, sameUnit_absorb recording key r e⟩
  rw [(reported_absorb _ _ _ _).1]
  cases e <;> rfl

theorem absorbAll (recording : Bool) (key : String) (r : Run) (es : List Effect) :
    Reporting r (es.flatMap Effect.reported) (r.absorbAll recording key es) := by
  induction es generalizing r with
  | nil => exact refl r
  | cons e es ih => exact (absorb recording key r e).trans (ih _)

theorem walk {g : CallGraph} (hu : g.SameUnit r.graph) (recording : Bool) (f : FuncRecord)
    (s : Aliases) : Reporting r (Event.reports w g.calleeKey s f.decl.events)
      (r.walk w recording f s) := by
  have h := absorbAll recording f.key r (effectsOf w r.graph f s)
  rw [effectsOf_congr w hu rfl, effectsOf, Effect.reported_ofEvents] at h
  rw [walk_eq, effectsOf_congr w hu rfl]
  exact ⟨h.reports, h.issues, h.sameUnit⟩

theorem walks {g : CallGraph} (hu : g.SameUnit r.graph) (fs : List FuncRecord) :
    Reporting r (fs.flatMap fun f => Event.reports w g.calleeKey {} f.decl.events)
      (fs.foldl (fun r f => r.walk w true f {}) r) := by
  induction fs generalizing r with
  | nil => exact refl r
  | cons f fs ih =>
    have h := walk (w := w) hu true f {}
    exact h.trans (ih (hu.trans h.sameUnit))

end Reporting

def rewalked (w : Watch) : Nat → Run → List (FuncRecord × Aliases)
  | 0, _ => []
  | limit + 1, r =>
    match r.queue.pop? with
    | none => []
    | some (key, queue) =>
      match r.graph.get? key with
      | none => rewalked w limit { r with queue := queue }
      | some f =>
        match f.bindings with
        | .error _ => []
        | .ok bindings => (f, seeded bindings) ::
            rewalked w limit ({ r with queue := queue }.walk w false f (seeded bindings))

namespace Reporting

variable {r : Run} {w : Watch} {g : CallGraph}

theorem rewalk (hu : g.SameUnit r.graph) (limit : Nat) :
    Reporting r ((rewalked w limit r).flatMap fun (f, s) =>
      Event.reports w g.calleeKey s f.decl.events) (rewalk w limit r).run := by
  induction limit generalizing r with
  | zero => exact refl r
  | succ limit ih =>
    rw [Run.rewalk, rewalked]
    cases r.queue.pop? with
    | none => exact refl r
    | some next =>
      obtain ⟨key, queue⟩ := next
      have hskip : Reporting r [] { r with queue := queue } :=
        ⟨(List.append_nil _).symm, rfl, .refl _⟩
      dsimp only
      cases r.graph.get? key with
      | none => exact hskip.trans (ih hu)
      | some f =>
        dsimp only
        cases f.bindings with
        | error fault => exact hskip
        | ok bindings =>
          have h := hskip.trans
            (walk (r := { r with queue := queue }) (w := w) hu false f (seeded bindings))
          exact h.trans (ih (hu.trans h.sameUnit))

theorem report (r : Run) (i : Issue) : Reporting r [i] (r.report i) :=
  ⟨reports_report r i, rfl, .refl _⟩

theorem reportAll (issues : List Issue) (r : Run) :
    Reporting r issues (issues.foldl Run.report r) := by
  induction issues generalizing r with
  | nil => exact refl r
  | cons i issues ih => exact (report r i).trans (ih _)

theorem close (w : Watch) (r : Run) : Reporting r
    (contaminatedIssues w r.escapes r.graph.propagate.found) (r.close w).2 := by
  have hspread : Reporting r [] { r with graph := r.graph.propagate.graph } :=
    ⟨(List.append_nil _).symm, rfl, (CallGraph.propagate_sweepsTo _).spread.sameUnit⟩
  rw [close_eq]
  exact hspread.trans (reportAll _ _)

end Reporting

end Run

namespace Policy

def rewalked (p : Policy) (u : SourceUnit) : List (FuncRecord × Aliases) :=
  let first := Run.firstPass p.watch (.start u)
  Run.rewalked p.watch (Run.argumentCount first.graph + 1) first

/-- All that is reported in the check of a unit: by the rules and for pointers passed on, when the
functions are looked at for the first time and again, and then when the marks spread. -/
def reports (p : Policy) (u : SourceUnit) : List Issue :=
  let keyOf := (CallGraph.ofUnit u).calleeKey
  (CallGraph.ofUnit u).functions.flatMap (fun f => Event.reports p.watch keyOf {} f.decl.events) ++
    (p.rewalked u).flatMap (fun (f, s) => Event.reports p.watch keyOf s f.decl.events) ++
    p.contaminations u

theorem reporting (p : Policy) (u : SourceUnit) :
    Run.Reporting (.start u) (p.reports u) ((p.settled u).close p.watch).2 := by
  have hfirst : Run.Reporting (.start u) _ (Run.firstPass p.watch (.start u)) :=
    .walks (.refl (CallGraph.ofUnit u)) (CallGraph.ofUnit u).functions
  exact (hfirst.trans (.rewalk hfirst.sameUnit _)).trans (.close p.watch (p.settled u))

theorem findings_reports_eq (p : Policy) (u : SourceUnit) :
    (p.findings u).notes.flatMap Note.reported = p.reports u ∧
      (p.findings u).issues = (p.reports u).eraseDupsBy Issue.same := by
  have h := p.reporting u
  rw [(p.findings_close u).2.1, (p.findings_close u).2.2, ← Run.reports, h.reports, h.issues]
  exact ⟨rfl, IssueSet.foldl_add _ _⟩

theorem reports_worded (p : Policy) (u : SourceUnit) {i : Issue} (hi : i ∈ p.reports u) :
    i.Worded := by
  rw [← (p.findings_reports_eq u).1, findings_reports, List.mem_append,
    ← (p.settled_accounted u).issues] at hi
  rcases hi with hi | hi
  · exact (p.settled_valid u).1.worded i hi
  · obtain ⟨c, -, site, -, -, rfl⟩ := Run.mem_contaminatedIssues.mp hi
    exact Run.contaminatedIssue_worded _ _ _

end Policy

def Verdict.reports : Verdict → List Issue
  | .checked f => f.notes.flatMap Note.reported
  | _ => []

namespace Policy

/-- The issues of a check are its reports without those of known issues, each in the place of its
first report. What is left out is the same also in its rule. -/
theorem check_issues_eq_eraseDups_reports (p : Policy) (u : SourceUnit) :
    (p.check u).reports = (if p.covers u.name u.path then p.reports u else []) ∧
    (p.check u).issues = (p.check u).reports.eraseDupsBy Issue.same ∧
    ∀ i ∈ (p.check u).reports, ∀ j ∈ (p.check u).reports,
      i.pos = j.pos → i.message = j.message → i.rule = j.rule := by
  obtain ⟨hreports, hissues⟩ := p.findings_reports_eq u
  rw [check_eq]
  by_cases hc : p.covers u.name u.path
  · rw [if_pos hc, if_pos hc, Verdict.reports, Verdict.issues, hreports]
    refine ⟨rfl, hissues, fun i hi j hj hpos hmessage => ?_⟩
    have hsame : i.same j = true := by simp [Issue.same, hpos, hmessage]
    rw [(p.reports_worded u hi).eq_of_same (p.reports_worded u hj) hsame]
  · rw [if_neg hc, if_neg hc]
    exact ⟨rfl, rfl, by simp [Verdict.reports]⟩

end Policy

def FuncDecl.incrementBoth : FuncDecl where
  name := "increment"
  params := [{ name := "p" }]
  body := some (.mk
    [.incDec (.selector (.ident { name := "d", info := ⟨some (.named "data" "BigStruct"), {}⟩ })
      "m" {}) "++" { line := 1 },
     .incDec (.star (.ident { name := "p" }) {}) "++" { line := 4 }] {})

def SourceUnit.counters : SourceUnit where
  name := "reader"
  files := [⟨"counters.go", "reader", [.incrementBoth, .update]⟩]

theorem Policy.check_issues_eq_eraseDups_reports_counters :
    ∃ i j : Issue, (check {} .counters).reports[0]? = some i ∧
      (check {} .counters).reports[2]? = some j ∧
      i.pos = j.pos ∧ i.message = j.message ∧ i.rule = j.rule ∧
      (check {} .counters).reports.length = 4 ∧ (check {} .counters).issues.length = 3 := by
  obtain ⟨-, hissues, hrule⟩ := check_issues_eq_eraseDups_reports {} .counters
  have hfirst : (check {} .counters).reports[0]? = some ⟨{ line := 1 },
      "increment/decrement of field d.m of protected type data.BigStruct", .fieldIncDec⟩ := by
    decide +kernel
  have hagain : (check {} .counters).reports[2]? = some ⟨{ line := 1 },
      "increment/decrement of field d.m of protected type data.BigStruct", .fieldIncDec⟩ := by
    decide +kernel
  refine ⟨_, _, hfirst, hagain, rfl, rfl, ?_, by decide +kernel, ?_⟩
  · exact hrule _ (List.mem_of_getElem? hfirst) _ (List.mem_of_getElem? hagain) rfl rfl
  · rw [hissues]
    decide +kernel

end ReadGuard
