import ReadGuard.Proofs.CallGraph.Contamination
import ReadGuard.Proofs.Check.Calls

namespace ReadGuard

def Note.reported : Note → List Issue
  | .report i _ => [i]
  | _ => []

def Effect.reported : Effect → List Issue
  | .breach i => [i]
  | .passes pos callee _ source => [Run.escapeIssue pos source callee]
  | _ => []

namespace Run

def reports (r : Run) : List Issue := r.notes.toList.flatMap Note.reported

theorem reports_note (r : Run) (n : Note) : (r.note n).reports = r.reports ++ n.reported := by
  simp [reports, note]

theorem reports_report (r : Run) (i : Issue) : (r.report i).reports = r.reports ++ [i] :=
  reports_note r _

theorem reports_taint (r : Run) (key : String) (index : Nat) (source : Expr) :
    (r.taint key index source).reports = r.reports ∧
      (r.taint key index source).graph.reported = r.graph.reported := by
  obtain ⟨-, he⟩ | ⟨f, -, -, he⟩ := taint_cases r key index source
  · rw [he]
    exact ⟨rfl, rfl⟩
  · rw [he]
    exact ⟨(reports_note r _).trans (List.append_nil _), rfl⟩

theorem reports_absorb (recording : Bool) (key : String) (r : Run) (e : Effect) :
    (r.absorb recording key e).reports = r.reports ++ e.reported ∧
      (r.absorb recording key e).graph.reported = r.graph.reported := by
  cases e with
  | calls callee => cases recording <;> exact ⟨(List.append_nil _).symm, rfl⟩
  | breach i =>
    have hr := reports_report r i
    obtain ⟨-, -, he⟩ | ⟨-, he⟩ := blame_cases r key i
    · have hn := reports_note (r.report i) (.mutates key i)
      rw [hr] at hn
      rw [absorb, he]
      exact ⟨hn.trans (List.append_nil _), rfl⟩
    · rw [absorb, he]
      exact ⟨hr, rfl⟩
  | binds b => exact ⟨reports_note r _, rfl⟩
  | passes pos callee index source =>
    rw [absorb, (reports_taint _ _ _ _).1, (reports_taint _ _ _ _).2]
    exact ⟨reports_report { r with escapes := (pos, callee) :: r.escapes } _, rfl⟩

def EscapeAt (site : Position × String) (i : Issue) : Prop :=
  ∃ source, i = escapeIssue site.1 source site.2

/-- How issues, reports and the places of escapes belong together before the marks spread. -/
structure Accounted (r : Run) : Prop where
  reported : r.graph.reported = []
  issues : ∀ i, i ∈ r.issues.issues ↔ i ∈ r.reports
  escapes : List.Forall₂ EscapeAt r.escapes.reverse (r.reports.filter (·.rule = .pointerEscape))
  rules : ∀ i ∈ r.reports, i.rule ≠ .contaminatedCall

theorem Accounted.absorb {r : Run} (h : r.Accounted) (hw : r.issues.Worded) {e : Effect}
    (he : e.Proper) (recording : Bool) (key : String) : (r.absorb recording key e).Accounted := by
  obtain ⟨hreports, hreported⟩ := reports_absorb recording key r e
  obtain ⟨hissues, hescapes⟩ := reported_absorb recording key r e
  cases e with
  | calls callee | binds b =>
    have hsame := hreports.trans (List.append_nil r.reports)
    refine ⟨hreported.trans h.reported, ?_, ?_, ?_⟩
    · rw [hissues, hsame]
      exact h.issues
    · rw [hescapes, hsame]
      exact h.escapes
    · rw [hsame]
      exact h.rules
  | breach i =>
    have hb : i.Breach := he
    refine ⟨hreported.trans h.reported, fun j => ?_, ?_, fun j hj => ?_⟩
    · rw [hissues, hreports, hw.mem_add hb.1, h.issues, Effect.reported, List.mem_append,
        List.mem_singleton]
    · rw [hescapes, hreports, List.filter_append, Effect.reported]
      simpa [hb.2.1] using h.escapes
    · rw [hreports, Effect.reported, List.mem_append, List.mem_singleton] at hj
      rcases hj with hj | rfl
      · exact h.rules j hj
      · exact hb.2.2
  | passes pos callee index source =>
    have hi := escapeIssue_worded pos source callee
    refine ⟨hreported.trans h.reported, fun j => ?_, ?_, fun j hj => ?_⟩
    · rw [hissues, hreports, hw.mem_add hi, h.issues, Effect.reported, List.mem_append,
        List.mem_singleton]
    · rw [hescapes, hreports, List.filter_append, List.reverse_cons]
      exact List.rel_append h.escapes (.cons ⟨source, rfl⟩ .nil)
    · rw [hreports, Effect.reported, List.mem_append, List.mem_singleton] at hj
      rcases hj with hj | rfl
      · exact h.rules j hj
      · exact nofun

theorem EscapeAt.exists_of_mem {sites : List (Position × String)} {issues : List Issue}
    (h : List.Forall₂ EscapeAt sites issues) {site : Position × String} (hm : site ∈ sites) :
    ∃ i ∈ issues, EscapeAt site i := by
  induction h with
  | nil => simp at hm
  | @cons a i _ _ ha _ ih =>
    rcases List.mem_cons.mp hm with rfl | hm
    · exact ⟨i, List.mem_cons_self, ha⟩
    · obtain ⟨j, hj, hs⟩ := ih hm
      exact ⟨j, List.mem_cons_of_mem _ hj, hs⟩

def contaminatedIssues (w : Watch) (escapes : List (Position × String))
    (found : List Contamination) : List Issue :=
  found.filterMap fun c => c.site.bind fun site =>
    if escapes.contains (site.info.pos, c.callee) then none
    else some (contaminatedIssue w site.info.pos c.callee)

theorem mem_contaminatedIssues {w : Watch} {escapes : List (Position × String)}
    {found : List Contamination} {i : Issue} : i ∈ contaminatedIssues w escapes found ↔
      ∃ c ∈ found, ∃ site, c.site = some site ∧ (site.info.pos, c.callee) ∉ escapes ∧
        i = contaminatedIssue w site.info.pos c.callee := by
  simp only [contaminatedIssues, List.mem_filterMap, Option.bind_eq_some_iff]
  constructor
  · rintro ⟨c, hc, site, hs, hi⟩
    split at hi
    case isTrue => cases hi
    case isFalse hn =>
      exact ⟨c, hc, site, hs, by simpa using hn, (Option.some.inj hi).symm⟩
  · rintro ⟨c, hc, site, hs, hn, rfl⟩
    exact ⟨c, hc, site, hs, by simp [hn]⟩

theorem foldl_reportContaminated (w : Watch) (found : List Contamination) (r : Run) :
    found.foldl (reportContaminated w) r =
      (contaminatedIssues w r.escapes found).foldl report r := by
  induction found generalizing r with
  | nil => rfl
  | cons c found ih =>
    rw [List.foldl_cons, ih]
    cases hs : c.site with
    | none => simp [reportContaminated, hs, contaminatedIssues]
    | some site =>
      by_cases hm : (site.info.pos, c.callee) ∈ r.escapes
      · simp [reportContaminated, hs, hm, contaminatedIssues]
      · simp [reportContaminated, hs, hm, contaminatedIssues, contaminatedIssue, report, note]

theorem close_eq (w : Watch) (r : Run) : (r.close w).2 =
    (contaminatedIssues w r.escapes r.graph.propagate.found).foldl report
      { r with graph := r.graph.propagate.graph } :=
  foldl_reportContaminated w _ _

theorem foldl_report_frame (issues : List Issue) (r : Run) :
    (issues.foldl report r).reports = r.reports ++ issues ∧
      (issues.foldl report r).graph = r.graph := by
  induction issues generalizing r with
  | nil => simp
  | cons i issues ih =>
    obtain ⟨hr, hg⟩ := ih (r.report i)
    rw [reports_report, List.append_assoc] at hr
    exact ⟨hr, hg⟩

theorem mem_issues_foldl_report {issues : List Issue} (hi : ∀ i ∈ issues, i.Worded) (r : Run)
    (hr : r.issues.Worded) {j : Issue} :
    j ∈ (issues.foldl report r).issues.issues ↔ j ∈ r.issues.issues ∨ j ∈ issues := by
  induction issues generalizing r with
  | nil => simp
  | cons i issues ih =>
    have hw : i.Worded := hi i (by simp)
    have hadd := ih (fun k hk => hi k (List.mem_cons_of_mem _ hk)) (r.report i) (hr.add hw)
    rw [List.foldl_cons, hadd, List.mem_cons, ← or_assoc]
    exact or_congr_left (hr.mem_add hw)

end Run

namespace Policy

theorem settled_accounted (p : Policy) (u : SourceUnit) : (p.settled u).Accounted := by
  have h : Run.Kept p.watch (fun _ _ => True) Run.Accounted :=
    { frame := fun r queue aliases h => ⟨h.reported, h.issues, h.escapes, h.rules⟩
      absorb := fun r recording f _ _ e hv h _ _ _ he =>
        h.absorb hv.worded (Effect.ofEvents_proper he) recording f.key
      first := fun _ => trivial
      again := fun _ _ _ _ _ => trivial }
  exact h.settled u ⟨(CallGraph.blank_ofUnit u).reported, by simp [Run.start, Run.reports],
    .nil, by simp [Run.start, Run.reports]⟩

def contaminations (p : Policy) (u : SourceUnit) : List Issue :=
  Run.contaminatedIssues p.watch (p.settled u).escapes (p.settled u).graph.propagate.found

section Findings

variable (p : Policy) (u : SourceUnit)

theorem findings_close : (p.findings u).graph = ((p.settled u).close p.watch).2.graph ∧
    (p.findings u).issues = ((p.settled u).close p.watch).2.issues.issues ∧
    (p.findings u).notes = ((p.settled u).close p.watch).2.notes.toList :=
  ⟨rfl, rfl, rfl⟩

theorem findings_graph : (p.findings u).graph = (p.settled u).graph.propagate.graph := by
  rw [(p.findings_close u).1, Run.close_eq, (Run.foldl_report_frame _ _).2]

theorem findings_reports : (p.findings u).notes.flatMap Note.reported =
    (p.settled u).reports ++ p.contaminations u := by
  rw [(p.findings_close u).2.2, ← Run.reports, Run.close_eq, (Run.foldl_report_frame _ _).1]
  rfl

theorem mem_findings_issues {i : Issue} :
    i ∈ (p.findings u).issues ↔ i ∈ (p.settled u).reports ∨ i ∈ p.contaminations u := by
  have hw : ∀ i ∈ p.contaminations u, i.Worded := by
    intro i hi
    obtain ⟨c, -, site, -, -, rfl⟩ := Run.mem_contaminatedIssues.mp hi
    exact Run.contaminatedIssue_worded _ _ _
  have hr := (p.settled_valid u).1.worded
  rw [(p.findings_close u).2.1, Run.close_eq, ← (p.settled_accounted u).issues]
  unfold contaminations at hw ⊢
  generalize p.settled u = r at hw hr ⊢
  exact Run.mem_issues_foldl_report hw { r with graph := r.graph.propagate.graph } hr

theorem findings_spread : CallGraph.Spread (p.settled u).graph (p.findings u).graph := by
  rw [findings_graph]
  exact (CallGraph.propagate_sweepsTo _).spread

theorem findings_get? {f : FuncRecord} (hf : f ∈ (p.findings u).graph.functions) :
    (p.findings u).graph.get? f.key = some f := by
  apply CallGraph.get?_of_mem _ hf
  rw [(p.findings_spread u).sameUnit.keys]
  exact (p.settled_valid u).1.budget.keys

theorem findings_calls {f : FuncRecord} (hf : f ∈ (p.findings u).graph.functions) :
    f.calls = f.decl.events.flatMap (Event.called (p.findings u).graph.calleeKey) := by
  have hs := p.findings_spread u
  obtain ⟨f₀, hf₀, hff⟩ := hs.get?_back (p.findings_get? u hf)
  rw [hff.calls, hff.decl, p.settled_calls u (CallGraph.get?_mem hf₀),
    funext hs.sameUnit.calleeKey]

theorem findings_sameUnit : (CallGraph.ofUnit u).SameUnit (p.findings u).graph :=
  (p.settled_sameUnit u).trans (p.findings_spread u).sameUnit

/-- A call of a mutating function was found when the marks spread. -/
theorem findings_found {f g : FuncRecord} (hf : f ∈ (p.findings u).graph.functions)
    (hg : g ∈ (p.findings u).graph.functions) (hc : g.key ∈ f.calls) (hm : g.modifies = true) :
    ∃ x ∈ (p.settled u).graph.propagate.found, x.callee = g.key ∧ ∃ c, x.site = some c ∧
      (p.findings u).graph.findCall? f g.key = some c := by
  have hs := p.findings_spread u
  obtain ⟨f₀, hf₀, hff⟩ := hs.get?_back (p.findings_get? u hf)
  rw [hff.calls] at hc
  have hmod := CallGraph.modifies_of_get? (p.findings_get? u hg)
  have hclosed := CallGraph.propagate_sweepsTo (p.settled u).graph
  rw [hm, findings_graph] at hmod
  have hrep := (hclosed.covers hf₀ hc hmod).2
  rw [hclosed.accounts, (p.settled_accounted u).reported, List.append_nil, List.mem_reverse,
    List.mem_map] at hrep
  obtain ⟨x, hx, hpair⟩ := hrep
  obtain ⟨f₁, hf₁, -, -, hsite⟩ := hclosed.found hx
  obtain ⟨hcaller, hcallee⟩ := Prod.mk.inj hpair
  rw [hcaller, hf₀, Option.some.injEq] at hf₁
  subst hf₁
  obtain ⟨c, hcall⟩ := p.settled_findCall? u (CallGraph.get?_mem hf₀) hc
  refine ⟨x, hx, hcallee, c, ?_, ?_⟩
  · rw [hsite, hcallee, hcall]
  · rw [hs.sameUnit.findCall? hff.decl, hcall]

/-- What was found when the marks spread is a call of a mutating function. -/
theorem exists_of_found {x : Contamination} (hx : x ∈ (p.settled u).graph.propagate.found) :
    ∃ f ∈ (p.findings u).graph.functions, ∃ g ∈ (p.findings u).graph.functions,
      g.key = x.callee ∧ g.key ∈ f.calls ∧ g.modifies = true ∧
        x.site = (p.findings u).graph.findCall? f g.key := by
  have hs := p.findings_spread u
  obtain ⟨f₀, hf₀, hc, hm, hsite⟩ := (CallGraph.propagate_sweepsTo _).found hx
  obtain ⟨f, hf, hff⟩ := hs.get? hf₀
  rw [← findings_graph] at hm
  obtain ⟨g, hg⟩ := Option.isSome_iff_exists.mp (CallGraph.declares_of_modifies hm)
  rw [CallGraph.modifies_of_get? hg] at hm
  have hkey := CallGraph.get?_key hg
  refine ⟨f, CallGraph.get?_mem hf, g, CallGraph.get?_mem hg, hkey, ?_, hm, ?_⟩
  · rw [hkey, hff.calls]
    exact hc
  · rw [hkey, hs.sameUnit.findCall? hff.decl, hsite]

theorem call_reported {f g : FuncRecord} (hf : f ∈ (p.findings u).graph.functions)
    (hg : g ∈ (p.findings u).graph.functions) (hc : g.key ∈ f.calls) (hm : g.modifies = true) :
    ∃ c, (p.findings u).graph.findCall? f g.key = some c ∧
      (Run.contaminatedIssue p.watch c.info.pos g.key ∈ (p.findings u).issues ∨
        ∃ source, Run.escapeIssue c.info.pos source g.key ∈ (p.findings u).issues) := by
  obtain ⟨x, hx, hcallee, c, hsite, hcall⟩ := p.findings_found u hf hg hc hm
  refine ⟨c, hcall, ?_⟩
  -- a call is left out here only if it is known to pass a pointer on, and then it was reported
  by_cases he : (c.info.pos, g.key) ∈ (p.settled u).escapes
  · obtain ⟨i, hi, source, rfl⟩ := Run.EscapeAt.exists_of_mem (p.settled_accounted u).escapes
      (List.mem_reverse.mpr he)
    exact .inr ⟨source, (p.mem_findings_issues u).mpr (.inl (List.mem_filter.mp hi).1)⟩
  · refine .inl ((p.mem_findings_issues u).mpr (.inr ?_))
    rw [← hcallee] at he ⊢
    exact Run.mem_contaminatedIssues.mpr ⟨x, hx, c, hsite, he, rfl⟩

theorem exists_of_contaminatedCall {i : Issue} (hi : i ∈ (p.findings u).issues)
    (hr : i.rule = .contaminatedCall) :
    ∃ f ∈ (p.findings u).graph.functions, ∃ g ∈ (p.findings u).graph.functions,
      g.key ∈ f.calls ∧ g.modifies = true ∧ ∃ c,
        (p.findings u).graph.findCall? f g.key = some c ∧
          i = Run.contaminatedIssue p.watch c.info.pos g.key := by
  rcases (p.mem_findings_issues u).mp hi with hi | hi
  · exact absurd hr ((p.settled_accounted u).rules i hi)
  · obtain ⟨x, hx, c, hsite, -, rfl⟩ := Run.mem_contaminatedIssues.mp hi
    obtain ⟨f, hf, g, hg, hkey, hc, hm, hcall⟩ := p.exists_of_found u hx
    exact ⟨f, hf, g, hg, hc, hm, c, hcall.symm.trans hsite, by rw [hkey]⟩

theorem escape_reports : List.Forall₂ Run.EscapeAt (p.settled u).escapes.reverse
    (((p.findings u).notes.flatMap Note.reported).filter (·.rule = .pointerEscape)) := by
  have hnone : (p.contaminations u).filter (·.rule = .pointerEscape) = [] := by
    rw [List.filter_eq_nil_iff]
    intro i hi
    obtain ⟨x, -, c, -, -, rfl⟩ := Run.mem_contaminatedIssues.mp hi
    simp [Run.contaminatedIssue]
  rw [findings_reports, List.filter_append, hnone, List.append_nil]
  exact (p.settled_accounted u).escapes

theorem contaminated_not_reported {site : Position × String} (hs : site ∈ (p.settled u).escapes) :
    Run.contaminatedIssue p.watch site.1 site.2 ∉ (p.findings u).notes.flatMap Note.reported := by
  intro hi
  rw [findings_reports, List.mem_append] at hi
  rcases hi with hi | hi
  · exact (p.settled_accounted u).rules _ hi rfl
  · obtain ⟨x, -, c, -, hn, he⟩ := Run.mem_contaminatedIssues.mp hi
    obtain ⟨hpos, hkey⟩ := Run.contaminatedIssue_inj he
    rw [← hpos, ← hkey] at hn
    exact hn hs

end Findings

/-- Where a function calls one that mutates, the first such call in its body is reported, as one that
passes a pointer on or as one of a mutating function. Nothing else is reported as the latter, and no
call is reported as both: the reports of escapes are, in order, those of the calls that are known to
pass a pointer on. -/
theorem findings_report_contaminated (p : Policy) (u : SourceUnit) :
    (∀ f ∈ (p.findings u).graph.functions, ∀ g ∈ (p.findings u).graph.functions,
      g.key ∈ f.calls → g.modifies = true →
        ∃ c, (p.findings u).graph.FirstCall f g.key c ∧
          (Run.contaminatedIssue p.watch c.info.pos g.key ∈ (p.findings u).issues ∨
            ∃ source, Run.escapeIssue c.info.pos source g.key ∈ (p.findings u).issues)) ∧
    (∀ i ∈ (p.findings u).issues, i.rule = .contaminatedCall →
      ∃ f ∈ (p.findings u).graph.functions, ∃ g ∈ (p.findings u).graph.functions,
        g.key ∈ f.calls ∧ g.modifies = true ∧ ∃ c, (p.findings u).graph.FirstCall f g.key c ∧
          i = Run.contaminatedIssue p.watch c.info.pos g.key) ∧
    List.Forall₂ Run.EscapeAt (p.settled u).escapes.reverse
      (((p.findings u).notes.flatMap Note.reported).filter (·.rule = .pointerEscape)) ∧
    ∀ site ∈ (p.settled u).escapes, Run.contaminatedIssue p.watch site.1 site.2 ∉
      (p.findings u).notes.flatMap Note.reported := by
  refine ⟨fun f hf g hg hc hm => ?_, fun i hi hr => ?_, ?_, fun site hs => ?_⟩
  · obtain ⟨c, hcall, hreported⟩ := p.call_reported u hf hg hc hm
    exact ⟨c, CallGraph.firstCall_of_findCall? hcall, hreported⟩
  · obtain ⟨f, hf, g, hg, hc, hm, c, hcall, he⟩ := p.exists_of_contaminatedCall u hi hr
    exact ⟨f, hf, g, hg, hc, hm, c, CallGraph.firstCall_of_findCall? hcall, he⟩
  · exact p.escape_reports u
  · exact p.contaminated_not_reported u hs

theorem findings_report_contaminated_counter :
    ∃ i ∈ (findings {} .counter).issues, i.rule = .contaminatedCall ∧
      ∃ f ∈ (findings {} .counter).graph.functions, ∃ g ∈ (findings {} .counter).graph.functions,
        g.key ∈ f.calls ∧ g.modifies = true ∧ ∃ c,
          (findings {} .counter).graph.FirstCall f g.key c ∧
            i = Run.contaminatedIssue (watch {}) c.info.pos g.key := by
  have h : (findings {} .counter).issues.any (fun i => i.rule = .contaminatedCall) = true := by
    decide +kernel
  obtain ⟨i, hi, hr⟩ := List.any_eq_true.mp h
  rw [decide_eq_true_eq] at hr
  exact ⟨i, hi, hr, (findings_report_contaminated {} .counter).2.1 i hi hr⟩

end Policy

end ReadGuard
