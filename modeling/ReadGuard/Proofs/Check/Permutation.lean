import ReadGuard.Proofs.Check.Extension

namespace ReadGuard

namespace CallGraph

variable {g g' : CallGraph} {key : String}

theorem get?_perm (hn : g.keys.Nodup) (hp : g.functions.Perm g'.functions) :
    g'.get? key = g.get? key := by
  have hn' : g'.keys.Nodup := (hp.map FuncRecord.key).nodup_iff.mp hn
  apply Option.ext
  intro f
  rw [get?_eq_some_iff hn, get?_eq_some_iff hn', hp.mem_iff]

theorem rearranged_of_perm {u v : SourceUnit} (hname : v.name = u.name) (hpath : v.path = u.path)
    (hp : u.functions.Perm v.functions)
    (hn : (u.functions.map (empty u.name u.path).functionKey).Nodup) :
    (ofUnit u).Rearranged (ofUnit v) := by
  have hn' : (v.functions.map (empty v.name v.path).functionKey).Nodup := by
    rw [hname, hpath]
    exact (hp.map _).nodup_iff.mp hn
  have hk := (blank_ofUnit u).keys
  rw [ofUnit_eq hn] at hk ⊢
  rw [ofUnit_eq hn', hname, hpath]
  refine ⟨rfl, rfl, fun key => ?_⟩
  rw [get?_perm hk (hp.map _)]

end CallGraph

namespace Policy

variable (p : Policy) {u v : SourceUnit}

section Rearranged

variable (h : (CallGraph.ofUnit u).Rearranged (CallGraph.ofUnit v))

include h

theorem findings_rearranged : (p.findings u).graph.Rearranged (p.findings v).graph :=
  (p.findings_sameUnit u).symm.rearranged.trans (h.trans (p.findings_sameUnit v).rearranged)

/-- A call that is reported because its callee mutates is reported so in any order. -/
theorem contaminations_of_rearranged {i : Issue} (hi : i ∈ p.contaminations u) :
    i ∈ p.contaminations v := by
  obtain ⟨x, hx, c, hsite, hn, rfl⟩ := Run.mem_contaminatedIssues.mp hi
  obtain ⟨f, hf, g, hg, hkey, hc, hm, hcall⟩ := p.exists_of_found u hx
  obtain ⟨f', hf', g', hg', hkey', hc', hm', hcall'⟩ :=
    p.call_of_extendedBy h.extendedBy hf hg hc hm
  obtain ⟨x', hx', hcallee, c', hsite', hfind⟩ := p.findings_found v hf' hg' hc' hm'
  rw [hcall', ← hcall, hsite, Option.some.injEq] at hfind
  subst hfind
  refine Run.mem_contaminatedIssues.mpr ⟨x', hx', c, hsite', fun he => hn ?_, ?_⟩
  · have hdecl : (p.settled v).graph.declares x'.callee = true := by
      rw [hcallee, ← (p.findings_spread v).sameUnit.declares]
      exact CallGraph.declares_of_get? (p.findings_get? v hg')
    have hdom := p.settled_dominated_of_extendedBy h.symm.extendedBy
    have hesc := hdom.escapes c.info.pos x'.callee he hdecl
    rwa [hcallee, hkey', hkey] at hesc
  · rw [hcallee, hkey', hkey]

theorem issues_of_rearranged {i : Issue} (hi : i ∈ (p.findings u).issues) :
    ∃ i' ∈ (p.findings v).issues, i.Alike i' := by
  rcases (p.mem_findings_issues u).mp hi with hi | hi
  · exact p.report_of_extendedBy h.extendedBy hi
  · exact ⟨i, (p.mem_findings_issues v).mpr (.inr (p.contaminations_of_rearranged h hi)), rfl, rfl⟩

end Rearranged

end Policy

/-- Two outcomes that differ in the messages and in the order of things at most. -/
structure Findings.Agree (a b : Findings) : Prop where
  declares : ∀ key, a.graph.declares key = b.graph.declares key
  modifies : ∀ key, a.graph.modifies key = b.graph.modifies key
  tainted : ∀ key n, a.graph.IsTainted key n ↔ b.graph.IsTainted key n
  issues : ∀ pos rule, (∃ i ∈ a.issues, i.pos = pos ∧ i.rule = rule) ↔
    ∃ i ∈ b.issues, i.pos = pos ∧ i.rule = rule

def Verdict.Agree : Verdict → Verdict → Prop
  | .skipped, .skipped => True
  | .checked a, .checked b => a.Agree b
  | _, _ => False

theorem Policy.findings_agree (p : Policy) {u v : SourceUnit}
    (h : (CallGraph.ofUnit u).Rearranged (CallGraph.ofUnit v)) :
    (p.findings u).Agree (p.findings v) where
  declares key := ((p.findings_rearranged h).declares key).symm
  modifies key := Bool.eq_iff_iff.mpr
    ⟨p.modifies_of_extendedBy h.extendedBy, p.modifies_of_extendedBy h.symm.extendedBy⟩
  tainted key n :=
    ⟨p.isTainted_of_extendedBy h.extendedBy, p.isTainted_of_extendedBy h.symm.extendedBy⟩
  issues pos rule := by
    constructor
    · rintro ⟨i, hi, rfl, rfl⟩
      exact p.issues_of_rearranged h hi
    · rintro ⟨i, hi, rfl, rfl⟩
      exact p.issues_of_rearranged h.symm hi

/-- The order in which the functions of a unit are declared does not matter to the verdict. -/
theorem Policy.check_perm (p : Policy) (u v : SourceUnit) (hname : v.name = u.name)
    (hpath : v.path = u.path) (hp : u.functions.Perm v.functions)
    (hn : (u.functions.map (CallGraph.empty u.name u.path).functionKey).Nodup) :
    (p.check u).Agree (p.check v) := by
  have h := p.findings_agree (CallGraph.rearranged_of_perm hname hpath hp hn)
  rw [check_eq, check_eq, hname, hpath]
  split
  · exact h
  · trivial

def SourceUnit.splitCounter : SourceUnit where
  name := "reader"
  files := [⟨"main.go", "reader", [.main, .update]⟩, ⟨"counter.go", "reader", [.increment]⟩]

theorem Policy.check_perm_counter :
    covers {} SourceUnit.counter.name SourceUnit.counter.path = true ∧
      (check {} .counter).Agree (check {} .splitCounter) := by
  have hp : SourceUnit.counter.functions.Perm SourceUnit.splitCounter.functions :=
    List.reverse_perm [FuncDecl.main, .update, .increment]
  have hn : (SourceUnit.counter.functions.map (CallGraph.empty "reader" "").functionKey).Nodup := by
    decide
  have h := check_perm {} .counter .splitCounter rfl rfl hp hn
  exact ⟨by decide, h⟩

end ReadGuard
