import Mathlib.Data.List.Nodup
import ReadGuard.Proofs.Check.Reports

namespace ReadGuard

theorem FuncRecord.nodup_uniqueCalls (f : FuncRecord) : f.uniqueCalls.Nodup := by
  unfold uniqueCalls
  generalize f.calls = calls
  -- each step takes all copies of the first key out of the rest
  induction hn : calls.length using Nat.strongRecOn generalizing calls with
  | _ n ih =>
    subst hn
    cases calls with
    | nil => exact List.nodup_nil
    | cons key rest =>
      have hlen := List.length_filter_le (fun k => !k == key) rest
      rw [List.eraseDups_cons, List.nodup_cons, List.mem_eraseDups]
      refine ⟨by simp, ih _ ?_ _ rfl⟩
      rw [List.length_cons]
      omega

namespace CallGraph

variable {g : CallGraph}

theorem mem_edges {e : CallEdge} : e ∈ g.edges ↔ ∃ f ∈ g.functions, ∃ callee ∈ f.calls,
    e = ⟨f.key, callee, g.findCall? f callee, g.resolutionOf callee⟩ := by
  simp only [edges, FuncRecord.uniqueCalls, List.mem_flatMap, List.mem_map, List.mem_eraseDups,
    eq_comm]

def ends (e : CallEdge) : String × String := (e.caller, e.callee)

theorem ends_edges (g : CallGraph) :
    g.edges.map ends = g.functions.flatMap fun f => f.uniqueCalls.map (f.key, ·) := by
  simp [edges, ends, List.map_flatMap, Function.comp_def]

/-- Where keys are unique, no two edges have the same caller and callee. -/
theorem nodup_ends (hk : g.keys.Nodup) : (g.edges.map ends).Nodup := by
  rw [ends_edges, List.nodup_flatMap]
  constructor
  · intro f _
    apply List.Nodup.map
    · exact fun a b h => (Prod.mk.inj h).2
    · exact f.nodup_uniqueCalls
  · apply (List.pairwise_map.mp hk).imp
    intro f f' hne pair hp hp'
    obtain ⟨a, -, rfl⟩ := List.mem_map.mp hp
    obtain ⟨b, -, he⟩ := List.mem_map.mp hp'
    exact hne (Prod.mk.inj he).1.symm

end CallGraph

namespace Policy

variable (p : Policy) (u : SourceUnit)

/-- Every key that a function was found to call is the key of a call in its body. -/
theorem findings_findCall? {f : FuncRecord} {key : String}
    (hf : f ∈ (p.findings u).graph.functions) (hc : key ∈ f.calls) :
    ∃ c, (p.findings u).graph.findCall? f key = some c := by
  have hs := p.findings_spread u
  obtain ⟨f₀, hf₀, hff⟩ := hs.get?_back (p.findings_get? u hf)
  rw [hff.calls] at hc
  obtain ⟨c, hcall⟩ := p.settled_findCall? u (CallGraph.get?_mem hf₀) hc
  exact ⟨c, by rw [hs.sameUnit.findCall? hff.decl, hcall]⟩

/-- The spread of marks reports no pair without a call that it could point to. -/
theorem site_of_found {x : Contamination} (hx : x ∈ (p.settled u).graph.propagate.found) :
    ∃ c, x.site = some c := by
  obtain ⟨f, hf, g, -, -, hc, -, hsite⟩ := p.exists_of_found u hx
  obtain ⟨c, hcall⟩ := p.findings_findCall? u hf hc
  exact ⟨c, hsite.trans hcall⟩

/-- The edges of the graph of a unit that was checked are those of a function and a key that it was
found to call, one for each such pair. Each has a call: the first one of its key in the body of its
caller. So no call of a mutating function is left out for want of a place. -/
theorem check_edges_have_calls (found : Findings) (h : p.check u = .checked found) :
    (∀ e ∈ found.graph.edges, ∃ f ∈ found.graph.functions, f.key = e.caller ∧
      ∃ c, e.call = some c ∧ found.graph.FirstCall f e.callee c) ∧
    (found.graph.edges.map CallGraph.ends).Nodup ∧
    (∀ caller callee, (caller, callee) ∈ found.graph.edges.map CallGraph.ends ↔
      ∃ f ∈ found.graph.functions, f.key = caller ∧ callee ∈ f.calls) ∧
    found.graph = (p.settled u).graph.propagate.graph ∧
    ∀ x ∈ (p.settled u).graph.propagate.found, ∃ c, x.site = some c := by
  rw [check_eq_checked h]
  refine ⟨?_, ?_, ?_, p.findings_graph u, fun x hx => p.site_of_found u hx⟩
  · intro e he
    obtain ⟨f, hf, callee, hc, rfl⟩ := CallGraph.mem_edges.mp he
    obtain ⟨c, hcall⟩ := p.findings_findCall? u hf hc
    exact ⟨f, hf, rfl, c, hcall, CallGraph.firstCall_of_findCall? hcall⟩
  · apply CallGraph.nodup_ends
    rw [(p.findings_spread u).sameUnit.keys]
    exact (p.settled_valid u).1.budget.keys
  · intro caller callee
    simp [CallGraph.ends_edges, FuncRecord.uniqueCalls, and_comm]

end Policy

namespace FuncDecl

def pick : FuncDecl where
  name := "pick"
  body := some (.mk [] {})

/-- Calls `pick` with what a call of it gives. The inner call is made first. -/
def pickTwice : FuncDecl where
  name := "pickTwice"
  body := some (.mk [.expr (.call (.ident { name := "pick" })
    [.call (.ident { name := "pick" }) [] ⟨none, { line := 1, column := 6 }⟩]
    ⟨none, { line := 1, column := 1 }⟩) {}] {})

end FuncDecl

def SourceUnit.picker : SourceUnit where
  name := "reader"
  files := [⟨"pick.go", "reader", [.pick, .pickTwice]⟩]

theorem Policy.check_edges_have_calls_picker :
    check {} .picker = .checked (findings {} .picker) ∧
      ∃ e ∈ (findings {} .picker).graph.edges, e.pos.column = 1 ∧
        ∃ f ∈ (findings {} .picker).graph.functions, f.key = e.caller ∧ f.calls.length = 2 ∧
          ∃ c, e.call = some c ∧ (findings {} .picker).graph.FirstCall f e.callee c := by
  have hedges := (check_edges_have_calls {} .picker _ rfl).1
  have hany : (findings {} .picker).graph.edges.any (fun e => e.pos.column = 1) = true := by
    decide +kernel
  have hcalls : (findings {} .picker).graph.functions.all (fun f =>
      (findings {} .picker).graph.edges.all fun e => f.key ≠ e.caller ∨ f.calls.length = 2) =
        true := by
    decide +kernel
  obtain ⟨e, he, hpos⟩ := List.any_eq_true.mp hany
  obtain ⟨f, hf, hk, hc⟩ := hedges e he
  have hlen := List.all_eq_true.mp (List.all_eq_true.mp hcalls f hf) e he
  refine ⟨rfl, e, he, by simpa using hpos, f, hf, hk, ?_, hc⟩
  simpa [hk] using hlen

end ReadGuard
