import ReadGuard.Proofs.Check.Reports

namespace ReadGuard

namespace Block

def evaluatedCalls (b : Block) : List Call :=
  (Node.stmt (.block b)).reached.filterMap Node.call?

def loopVariableCalls (b : Block) : List Call :=
  (Node.stmt (.block b)).reached.flatMap fun n => n.loopVariables.flatMap Node.calls

theorem calls_perm (b : Block) : b.calls.Perm (b.evaluatedCalls ++ b.loopVariableCalls) := by
  have h := (Node.walk_perm (.stmt (.block b))).filterMap Node.call?
  rw [List.filterMap_append, List.filterMap_flatMap] at h
  simp only [List.filterMap_flatMap] at h
  exact h

end Block

theorem Node.called_own (keyOf : Call → String) (n : Node) :
    n.own.flatMap (Event.called keyOf) = (n.call?.map keyOf).toList := by
  cases n with
  | expr e => cases e <;> rfl
  | stmt s => cases s <;> rfl
  | _ => rfl

theorem FuncDecl.called_perm {f : FuncDecl} {body : Block} (hb : f.body = some body)
    (keyOf : Call → String) :
    (f.events.flatMap (Event.called keyOf)).Perm (body.evaluatedCalls.map keyOf) := by
  have h := f.events_perm.flatMap_right (Event.called keyOf)
  have hr : f.reached = (Node.stmt (.block body)).reached := by rw [FuncDecl.reached, hb]
  rw [List.flatMap_assoc, hr] at h
  simp only [Node.called_own] at h
  rwa [Block.evaluatedCalls, List.map_filterMap, List.filterMap_eq_flatMap_toList]

namespace Policy

variable (q : Policy) (u : SourceUnit)

/-- What is recorded of a function are the keys of the calls that are made in it, once for each.
Against all calls in its body, those in the variables of range loops are missing, and only those. -/
theorem check_records_calls (found : Findings) (h : q.check u = .checked found) (f : FuncRecord)
    (hf : f ∈ found.graph.functions) (body : Block) (hb : f.decl.body = some body) :
    f.calls.Perm (body.evaluatedCalls.map found.graph.calleeKey) ∧
      body.calls.Perm (body.evaluatedCalls ++ body.loopVariableCalls) ∧
      ((∀ key, (body.calls.map found.graph.calleeKey).count key ≤ f.calls.count key) ↔
        body.loopVariableCalls = []) := by
  rw [check_eq_checked h] at hf ⊢
  have hcalls : f.calls.Perm (body.evaluatedCalls.map (q.findings u).graph.calleeKey) := by
    rw [q.findings_calls u hf]
    exact FuncDecl.called_perm hb _
  have hall : ∀ key, (body.calls.map (q.findings u).graph.calleeKey).count key =
      f.calls.count key +
        (body.loopVariableCalls.map (q.findings u).graph.calleeKey).count key := by
    intro key
    rw [(body.calls_perm.map _).count_eq, List.map_append, List.count_append, hcalls.count_eq]
  refine ⟨hcalls, body.calls_perm, fun hle => ?_, fun hnil key => ?_⟩
  · apply List.eq_nil_iff_forall_not_mem.mpr
    intro c hc
    have hpos := List.count_pos_iff.mpr (List.mem_map_of_mem
      (f := (q.findings u).graph.calleeKey) hc)
    have hkey := hall ((q.findings u).graph.calleeKey c)
    have hbound := hle ((q.findings u).graph.calleeKey c)
    omega
  · rw [hall key, hnil, List.map_nil, List.count_nil]
    exact Nat.le_refl _

end Policy

def FuncDecl.next : FuncDecl where
  name := "next"
  body := some (.mk [] {})

def FuncDecl.store : FuncDecl where
  name := "store"
  body := some (.mk [.range (.ident { name := "xs" }) (.mk [] {})
    (some (.index (.call (.ident { name := "next" }) [] {}) (.lit "INT" "0" {}) {})) none "=" {}] {})

def SourceUnit.looper : SourceUnit where
  name := "reader"
  files := [⟨"loop.go", "reader", [.next, .store]⟩]

namespace Policy

theorem exists_store : ∃ f ∈ (findings {} .looper).graph.functions, f.decl = .store := by
  have hget : (CallGraph.ofUnit .looper).get? "reader.store" =
      some { key := "reader.store", decl := .store } := rfl
  obtain ⟨f, hf, -, hd⟩ := (findings_sameUnit {} .looper).get?_decl hget
  exact ⟨f, CallGraph.get?_mem hf, hd⟩

theorem check_records_calls_looper :
    check {} .looper = .checked (findings {} .looper) ∧
      ∃ f ∈ (findings {} .looper).graph.functions, ∃ body, f.decl.body = some body ∧
        f.calls.Perm (body.evaluatedCalls.map (findings {} .looper).graph.calleeKey) ∧
        body.calls.Perm (body.evaluatedCalls ++ body.loopVariableCalls) ∧
        ((∀ key, (body.calls.map (findings {} .looper).graph.calleeKey).count key ≤
          f.calls.count key) ↔ body.loopVariableCalls = []) := by
  obtain ⟨f, hf, hd⟩ := exists_store
  have hbody : f.decl.body = FuncDecl.store.body := by rw [hd]
  exact ⟨rfl, f, hf, _, hbody, check_records_calls {} .looper _ rfl f hf _ hbody⟩

/-- The call in the loop variable of `store` is one of the calls in its body, but is not recorded. -/
theorem check_overlooks_loop_variable :
    check {} .looper = .checked (findings {} .looper) ∧
      ∃ f ∈ (findings {} .looper).graph.functions, ∃ body, f.decl.body = some body ∧
        ∃ c ∈ body.calls, (findings {} .looper).graph.calleeKey c = "reader.next" ∧
          "reader.next" ∉ f.calls := by
  obtain ⟨f, hf, hd⟩ := exists_store
  have hbody : f.decl.body = FuncDecl.store.body := by rw [hd]
  have hcalls : f.calls = [] := by
    rw [findings_calls {} .looper hf, hd]
    rfl
  refine ⟨rfl, f, hf, _, hbody, ⟨.ident { name := "next" }, [], {}⟩, .head _, ?_, ?_⟩
  · rw [(findings_sameUnit {} .looper).calleeKey]
    rfl
  · rw [hcalls]
    exact List.not_mem_nil

end Policy

end ReadGuard
