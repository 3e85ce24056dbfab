import ReadGuard.Proofs.Check.Reports

namespace ReadGuard

/-- The target of a write is protected storage whatever the names hold. -/
inductive DirectTarget (p : Protection) : Expr → TargetKind → Prop
  | field {e x : Expr} {name : String} {info : Info} (he : e.unparen = .selector x name info)
      (hr : p.fieldRoot (.selector x name info) ≠ none) : DirectTarget p e .field
  | index {e x i : Expr} {info : Info} (he : e.unparen = .index x i info)
      (hr : p.fieldRoot x ≠ none) : DirectTarget p e .index
  | pointer {e x y : Expr} {info info' : Info} (he : e.unparen = .star x info)
      (hx : x.unparen = .unary "&" y info') (hr : p.fieldRoot y ≠ none) : DirectTarget p e .pointer

namespace TargetKind

def assignRule : TargetKind → Rule
  | .field => .fieldAssign
  | .pointer => .pointerAssign
  | .index => .indexedWrite

def stepRule : TargetKind → Rule
  | .field => .fieldIncDec
  | .pointer => .pointerIncDec
  | .index => .indexedWrite

end TargetKind

/-- The direct writes of a statement itself: where each is an issue, and of which rule. An
assignment is one at its target, an increment or a decrement at the statement. -/
inductive Stmt.WritesAt (p : Protection) : Stmt → Position → Rule → Prop
  | assign {left right : List Expr} {op : String} {pos : Position} {e : Expr} {kind : TargetKind}
      (he : e ∈ left) (ht : DirectTarget p e kind) :
      WritesAt p (.assign left op right pos) e.pos kind.assignRule
  | incDec {x : Expr} {op : String} {pos : Position} {kind : TargetKind}
      (ht : DirectTarget p x kind) : WritesAt p (.incDec x op pos) pos kind.stepRule

variable {w : Watch} {p : Protection} {kind : TargetKind} {e : Expr}

theorem DirectTarget.classify (h : DirectTarget p e kind) (s : Aliases) :
    ∃ t, WriteTarget.classify p s e = some t ∧ t.kind = kind := by
  cases h with
  | @field x name info he hr =>
    obtain ⟨root, hroot⟩ := Option.ne_none_iff_exists'.mp hr
    refine ⟨⟨.field, .selector x name info, root, ""⟩, ?_, rfl⟩
    rw [WriteTarget.classify, he]
    simp only [WriteTarget.ofSelector, hroot]
  | @index x i info he hr =>
    obtain ⟨root, hroot⟩ := Option.ne_none_iff_exists'.mp hr
    refine ⟨⟨.index, .index x i info, root, ""⟩, ?_, rfl⟩
    rw [WriteTarget.classify, he]
    simp only [WriteTarget.ofIndex, hroot]
  | @pointer x y info info' he hx hr =>
    obtain ⟨root, hroot⟩ := Option.ne_none_iff_exists'.mp hr
    have haddr : p.addressed x.unparen = some root := by
      rw [hx]
      exact hroot
    refine ⟨⟨.pointer, .star x info, root, x.unparen.render⟩, ?_, rfl⟩
    rw [WriteTarget.classify, he]
    simp only [WriteTarget.ofStar, haddr]

namespace Stmt.WritesAt

variable {st : Stmt} {pos : Position} {rule : Rule}

theorem mutates (h : st.WritesAt p pos rule) : rule.mutates = true := by
  cases h with
  | @assign _ _ _ _ _ kind _ _ => cases kind <;> rfl
  | @incDec _ _ _ kind _ => cases kind <;> rfl

/-- The event of a statement that writes directly is a breach in every state of the names. -/
theorem breach (h : st.WritesAt w.protection pos rule) :
    ∃ event ∈ (Node.stmt st).own, ∀ s : Aliases, ∃ i ∈ event.breaches w s,
      i.pos = pos ∧ i.rule = rule := by
  cases h with
  | @assign left right op _ e kind he ht =>
    refine ⟨.assign left op right, List.mem_singleton_self _, fun s => ?_⟩
    obtain ⟨t, hc, hk⟩ := ht.classify s
    have hrule : (w.written .assign e.pos t).rule = kind.assignRule := by
      rw [Watch.written, hk]
      cases kind <;> rfl
    refine ⟨w.written .assign e.pos t, ?_, rfl, hrule⟩
    exact List.mem_filterMap.mpr ⟨e, he, by rw [hc]; rfl⟩
  | @incDec x op _ kind ht =>
    refine ⟨.incDec x pos, List.mem_singleton_self _, fun s => ?_⟩
    obtain ⟨t, hc, hk⟩ := ht.classify s
    have hrule : (w.written .step pos t).rule = kind.stepRule := by
      rw [Watch.written, hk]
      cases kind <;> rfl
    refine ⟨w.written .step pos t, ?_, rfl, hrule⟩
    rw [Event.breaches, Watch.inIncDec, hc]
    exact List.mem_singleton_self _

end Stmt.WritesAt

/-- A breach that an event makes in every state of the names is found on every way through the
events. -/
theorem Effect.exists_breach_ofEvents {keyOf : Call → String} {events : List Event} {event : Event}
    (hm : event ∈ events) {P : Issue → Prop} (h : ∀ s, ∃ i ∈ event.breaches w s, P i)
    (s : Aliases) : ∃ i, breach i ∈ ofEvents w keyOf s events ∧ P i := by
  induction events generalizing s with
  | nil => simp at hm
  | cons first events ih =>
    rcases List.mem_cons.mp hm with rfl | hm
    · obtain ⟨i, hi, hp⟩ := h s
      exact ⟨i, List.mem_append_left _ (breach_mem_ofEvent.mpr hi), hp⟩
    · obtain ⟨i, hi, hp⟩ := ih hm (first.rebound w s)
      exact ⟨i, List.mem_append_right _ hi, hp⟩

namespace Policy

variable {q : Policy} {u : SourceUnit} {f : FuncRecord}

/-- What a function does in itself, with the pointers that its parameters may hold, is found. -/
theorem findings_breach (hf : f ∈ (q.findings u).graph.functions) {i : Issue}
    (hi : .breach i ∈ Run.effectsOf q.watch (q.findings u).graph f (Run.seeded f.bound)) :
    i ∈ (q.findings u).issues ∧ (i.rule.mutates = true → f.modifies = true) := by
  have hs := q.findings_spread u
  have hget := q.findings_get? u hf
  obtain ⟨f₀, hf₀, hff⟩ := hs.get?_back hget
  rw [Run.effectsOf_congr q.watch hs.sameUnit hff.decl,
    FuncRecord.bound_congr hff.decl hff.received] at hi
  have hnot : f₀.key ∉ (q.settled u).queue := q.not_mem_settled_queue u f₀.key
  obtain ⟨hmem, hmod⟩ := (q.settled_valid u).2 f₀ (CallGraph.get?_mem hf₀) hnot _ hi
  constructor
  · rw [(q.settled_accounted u).issues] at hmem
    exact (q.mem_findings_issues u).mpr (.inl hmem)
  · intro hr
    have hmark := hs.modifies (hmod hr)
    rwa [← hff.key, CallGraph.modifies_of_get? hget] at hmark

/-- No direct write is missed: wherever one is reached in a function, there is an issue at its place
and of its rule, and the function is marked as one that mutates. -/
theorem check_reports_direct_writes (q : Policy) (u : SourceUnit) (found : Findings)
    (h : q.check u = .checked found) (f : FuncRecord) (hf : f ∈ found.graph.functions) (st : Stmt)
    (hst : .stmt st ∈ f.decl.reached) (pos : Position) (rule : Rule)
    (hw : st.WritesAt q.protection pos rule) :
    (∃ i ∈ found.issues, i.pos = pos ∧ i.rule = rule) ∧ f.modifies = true := by
  rw [check_eq_checked h] at hf ⊢
  obtain ⟨event, hown, hbreach⟩ := Stmt.WritesAt.breach (w := q.watch) hw
  have hevent : event ∈ f.decl.events := FuncDecl.mem_events.mpr ⟨.stmt st, hst, hown⟩
  obtain ⟨i, hi, rfl, rfl⟩ := Effect.exists_breach_ofEvents hevent hbreach (Run.seeded f.bound)
  obtain ⟨hmem, hmod⟩ := findings_breach hf hi
  exact ⟨⟨i, hmem, rfl, rfl⟩, hmod hw.mutates⟩

end Policy

def Stmt.zero : Stmt :=
  .assign [.paren (.selector (.ident { name := "d", info := ⟨some (.named "data" "BigStruct"), {}⟩ })
    "n" {}) ⟨none, { line := 3 }⟩] "=" [.lit "INT" "0" {}] { line := 3 }

def FuncDecl.reset : FuncDecl where
  name := "reset"
  body := some (.mk [.range (.ident { name := "xs" })
    (.mk [.expr (.call (.funcLit [] (.mk [.zero] {}) {}) [] {}) {}] {})
    (some (.ident { name := "i" })) none ":=" {}] {})

def SourceUnit.resetter : SourceUnit where
  name := "reader"
  files := [⟨"reset.go", "reader", [.reset]⟩]

theorem Policy.check_reports_direct_writes_resetter :
    check {} .resetter = .checked (findings {} .resetter) ∧
      .stmt .zero ∈ FuncDecl.reset.reached ∧
      Stmt.zero.WritesAt (protection {}) { line := 3 } .fieldAssign ∧
      ∃ f ∈ (findings {} .resetter).graph.functions, f.decl = .reset ∧
        (∃ i ∈ (findings {} .resetter).issues, i.pos = { line := 3 } ∧ i.rule = .fieldAssign) ∧
          f.modifies = true := by
  have hcheck : check {} .resetter = .checked (findings {} .resetter) := rfl
  have hreached : .stmt .zero ∈ FuncDecl.reset.reached := by
    -- through the loop, its body, the call, the literal that it calls and its body
    apply Node.mem_reached_of_evaluated (.head _)
    apply Node.mem_reached_of_evaluated (.tail _ (.head _))
    iterate 5 apply Node.mem_reached_of_evaluated (.head _)
    exact Node.mem_reached_self _
  have htarget : DirectTarget (protection {}) (.paren (.selector (.ident
      { name := "d", info := ⟨some (.named "data" "BigStruct"), {}⟩ }) "n" {}) ⟨none, { line := 3 }⟩)
      .field := .field rfl (by decide)
  have hwrites : Stmt.zero.WritesAt (protection {}) { line := 3 } .fieldAssign :=
    .assign (List.mem_singleton_self _) htarget
  have hget : (CallGraph.ofUnit .resetter).get? "reader.reset" =
      some { key := "reader.reset", decl := .reset } := rfl
  obtain ⟨f, hf, -, hd⟩ := (findings_sameUnit {} .resetter).get?_decl hget
  have hmem := CallGraph.get?_mem hf
  exact ⟨hcheck, hreached, hwrites, f, hmem, hd, check_reports_direct_writes {} .resetter _ hcheck f
    hmem .zero (hd ▸ hreached) _ _ hwrites⟩

end ReadGuard
