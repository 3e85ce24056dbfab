import ReadGuard.Proofs.Check.Action
import ReadGuard.Proofs.Check.Reports

namespace ReadGuard

inductive Policy.Reached (p : Policy) (u : SourceUnit) : Run → Prop
  /-- Some of the functions are declared. -/
  | declaring {decls rest : List FuncDecl} (h : u.functions = decls ++ rest) :
      Reached p u { graph := decls.foldl CallGraph.register (.empty u.name u.path) }
  /-- Some functions were gone through for the first time, and the next one in part. -/
  | first {fs rest : List FuncRecord} {f : FuncRecord} {r : Run} {acts more : List Action}
      (h : (CallGraph.ofUnit u).functions = fs ++ f :: rest)
      (hr : fs.foldl (fun r f => r.walk p.watch true f {}) (Run.start u) = r)
      (ha : f.decl.actions (CallGraph.ofUnit u).calleeKey = acts ++ more) :
      Reached p u (acts.foldl (Run.act p.watch true f.key) { r with aliases := {} })
  /-- The queue was served some times, and its next function was gone through in part. -/
  | again {n : Nat} {r : Run} {key : String} {queue : Queue} {f : FuncRecord}
      {bindings : List (String × Expr)} {acts more : List Action}
      (hr : (Run.rewalk p.watch n (Run.firstPass p.watch (.start u))).run = r)
      (hq : r.queue.pop? = some (key, queue)) (hf : r.graph.get? key = some f)
      (hb : f.bindings = .ok bindings)
      (ha : f.decl.actionsFrom (CallGraph.ofUnit u).calleeKey bindings = acts ++ more) :
      Reached p u (acts.foldl (Run.act p.watch false f.key)
        { r with queue := queue, aliases := {} })
  /-- Marks have spread, and issues were reported on the way. -/
  | spreading {g : CallGraph} (h : (p.settled u).graph.Spread g) (found : List Issue) :
      Reached p u (found.foldl Run.report { p.settled u with graph := g })

namespace Policy

/-- A property of states that holds of declared functions and is kept by all that a check does
before the marks spread. -/
structure Stepwise (p : Policy) (u : SourceUnit) (P : Run → Prop) : Prop where
  declared : ∀ decls : List FuncDecl,
    P { graph := decls.foldl CallGraph.register (.empty u.name u.path) }
  queued : ∀ r queue, P r → P { r with queue := queue }
  begun : ∀ r, P r → P { r with aliases := {} }
  seeded : ∀ r recording f, P r → f ∈ r.graph.functions → ∀ b ∈ f.bound,
    P (r.act p.watch recording f.key (.seeds b.1 b.2))
  acted : ∀ r recording, P r → (CallGraph.ofUnit u).SameUnit r.graph →
    ∀ f ∈ (CallGraph.ofUnit u).functions,
      ∀ a ∈ f.decl.actions (CallGraph.ofUnit u).calleeKey, P (r.act p.watch recording f.key a)

/-- A property that is also kept while the marks spread. -/
structure Invariant (p : Policy) (u : SourceUnit) (P : Run → Prop) : Prop
    extends Stepwise p u P where
  spread : ∀ r g, P r → r.graph.Spread g → P { r with graph := g }
  reported : ∀ r i, P r → P (r.report i)

namespace Stepwise

variable {p : Policy} {u : SourceUnit} {P : Run → Prop} {r : Run} {f : FuncRecord}

def Here (u : SourceUnit) (P : Run → Prop) (r : Run) : Prop :=
  (CallGraph.ofUnit u).SameUnit r.graph ∧ P r

theorem acts (h : Stepwise p u P) (recording : Bool) (hr : Here u P r)
    (hf : f ∈ (CallGraph.ofUnit u).functions) (as : List Action)
    (has : as ⊆ f.decl.actions (CallGraph.ofUnit u).calleeKey) :
    Here u P (as.foldl (Run.act p.watch recording f.key) r) := by
  induction as generalizing r with
  | nil => exact hr
  | cons a as ih =>
    rw [List.cons_subset] at has
    apply ih _ has.2
    exact ⟨hr.1.trans (Run.sameUnit_act _ _ _ r a), h.acted r recording hr.2 hr.1 f hf a has.1⟩

theorem seeds (h : Stepwise p u P) (recording : Bool) (hr : Here u P r)
    (hf : f ∈ r.graph.functions) (bs : List (String × Expr)) (hbs : bs ⊆ f.bound) :
    Here u P ((bs.map fun b => .seeds b.1 b.2).foldl (Run.act p.watch recording f.key) r) := by
  induction bs generalizing r with
  | nil => exact hr
  | cons b bs ih =>
    rw [List.cons_subset] at hbs
    exact ih (r := { r with aliases := _ }) ⟨hr.1, h.seeded r recording f hr.2 hf b hbs.1⟩ hf hbs.2

/-- A function is gone through again in part: some of its parameters are set, or all of them and
some of its own actions are done. -/
theorem again (h : Stepwise p u P) (hr : Here u P r) (hf : f ∈ r.graph.functions)
    {as more : List Action}
    (has : f.decl.actionsFrom (CallGraph.ofUnit u).calleeKey f.bound = as ++ more) :
    Here u P (as.foldl (Run.act p.watch false f.key) r) := by
  obtain ⟨f₀, hf₀, hkey, hdecl⟩ := hr.1.exists_decl hf
  rw [FuncDecl.actionsFrom, List.append_eq_append_iff] at has
  obtain ⟨own, rfl, hown⟩ | ⟨unset, hset, -⟩ := has
  · rw [List.foldl_append]
    have hs := h.seeds false hr hf f.bound fun _ hb => hb
    rw [hkey] at hs ⊢
    apply h.acts false hs hf₀
    rw [← hdecl, hown]
    exact List.subset_append_left _ _
  · obtain ⟨bs, bs', hb, rfl, -⟩ := List.map_eq_append_iff.mp hset
    apply h.seeds false hr hf
    rw [hb]
    exact List.subset_append_left _ _

theorem begin (h : Stepwise p u P) (hr : Here u P r) (queue : Queue) :
    Here u P { r with queue := queue, aliases := {} } :=
  ⟨hr.1, h.begun _ (h.queued r queue hr.2)⟩

theorem walks (h : Stepwise p u P) (hr : Here u P r) (fs : List FuncRecord)
    (hfs : fs ⊆ (CallGraph.ofUnit u).functions) :
    Here u P (fs.foldl (fun r f => r.walk p.watch true f {}) r) := by
  induction fs generalizing r with
  | nil => exact hr
  | cons f fs ih =>
    rw [List.cons_subset] at hfs
    apply ih _ hfs.2
    dsimp only
    rw [Run.walk_eq_acts (funext hr.1.calleeKey)]
    exact h.acts true (h.begin hr r.queue) hfs.1 _ fun _ ha => ha

theorem start (h : Stepwise p u P) : Here u P (Run.start u) :=
  ⟨.refl _, h.declared u.functions⟩

theorem rewalk (h : Stepwise p u P) (n : Nat) :
    Here u P (Run.rewalk p.watch n (Run.firstPass p.watch (.start u))).run := by
  apply Run.rewalk_induction
  · intro r key queue f hr hq hf _
    have hr' : Here u P { r with queue := queue, aliases := {} } := h.begin hr queue
    rw [Run.rewalk_eq_acts (r := { r with queue := queue }) (funext hr.1.calleeKey)]
    exact h.again hr' (CallGraph.get?_mem hf) (List.append_nil _).symm
  · intro r key queue hr hq hf
    exact ⟨hr.1, h.queued r queue hr.2⟩
  · exact h.walks h.start _ fun _ hf => hf

/-- The marks spread from the settled state on; all states before have the property. -/
theorem reached (h : Stepwise p u P) (hr : p.Reached u r) :
    P r ∨ P (p.settled u) ∧ ∃ (g : CallGraph) (found : List Issue), (p.settled u).graph.Spread g ∧
      r = found.foldl Run.report { p.settled u with graph := g } := by
  cases hr with
  | declaring _ => exact .inl (h.declared _)
  | @first fs rest f r acts more hfs hr ha =>
    have hw : Here u P r := hr ▸ h.walks h.start fs (by simp [hfs])
    refine .inl (h.acts true (h.begin hw r.queue) (f := f) (by simp [hfs]) acts ?_).2
    rw [ha]
    exact List.subset_append_left _ _
  | @again n r key queue f bindings acts more hr hq hf hb ha =>
    obtain rfl := FuncRecord.bindings_eq_bound hb
    have hw : Here u P r := hr ▸ h.rewalk n
    exact .inl (h.again (h.begin hw queue) (CallGraph.get?_mem hf) ha).2
  | @spreading g hg found => exact .inr ⟨(h.rewalk _).2, g, found, hg, rfl⟩

end Stepwise

theorem Invariant.reached {p : Policy} {u : SourceUnit} {P : Run → Prop} {r : Run}
    (h : Invariant p u P) (hr : p.Reached u r) : P r := by
  replace hr := h.toStepwise.reached hr
  obtain hr | ⟨hs, g, found, hg, rfl⟩ := hr
  · exact hr
  have hs' : P { p.settled u with graph := g } := h.spread _ g hs hg
  generalize ({ p.settled u with graph := g } : Run) = r at hs'
  induction found generalizing r with
  | nil => exact hs'
  | cons i found ih => exact ih _ (h.reported r i hs')

theorem reached_close (p : Policy) (u : SourceUnit) :
    p.Reached u ((p.settled u).close p.watch).2 := by
  rw [Run.close_eq]
  exact .spreading (CallGraph.propagate_sweepsTo _).spread _

end Policy

end ReadGuard
