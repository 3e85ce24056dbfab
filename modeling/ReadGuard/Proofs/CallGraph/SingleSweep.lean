import Mathlib.Data.List.Chain
import Mathlib.Data.List.Nodup
import ReadGuard.Proofs.CallGraph.Contamination

namespace ReadGuard.CallGraph

def Acyclic (g : CallGraph) : Prop :=
  ∀ key, ¬ Relation.TransGen g.Calls key key

/-- At most `n` different functions stand in a row in which each calls the next. -/
def Shallow (g : CallGraph) (n : Nat) : Prop :=
  ∀ chain : List String, chain.IsChain g.Calls → chain.Nodup → chain.length ≤ n

theorem Acyclic.nodup {g : CallGraph} (h : g.Acyclic) {chain : List String}
    (hc : chain.IsChain g.Calls) : chain.Nodup := by
  have hway : chain.IsChain (Relation.TransGen g.Calls) := hc.imp fun _ _ => .single
  apply hway.pairwise.imp
  rintro a _ hab rfl
  exact h a hab

theorem Contaminated.declares {g : CallGraph} {key : String} (h : g.Contaminated key) :
    g.declares key = true := by
  obtain ⟨target, hr, hm⟩ := h
  induction hr using Relation.ReflTransGen.head_induction_on with
  | refl => exact declares_of_modifies hm
  | head hcall _ _ =>
    obtain ⟨f, hf, -, -⟩ := hcall
    exact declares_of_get? hf

namespace Sweep

variable {g : CallGraph} {s s' : Sweep} {f f' : FuncRecord} {key callee : String}

/-- A caller of some function that leads to a mutating one is marked wherever it is recorded. -/
def Settles (s : Sweep) (g : CallGraph) (caller : String) (callees : List String) : Prop :=
  ∀ callee ∈ callees, g.Contaminated callee →
    ∀ f ∈ s.graph.functions, f.key = caller → f.modifies = true

theorem Later.settles (h : Later s s') {caller : String} {callees : List String}
    (hs : s.Settles g caller callees) : s'.Settles g caller callees := by
  intro callee hm hc f' hf' hk
  obtain ⟨f, hf, hff⟩ := h.spread.exists_of_mem hf'
  exact hff.modifies (hs callee hm hc f hf (hff.key.symm.trans hk))

theorem marked_contaminate (s : Sweep) (caller : FuncRecord) (callee : String) (f : FuncRecord)
    (hf : f ∈ (s.contaminate caller callee).graph.functions) (hk : f.key = caller.key) :
    f.modifies = true := by
  have hm : f ∈ (s.graph.setModifies caller.key).functions := by
    obtain ⟨-, he⟩ | ⟨-, he⟩ := contaminate_cases s caller callee
    · rwa [he] at hf
    · rwa [he] at hf
  obtain ⟨f₀, -, rfl⟩ := List.mem_map.mp hm
  by_cases h₀ : f₀.key = caller.key
  · simp [h₀]
  · simp [h₀] at hk

theorem modifies_of_settles (h : Spread g s.graph)
    (hs : ∀ f, g.get? key = some f → s.Settles g key f.calls) (hc : g.Contaminated key) :
    s.graph.modifies key = true := by
  obtain ⟨target, hr, hm⟩ := hc
  obtain rfl | ⟨callee, ⟨f, hf, hcall, -⟩, hr⟩ := hr.cases_head
  · exact h.modifies hm
  · obtain ⟨f', hf', -⟩ := h.get? hf
    rw [modifies_of_get? hf']
    exact hs f hf callee hcall ⟨target, hr, hm⟩ f' (get?_mem hf') (get?_key hf')

/-- The answers kept so far are final: none of them will be made right by a later sweep only. -/
structure Final (g : CallGraph) (s : Sweep) : Prop extends Holds g s where
  answers : ∀ key answer, (key, answer) ∈ s.memo → g.Contaminated key → answer = true
  settles : ∀ key answer, (key, answer) ∈ s.memo → ∀ f, g.get? key = some f →
    s.Settles g key f.calls

theorem final_start (g : CallGraph) : Final g { graph := g } :=
  { holds_start g with answers := by simp, settles := by simp }

theorem Final.contaminate (h : Final g s) (hf : g.get? f.key = some f)
    (hs : FuncRecord.Spread f f') (hcall : callee ∈ f.calls)
    (hm : s.graph.modifies callee = true) : Final g (s.contaminate f' callee) := by
  have hmemo := memo_contaminate s f' callee
  refine ⟨h.toHolds.contaminate hf hs hcall hm, ?_, ?_⟩
  · rw [hmemo]
    exact h.answers
  · intro key answer hk f₀ hf₀
    rw [hmemo] at hk
    exact (later_contaminate s f' callee).settles (h.settles key answer hk f₀ hf₀)

theorem Final.remember (h : Final g s) (hh : Holds g (s.remember key))
    (hs : ∀ f, g.get? key = some f → s.Settles g key f.calls) : Final g (s.remember key) := by
  refine ⟨hh, ?_, ?_⟩
  · intro k answer hk hc
    rcases List.mem_cons.mp hk with he | hk
    · obtain ⟨rfl, rfl⟩ := Prod.mk.inj he
      exact modifies_of_settles h.spread hs hc
    · exact h.answers k answer hk hc
  · intro k answer hk
    rcases List.mem_cons.mp hk with he | hk
    · obtain ⟨rfl, rfl⟩ := Prod.mk.inj he
      exact hs
    · exact h.settles k answer hk

structure Decided (g : CallGraph) (s : Sweep) (key : String) (r : Bool × Sweep) : Prop
    extends Visited g s key r where
  final : Final g r.2
  answer : g.Contaminated key → r.1 = true

theorem visitAll_final {visit : String → Sweep → Bool × Sweep} (callees : List String)
    (hv : ∀ callee ∈ callees, ∀ t, Final g t → Decided g t callee (visit callee t))
    (hf : g.get? f.key = some f) (hs : FuncRecord.Spread f f') (hsub : callees ⊆ f.calls)
    (h : Final g s) :
    Final g (visitAll visit f' callees s) ∧ Later s (visitAll visit f' callees s) ∧
      (visitAll visit f' callees s).Settles g f.key callees := by
  induction callees generalizing s with
  | nil => exact ⟨h, .refl s, by simp [Settles]⟩
  | cons callee rest ih =>
    have hvis := hv callee List.mem_cons_self s h
    have hvrest : ∀ c ∈ rest, ∀ t, Final g t → Decided g t c (visit c t) :=
      fun c hc => hv c (List.mem_cons_of_mem _ hc)
    have hsubrest : rest ⊆ f.calls := fun c hc => hsub (List.mem_cons_of_mem _ hc)
    simp only [visitAll]
    split
    case isTrue hit =>
      have hnow := hvis.final.contaminate hf hs (hsub List.mem_cons_self) (hvis.most hit)
      obtain ⟨h', hl, hset⟩ := ih hvrest hsubrest hnow
      refine ⟨h', hvis.later.trans ((later_contaminate _ _ _).trans hl), ?_⟩
      intro c hc hcon
      rcases List.mem_cons.mp hc with rfl | hc
      · have hmarked : ((visit c s).2.contaminate f' c).Settles g f.key [c] := by
          intro _ _ _ f₀ hf₀ hk
          exact marked_contaminate _ f' c f₀ hf₀ (hk.trans hs.key.symm)
        exact hl.settles hmarked c List.mem_cons_self hcon
      · exact hset c hc hcon
    case isFalse hit =>
      obtain ⟨h', hl, hset⟩ := ih hvrest hsubrest hvis.final
      refine ⟨h', hvis.later.trans hl, ?_⟩
      intro c hc hcon
      rcases List.mem_cons.mp hc with rfl | hc
      · exact absurd (hvis.answer hcon) hit
      · exact hset c hc hcon

/-- Without cycles and long chains a visit is never cut off: `visiting` is a row of functions that
call each other down to this one, so it neither holds this one nor uses up the depth. -/
theorem visit_decided (hacyclic : g.Acyclic) (hshallow : g.Shallow maxDepth) (depth : Nat)
    (visiting : List String) (key : String) (hdepth : maxDepth ≤ depth + visiting.length)
    (hway : g.declares key = true → (key :: visiting).IsChain fun b a => g.Calls a b)
    (h : Final g s) : Decided g s key (visit depth visiting key s) := by
  induction depth using Nat.strongRecOn generalizing visiting key s with
  | _ depth ih =>
    have hvis := visit_holds depth visiting key h.toHolds
    obtain ⟨answer, hk, he⟩ | ⟨hn, he⟩ | ⟨hcut, he⟩ | ⟨d, f', rfl, hf', he⟩ :=
      visit_cases depth visiting key s
    · rw [he] at hvis ⊢
      exact ⟨hvis, h, h.answers key answer hk⟩
    · rw [he] at hvis ⊢
      refine ⟨hvis, h, fun hc => ?_⟩
      have hd := hc.declares
      rw [← h.spread.sameUnit.declares] at hd
      simp [declares, hn] at hd
    · rw [he] at hvis ⊢
      refine ⟨hvis, h, fun hc => ?_⟩
      have hchain := List.isChain_reverse.mpr (hway hc.declares)
      have hnodup := hacyclic.nodup hchain
      rcases hcut with rfl | hm
      · have hlen := hshallow _ hchain hnodup
        simp only [List.length_reverse, List.length_cons] at hlen
        omega
      · rw [List.nodup_reverse, List.nodup_cons] at hnodup
        exact absurd hm hnodup.1
    · obtain ⟨f, hf, hs⟩ := h.spread.get?_back hf'
      have hk : f.key = key := get?_key hf
      have hcalls : f'.uniqueCalls ⊆ f.calls := by
        intro callee hc
        simpa [FuncRecord.uniqueCalls, hs.calls] using hc
      have hdown : ∀ callee ∈ f'.uniqueCalls, ∀ t, Final g t →
          Decided g t callee (visit d (key :: visiting) callee t) := by
        intro callee hc t ht
        refine ih d (by omega) (key :: visiting) callee ?_ (fun hd => ?_) ht
        · rw [List.length_cons]
          omega
        · exact .cons_cons ⟨f, hf, hcalls hc, hd⟩ (hway (declares_of_get? hf))
      obtain ⟨h', -, hset⟩ := visitAll_final f'.uniqueCalls hdown (hk.symm ▸ hf) hs hcalls h
      have hsettles : ∀ f₀, g.get? key = some f₀ →
          (visitAll (visit d (key :: visiting)) f' f'.uniqueCalls s).Settles g key f₀.calls := by
        intro f₀ hf₀ callee hc
        rw [hf, Option.some.injEq] at hf₀
        subst hf₀
        rw [hk] at hset
        exact hset callee (by simpa [FuncRecord.uniqueCalls, hs.calls] using hc)
      rw [he] at hvis ⊢
      exact ⟨hvis, h'.remember hvis.holds hsettles, modifies_of_settles h'.spread hsettles⟩

theorem visits_final (hacyclic : g.Acyclic) (hshallow : g.Shallow maxDepth) (keys : List String)
    (h : Final g s) : Final g (keys.foldl (fun s key => (visit maxDepth [] key s).2) s) := by
  induction keys generalizing s with
  | nil => exact h
  | cons key rest ih =>
    exact ih (visit_decided hacyclic hshallow maxDepth [] key (Nat.le_refl _)
      (fun _ => .singleton key) h).final

theorem run_settles (hacyclic : g.Acyclic) (hshallow : g.Shallow maxDepth)
    (hf : g.get? key = some f) : (run g).Settles g key f.calls := by
  have hfinal := visits_final hacyclic hshallow g.keys (final_start g)
  obtain ⟨-, -, hm⟩ := visits_hold g.keys (holds_start g) fun _ hk => declares_iff.mpr hk
  obtain ⟨answer, ha⟩ := hm key (declares_iff.mp (declares_of_get? hf))
  exact hfinal.settles key answer ha f hf

theorem run_modifies_iff (hacyclic : g.Acyclic) (hshallow : g.Shallow maxDepth) :
    (run g).graph.modifies key = true ↔ g.Contaminated key := by
  refine ⟨(run_holds g).sound key, modifies_of_settles (run_holds g).spread ?_⟩
  exact fun f hf => run_settles hacyclic hshallow hf

end Sweep

def Settled (g : CallGraph) : Prop :=
  ∀ f ∈ g.functions, ∀ f₀, g.get? f.key = some f₀ → ∀ callee ∈ f₀.calls,
    g.modifies callee = true → f.modifies = true

namespace Settled

open Sweep

variable {g : CallGraph} {s : Sweep} {f : FuncRecord} {callee : String}

theorem functions_contaminate (hg : g.Settled) (hs : s.graph.functions = g.functions)
    (hf : g.get? f.key = some f) (hcall : callee ∈ f.calls)
    (hm : s.graph.modifies callee = true) :
    (s.contaminate f callee).graph.functions = g.functions := by
  have he : (s.contaminate f callee).graph.functions =
      (s.graph.setModifies f.key).functions := by
    obtain ⟨-, he⟩ | ⟨-, he⟩ := contaminate_cases s f callee <;> rw [he]
  have hm' : g.modifies callee = true := by
    simpa only [modifies, known, get?, hs] using hm
  have hsame : ∀ f₀ ∈ g.functions,
      (if f₀.key = f.key then { f₀ with modifies := true } else f₀) = f₀ := by
    intro f₀ hf₀
    by_cases hk : f₀.key = f.key
    · have ht : true = f₀.modifies := (hg f₀ hf₀ f (hk ▸ hf) callee hcall hm').symm
      rw [if_pos hk, ht]
    · rw [if_neg hk]
  rw [he, setModifies, update, hs]
  exact (List.map_congr_left hsame).trans (List.map_id' _)

theorem functions_visitAll {visit : String → Sweep → Bool × Sweep} (hg : g.Settled)
    (callees : List String)
    (hv : ∀ callee t, Holds g t → t.graph.functions = g.functions →
      Visited g t callee (visit callee t) ∧ (visit callee t).2.graph.functions = g.functions)
    (hf : g.get? f.key = some f) (hsub : callees ⊆ f.calls) (h : Holds g s)
    (hs : s.graph.functions = g.functions) :
    (visitAll visit f callees s).graph.functions = g.functions := by
  induction callees generalizing s with
  | nil => exact hs
  | cons callee rest ih =>
    obtain ⟨hvis, hsame⟩ := hv callee s h hs
    have hcall : callee ∈ f.calls := hsub List.mem_cons_self
    have hrest : rest ⊆ f.calls := fun c hc => hsub (List.mem_cons_of_mem _ hc)
    simp only [visitAll]
    split
    case isTrue hit =>
      have hm := hvis.most hit
      apply ih hrest
      · exact hvis.holds.contaminate hf (.inl rfl) hcall hm
      · exact hg.functions_contaminate hsame hf hcall hm
    case isFalse => exact ih hrest hvis.holds hsame

/-- A visit has nothing to mark where every caller of a marked function is marked. -/
theorem functions_visit (hg : g.Settled) (depth : Nat) (visiting : List String) (key : String)
    (h : Holds g s) (hs : s.graph.functions = g.functions) :
    (visit depth visiting key s).2.graph.functions = g.functions := by
  induction depth using Nat.strongRecOn generalizing visiting key s with
  | _ depth ih =>
    obtain ⟨_, -, he⟩ | ⟨-, he⟩ | ⟨-, he⟩ | ⟨d, f, rfl, hf, he⟩ := visit_cases depth visiting key s
    · rwa [he]
    · rwa [he]
    · rwa [he]
    · have hget : g.get? f.key = some f := by
        rw [get?_key hf]
        simpa only [get?, hs] using hf
      have hcalls : f.uniqueCalls ⊆ f.calls := by
        intro callee hc
        simpa [FuncRecord.uniqueCalls] using hc
      rw [he]
      refine hg.functions_visitAll f.uniqueCalls (fun callee t ht hts => ?_) hget hcalls h hs
      exact ⟨visit_holds d (key :: visiting) callee ht,
        ih d (by omega) (key :: visiting) callee ht hts⟩

theorem marks_run (hg : g.Settled) : (run g).graph.marks = g.marks := by
  have hall : ∀ (keys : List String) s, Holds g s → s.graph.functions = g.functions →
      (keys.foldl (fun s key => (visit maxDepth [] key s).2) s).graph.functions = g.functions := by
    intro keys
    induction keys with
    | nil => exact fun _ _ hs => hs
    | cons key rest ih =>
      intro s h hs
      exact ih _ (visit_holds maxDepth [] key h).holds (hg.functions_visit maxDepth [] key h hs)
  rw [marks, marks]
  exact congrArg _ (hall g.keys _ (holds_start g) rfl)

end Settled

section

variable {g : CallGraph}

/-- The first sweep leaves nothing to mark to a second one. -/
theorem settled_run (hacyclic : g.Acyclic) (hshallow : g.Shallow maxDepth) :
    (Sweep.run g).graph.Settled := by
  have h := Sweep.run_holds g
  intro f' hf' f₁ hf₁ callee hcall hm
  obtain ⟨f, hf, hs⟩ := h.spread.get?_back hf₁
  rw [hs.calls] at hcall
  exact Sweep.run_settles hacyclic hshallow hf callee hcall (h.sound callee hm) f' hf' rfl

theorem SweepsTo.passes_of_settled {c : Closure} (h : SweepsTo g c)
    (hg : (Sweep.run g).graph.Settled) : c.passes = if c.graph.marks = g.marks then 1 else 2 := by
  cases h with
  | stable hst => rw [if_pos hst]
  | again hne hr =>
    cases hr with
    | stable hst =>
      dsimp only
      rw [hst, if_neg hne]
    | again hne' _ => exact absurd hg.marks_run hne'

/-- Where no function leads back to itself and no chain of calls is longer than a sweep looks, one
sweep marks exactly the functions that lead to a mutating one. So spreading the marks takes one
sweep if no mark is set, and else two, of which the second only finds that nothing is left. -/
theorem propagate_passes_of_acyclic (g : CallGraph)
    (hacyclic : ∀ key, ¬ Relation.TransGen g.Calls key key)
    (hshallow : ∀ chain : List String, chain.IsChain g.Calls → chain.Nodup →
      chain.length ≤ maxDepth) :
    (∀ key, (Sweep.run g).graph.modifies key = true ↔ g.Contaminated key) ∧
      g.propagate.passes = if g.propagate.graph.marks = g.marks then 1 else 2 := by
  refine ⟨fun key => Sweep.run_modifies_iff hacyclic hshallow, ?_⟩
  exact (propagate_sweepsTo g).passes_of_settled (settled_run hacyclic hshallow)

/-- A row of calls is no longer than the height of its first function, if every call goes down. -/
theorem length_le_of_isChain {height : String → Nat}
    (hdown : ∀ a b, g.Calls a b → height b < height a) {a : String} {rest : List String}
    (h : (a :: rest).IsChain g.Calls) : rest.length ≤ height a := by
  induction rest generalizing a with
  | nil => exact Nat.zero_le _
  | cons b rest ih =>
    rw [List.isChain_cons_cons] at h
    have hlt := hdown a b h.1
    have hle := ih h.2
    rw [List.length_cons]
    omega

theorem acyclic_of_height {height : String → Nat}
    (hdown : ∀ a b, g.Calls a b → height b < height a) : g.Acyclic := by
  have hway : ∀ a b, Relation.TransGen g.Calls a b → height b < height a := by
    intro a b h
    induction h with
    | single hab => exact hdown _ _ hab
    | tail _ hbc ih => exact Nat.lt_trans (hdown _ _ hbc) ih
  exact fun key h => Nat.lt_irrefl _ (hway key key h)

theorem shallow_of_height {height : String → Nat}
    (hdown : ∀ a b, g.Calls a b → height b < height a) {n : Nat} (hn : ∀ a, height a < n) :
    g.Shallow n := by
  intro chain hc _
  cases chain with
  | nil => exact Nat.zero_le n
  | cons a rest => exact Nat.lt_of_le_of_lt (length_le_of_isChain hdown hc) (hn a)

end

/-- A function that mutates, two that call it, and one that calls these two and another unit. The
callers are declared first. -/
def diamond : CallGraph where
  unitName := "reader"
  unitPath := "reader"
  functions := [
    { key := "reader.main", decl := { name := "main" },
      calls := ["reader.left", "fmt.Println", "reader.right"] },
    { key := "reader.left", decl := { name := "left" }, calls := ["reader.store"] },
    { key := "reader.right", decl := { name := "right" },
      calls := ["reader.store", "reader.store"] },
    { key := "reader.store", decl := { name := "store" }, modifies := true }]

def diamondHeight (key : String) : Nat :=
  if key = "reader.main" then 2 else if key = "reader.store" then 0 else 1

theorem diamond_down (a b : String) (h : diamond.Calls a b) : diamondHeight b < diamondHeight a := by
  have hall : ∀ f ∈ diamond.functions, ∀ callee ∈ f.calls, diamond.declares callee = true →
      diamondHeight callee < diamondHeight f.key := by
    decide +kernel
  obtain ⟨f, hf, hc, hd⟩ := h
  have hlt := hall f (get?_mem hf) b hc hd
  rwa [get?_key hf] at hlt

theorem propagate_passes_of_acyclic_diamond :
    (∀ key, ¬ Relation.TransGen diamond.Calls key key) ∧
      (∀ chain : List String, chain.IsChain diamond.Calls → chain.Nodup →
        chain.length ≤ maxDepth) ∧
      diamond.marks = [false, false, false, true] ∧
      diamond.propagate.graph.marks = [true, true, true, true] ∧ diamond.propagate.passes = 2 := by
  have hacyclic := acyclic_of_height diamond_down
  have hshallow : diamond.Shallow maxDepth := by
    apply shallow_of_height diamond_down
    intro a
    unfold diamondHeight maxDepth
    split_ifs <;> omega
  have hmarks : diamond.propagate.graph.marks = [true, true, true, true] := by decide +kernel
  have hpasses := (propagate_passes_of_acyclic diamond hacyclic hshallow).2
  rw [hmarks] at hpasses
  exact ⟨hacyclic, hshallow, rfl, hmarks, hpasses⟩

end ReadGuard.CallGraph
