import ReadGuard.Proofs.Check.TaintPass

namespace ReadGuard

inductive Action
  | calls (callee : String)
  /-- The breaches by an event itself are reported. -/
  | judges (event : Event)
  | passes (pos : Position) (callee : String) (index : Nat) (arg : Expr)
  | assigns (target : Expr) (value : Option Expr)
  /-- A parameter starts with a pointer to a field. -/
  | seeds (name : String) (source : Expr)

namespace Action

def assignments (names values : List Expr) : List Action :=
  (Aliases.pairs names values).map fun pair => assigns pair.1 pair.2

def effects (w : Watch) (s : Aliases) : Action → List Effect
  | calls callee => [.calls callee]
  | judges event => (event.breaches w s).map .breach
  | passes pos callee index arg =>
    (Run.escaping w s arg).toList.map fun source => .passes pos callee index source
  | assigns target value => (s.assignTo w.protection target value).2.map .binds
  | seeds _ _ => []

def rebound (w : Watch) (s : Aliases) : Action → Aliases
  | assigns target value => (s.assignTo w.protection target value).1
  | seeds name source => s.record name source
  | _ => s

end Action

def Event.actions (keyOf : Call → String) : Event → List Action
  | .call c => .calls (keyOf c) :: .judges (.call c) ::
      c.args.zipIdx.map fun arg => .passes c.info.pos (keyOf c) arg.2 arg.1
  | .assign left op right => .judges (.assign left op right) ::
      if isPlainAssign op then Action.assignments left right else []
  | .incDec x pos => [.judges (.incDec x pos)]
  | .declare names values => Action.assignments (names.map .ident) values
  | .range key value op => .judges (.range key value op) ::
      Action.assignments (key.toList ++ value.toList) []

def FuncDecl.actions (keyOf : Call → String) (f : FuncDecl) : List Action :=
  f.events.flatMap (Event.actions keyOf)

def FuncDecl.actionsFrom (keyOf : Call → String) (bindings : List (String × Expr))
    (f : FuncDecl) : List Action :=
  (bindings.map fun b => .seeds b.1 b.2) ++ f.actions keyOf

namespace Run

def act (w : Watch) (recording : Bool) (key : String) (r : Run) : Action → Run
  | .calls callee => if recording then { r with graph := r.graph.recordCall key callee } else r
  | .judges event => r.blameAll key (event.breaches w r.aliases)
  | .passes pos callee index arg => r.passArgument w pos callee index arg
  | .assigns target value => r.rebind (r.aliases.assignTo w.protection target value)
  | .seeds name source => { r with aliases := r.aliases.record name source }

section Act

variable (w : Watch) (recording : Bool) (key : String) (r : Run)

theorem act_eq (a : Action) : r.act w recording key a =
    { r.absorbAll recording key (a.effects w r.aliases) with aliases := a.rebound w r.aliases } := by
  cases a with
  | calls callee =>
    apply Eq.symm
    apply with_same_aliases
    exact aliases_absorb recording key r (.calls callee)
  | judges event =>
    simp only [act, Action.effects, Action.rebound, absorbAll_breach]
    exact (with_same_aliases (aliases_blameAll key r _)).symm
  | passes pos callee index arg =>
    simp only [act, passArgument, Action.effects, Action.rebound]
    cases escaping w r.aliases arg with
    | none => rfl
    | some source =>
      apply Eq.symm
      apply with_same_aliases
      exact aliases_absorb recording key r (.passes pos callee index source)
  | assigns target value => exact rebind_eq recording key r _
  | seeds name source => rfl

theorem sameUnit_act (a : Action) : r.graph.SameUnit (r.act w recording key a).graph := by
  rw [act_eq]
  exact sameUnit_absorbAll recording key r _

theorem sameUnit_acts (acts : List Action) :
    r.graph.SameUnit (acts.foldl (act w recording key) r).graph := by
  induction acts generalizing r with
  | nil => exact .refl _
  | cons a acts ih => exact (sameUnit_act w recording key r a).trans (ih _)

theorem passArguments_eq_acts (pos : Position) (callee : String) (index : Nat) (args : List Expr) :
    passArguments w pos callee index args r =
      ((args.zipIdx index).map fun arg => .passes pos callee arg.2 arg.1).foldl
        (act w recording key) r := by
  induction args generalizing index r with
  | nil => rfl
  | cons arg rest ih => exact ih _ (index + 1)

theorem rebind_eq_acts (names values : List Expr) :
    r.rebind (r.aliases.assignAll w.protection names values) =
      (Action.assignments names values).foldl (act w recording key) r := by
  unfold Aliases.assignAll Action.assignments
  induction Aliases.pairs names values generalizing r with
  | nil => rfl
  | cons pair rest ih =>
    -- the notes of the first assignment come before those of the others
    rw [List.map_cons, List.foldl_cons, ← ih]
    simp only [rebind, act, Aliases.assignEach, List.foldl_append]

theorem step_eq_acts (e : Event) : r.step w recording key e =
    (e.actions r.graph.calleeKey).foldl (act w recording key) r := by
  cases e with
  | call c =>
    have ha : (r.act w recording key (.calls (r.graph.calleeKey c))).aliases = r.aliases :=
      aliases_absorb recording key r (.calls _)
    simp only [step, call, Event.actions, List.foldl_cons, passArguments_eq_acts w recording key]
    simp only [act, Event.breaches, blameAll, List.foldl_append] at ha ⊢
    simp only [← blameAll.eq_1, aliases_blameAll, ha]
  | assign left op right =>
    simp only [step, Event.actions, List.foldl_cons]
    cases hp : isPlainAssign op with
    | true => exact rebind_eq_acts w recording key _ left right
    | false => rfl
  | incDec x pos => rfl
  | declare names values => exact rebind_eq_acts w recording key r _ _
  | range k value op => exact rebind_eq_acts w recording key _ _ _

theorem steps_eq_acts {keyOf : Call → String} (hk : r.graph.calleeKey = keyOf)
    (events : List Event) : events.foldl (step w recording key) r =
      (events.flatMap (Event.actions keyOf)).foldl (act w recording key) r := by
  induction events generalizing r with
  | nil => rfl
  | cons e es ih =>
    have hu := sameUnit_acts w recording key r (e.actions keyOf)
    rw [List.foldl_cons, step_eq_acts, hk, List.flatMap_cons, List.foldl_append]
    apply ih
    rw [← hk] at hu ⊢
    exact funext hu.calleeKey

theorem seeds_eq_acts (bs : List (String × Expr)) :
    { r with aliases := bs.foldl (fun s b => s.record b.1 b.2) r.aliases } =
      (bs.map fun b => .seeds b.1 b.2).foldl (act w recording key) r := by
  induction bs generalizing r with
  | nil => rfl
  | cons b bs ih => exact ih { r with aliases := r.aliases.record b.1 b.2 }

end Act

variable {w : Watch} {r : Run} {keyOf : Call → String}

theorem walk_eq_acts (hk : r.graph.calleeKey = keyOf) (recording : Bool) (f : FuncRecord)
    (s : Aliases) : r.walk w recording f s =
      (f.decl.actions keyOf).foldl (act w recording f.key) { r with aliases := s } :=
  steps_eq_acts w recording f.key { r with aliases := s } hk f.decl.events

theorem rewalk_eq_acts (hk : r.graph.calleeKey = keyOf) (recording : Bool) (f : FuncRecord)
    (bindings : List (String × Expr)) : r.walk w recording f (seeded bindings) =
      (f.decl.actionsFrom keyOf bindings).foldl (act w recording f.key)
        { r with aliases := {} } := by
  rw [walk_eq_acts hk, FuncDecl.actionsFrom, List.foldl_append, ← seeds_eq_acts]
  rfl

end Run

end ReadGuard
