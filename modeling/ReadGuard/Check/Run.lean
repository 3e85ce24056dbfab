import ReadGuard.CallGraph.Basic
import ReadGuard.Check.Event
import ReadGuard.Log
import ReadGuard.Policy.Basic
import ReadGuard.Write.Binding
import ReadGuard.Write.Breach

namespace ReadGuard

def Policy.watch (p : Policy) : Watch :=
  ⟨p.protection, p.protectedName, p.strict⟩

inductive Note
  /-- An issue was reported; `fresh` if it was not known. -/
  | report (issue : Issue) (fresh : Bool)
  /-- A function was found to mutate, by an issue. -/
  | mutates (key : String) (issue : Issue)
  /-- A name came to hold a pointer to a field. -/
  | bound (name : String) (field : Expr)
  /-- A parameter received a pointer to a field. -/
  | tainted (key : String) (index : Nat) (source : Expr)

def Note.log : Note → List LogLine
  | .report issue true => [⟨.debug, "rwsep.diagnostics", "issue " ++ issue.text⟩]
  | .report _ false => []
  | .mutates key issue =>
    [⟨.debug, "rwsep.analyzer", key ++ " modifies protected data (" ++ issue.rule.id ++ " at " ++
      issue.pos.text ++ ")"⟩]
  | .bound name field =>
    [⟨.debug, "rwsep.mutation", "alias " ++ name ++ " -> " ++ field.render⟩]
  | .tainted key index source =>
    [⟨.debug, "rwsep.callgraph", "parameter " ++ toString index ++ " of " ++ key ++
      " tainted by " ++ source.render⟩]

/-- The functions to look at again, in order, and again as a set that is asked whether a function
waits. -/
structure Queue where
  pending : List String
  queued : List String
  nodup : pending.Nodup
  agree : ∀ key, key ∈ queued ↔ key ∈ pending

namespace Queue

instance : Membership String Queue := ⟨fun q key => key ∈ q.pending⟩

def empty : Queue := ⟨[], [], .nil, fun _ => .rfl⟩

def push (q : Queue) (key : String) : Queue :=
  if h : key ∈ q.queued then q
  else
    { pending := q.pending ++ [key]
      queued := key :: q.queued
      nodup := by
        have hn : key ∉ q.pending := fun hm => h ((q.agree key).mpr hm)
        refine List.nodup_append.mpr ⟨q.nodup, by simp, ?_⟩
        rintro a ha b hb rfl
        rw [List.mem_singleton] at hb
        exact hn (hb ▸ ha)
      agree := by simp [q.agree, or_comm] }

def pop? (q : Queue) : Option (String × Queue) :=
  match h : q.pending with
  | [] => none
  | key :: rest =>
    some (key,
      { pending := rest
        queued := q.queued.filter (· ≠ key)
        nodup := by
          have hn := q.nodup
          rw [h] at hn
          exact hn.of_cons
        agree := by
          intro k
          have hn := q.nodup
          rw [h, List.nodup_cons] at hn
          have hk : k ∈ rest → k ≠ key := fun hm he => hn.1 (he ▸ hm)
          simp only [List.mem_filter, q.agree, h, List.mem_cons, decide_eq_true_eq]
          grind })

end Queue

/-- The state of a check: what is known of the functions, the names of the function at hand that
hold pointers to fields, the issues, the calls that pass such a pointer on with the keys they call,
the functions to look at again, and the notes in order. -/
structure Run where
  graph : CallGraph
  aliases : Aliases := {}
  issues : IssueSet := {}
  escapes : List (Position × String) := []
  queue : Queue := .empty
  notes : Array Note := #[]

namespace Run

def note (r : Run) (n : Note) : Run := { r with notes := r.notes.push n }

def report (r : Run) (i : Issue) : Run :=
  { r.note (.report i (!r.issues.contains i)) with issues := r.issues.add i }

/-- Reports an issue in a function, which is marked if the issue is a mutation. -/
def blame (r : Run) (key : String) (i : Issue) : Run :=
  let r := r.report i
  if i.rule.mutates && !r.graph.modifies key then
    { r.note (.mutates key i) with graph := r.graph.setModifies key }
  else r

def blameAll (r : Run) (key : String) (issues : List Issue) : Run :=
  issues.foldl (fun r i => r.blame key i) r

def rebind (r : Run) (result : Aliases × List Aliases.Bound) : Run :=
  { r with
    aliases := result.1
    notes := result.2.foldl (fun notes b => notes.push (.bound b.name b.field)) r.notes }

def enqueue (r : Run) (key : String) : Run := { r with queue := r.queue.push key }

def escaping (w : Watch) (s : Aliases) (arg : Expr) : Option Expr :=
  match arg.unparen with
  | .ident id => s.resolve id.name
  | e => w.protection.addressed e

def escapeMessage (source : Expr) (key : String) : String :=
  "passing pointer to protected field " ++ source.render ++ " into function " ++ key

def taint (r : Run) (key : String) (index : Nat) (source : Expr) : Run :=
  match r.graph.get? key with
  | none => r
  | some f =>
    if f.isTainted index then r
    else
      { r.note (.tainted key index source) with
        graph := r.graph.taint key index source }.enqueue key

def passArgument (w : Watch) (pos : Position) (key : String) (r : Run) (index : Nat)
    (arg : Expr) : Run :=
  match escaping w r.aliases arg with
  | none => r
  | some source =>
    ({ r with escapes := (pos, key) :: r.escapes }.report
      ⟨pos, escapeMessage source key, .pointerEscape⟩).taint key index source

def passArguments (w : Watch) (pos : Position) (key : String) : Nat → List Expr → Run → Run
  | _, [], r => r
  | index, arg :: rest, r =>
    passArguments w pos key (index + 1) rest (r.passArgument w pos key index arg)

/-- A call in a function. Its key is recorded only when the function is looked at for the first
time. -/
def call (w : Watch) (recording : Bool) (caller : String) (r : Run) (c : Call) : Run :=
  let key := r.graph.calleeKey c
  let r := if recording then { r with graph := r.graph.recordCall caller key } else r
  let r := r.blameAll caller (w.inMethodCall c)
  let r := r.blameAll caller (w.inBuiltinCall r.aliases c)
  passArguments w c.info.pos key 0 c.args r

def step (w : Watch) (recording : Bool) (key : String) (r : Run) : Event → Run
  | .call c => r.call w recording key c
  | .assign left op right =>
    let r := r.blameAll key (w.inAssign r.aliases left)
    if isPlainAssign op then r.rebind (r.aliases.assignAll w.protection left right) else r
  | .incDec x pos => r.blameAll key (w.inIncDec r.aliases x pos)
  | .declare names values =>
    r.rebind (r.aliases.assignAll w.protection (names.map .ident) values)
  | .range key' value op =>
    let r := r.blameAll key (w.inRange r.aliases key' value op)
    r.rebind (r.aliases.assignAll w.protection (key'.toList ++ value.toList) [])

def walk (w : Watch) (recording : Bool) (r : Run) (f : FuncRecord) (aliases : Aliases) : Run :=
  f.decl.events.foldl (step w recording f.key) { r with aliases := aliases }

def seeded (bindings : List (String × Expr)) : Aliases :=
  bindings.foldl (fun s (name, source) => s.record name source) {}

def firstPass (w : Watch) (r : Run) : Run :=
  r.graph.functions.foldl (fun r f => r.walk w true f {}) r

/-- What going through functions again comes to: how many were gone through, the state after it,
and the fault that ended it, if any. -/
structure Rewalk where
  count : Nat
  run : Run
  fault? : Option BindingFault := none

def rewalk (w : Watch) : Nat → Run → Rewalk
  | 0, r => { count := 0, run := r }
  | limit + 1, r =>
    match r.queue.pop? with
    | none => { count := 0, run := r }
    | some (key, queue) =>
      let r := { r with queue := queue }
      match r.graph.get? key with
      | none => rewalk w limit r
      | some f =>
        match f.bindings with
        | .error fault => { count := 0, run := r, fault? := some fault }
        | .ok bindings =>
          let rest := rewalk w limit (r.walk w false f (seeded bindings))
          { rest with count := rest.count + 1 }

def Event.arity : Event → Nat
  | .call c => c.args.length
  | _ => 0

def argumentCount (g : CallGraph) : Nat :=
  ((g.functions.flatMap fun f => f.decl.events).map Event.arity).foldr (· + ·) 0

/-- Goes through functions again until no parameter is newly tainted. A function enters the queue
only with a new parameter, and every tainted parameter stands for an argument of some call. -/
def taintPass (w : Watch) (r : Run) : Rewalk :=
  rewalk w (argumentCount r.graph + 1) r

end Run

end ReadGuard
