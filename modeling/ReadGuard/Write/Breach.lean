import ReadGuard.Issue.Basic
import ReadGuard.Write.Target

namespace ReadGuard

inductive WriteForm
  | assign
  | step

namespace WriteForm

def words : WriteForm → TargetKind → String
  | .assign, .field => "direct assignment to field "
  | .assign, .pointer => "pointer-mediated assignment to protected field "
  | .step, .field => "increment/decrement of field "
  | .step, .pointer => "pointer-mediated increment/decrement of protected field "
  | _, .index => "indexed write "

def rule : WriteForm → TargetKind → Rule
  | .assign, .field => .fieldAssign
  | .assign, .pointer => .pointerAssign
  | .step, .field => .fieldIncDec
  | .step, .pointer => .pointerIncDec
  | _, .index => .indexedWrite

end WriteForm

structure Watch where
  protection : Protection
  protectedName : String
  strict : Bool := false

namespace Watch

def throughText (via : String) : String :=
  if via.isEmpty then "" else " through " ++ via

def targetText (w : Watch) (t : WriteTarget) : String :=
  match t.kind with
  | .field => t.expr.render ++ " of protected type " ++ w.protectedName
  | .pointer => t.field.render ++ " through " ++ t.via
  | .index => t.expr.render ++ " into protected field " ++ t.field.render ++ throughText t.via

def written (w : Watch) (f : WriteForm) (pos : Position) (t : WriteTarget) : Issue :=
  ⟨pos, f.words t.kind ++ w.targetText t, f.rule t.kind⟩

def inAssign (w : Watch) (s : Aliases) (left : List Expr) : List Issue :=
  left.filterMap fun e => (WriteTarget.classify w.protection s e).map (w.written .assign e.pos)

def inIncDec (w : Watch) (s : Aliases) (x : Expr) (pos : Position) : List Issue :=
  ((WriteTarget.classify w.protection s x).map (w.written .step pos)).toList

def inLoopVariable (w : Watch) (s : Aliases) (op : String) (v : Expr) : List Issue :=
  if op = "=" then w.inAssign s [v]
  else if w.protection.holds? v.type then
    [⟨v.pos, "range loop variable " ++ v.render ++ " binds protected type " ++ w.protectedName,
      .loopBinding⟩]
  else []

def inRange (w : Watch) (s : Aliases) (key value : Option Expr) (op : String) : List Issue :=
  (key.toList ++ value.toList).flatMap (w.inLoopVariable s op)

def writers : List String := ["copy", "delete", "clear"]

def writer? (c : Call) : Option String :=
  match c.fn.unparen with
  | .ident id =>
    if writers.contains id.name && (id.object = none || id.object = some .builtin) then
      some id.name
    else none
  | _ => none

def container (w : Watch) (s : Aliases) (x : Expr) : Option (String × Expr) :=
  match w.protection.fieldRoot x with
  | some field => some ("", field)
  | none => s.root x

def inBuiltinCall (w : Watch) (s : Aliases) (c : Call) : List Issue :=
  match writer? c, c.args with
  | some name, x :: _ =>
    match w.container s x with
    | some (via, field) =>
      [⟨c.info.pos, "builtin " ++ name ++ " writes into protected field " ++ field.render ++
        throughText via, .builtinWrite⟩]
    | none => []
  | _, _ => []

def inMethodCall (w : Watch) (c : Call) : List Issue :=
  if w.strict then
    match c.fn.unparen with
    | .selector x method _ =>
      if w.protection.holds? x.type then
        [⟨c.info.pos, "calling method " ++ method ++ " on protected type " ++ w.protectedName,
          .methodCall⟩]
      else []
    | _ => []
  else []

end Watch

end ReadGuard
