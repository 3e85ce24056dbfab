import ReadGuard.Code.Render
import ReadGuard.Write.FieldPath

namespace ReadGuard

inductive TargetKind
  | field
  | pointer
  | index
deriving DecidableEq, Repr

/-- A write into protected storage: the expression written to, the field it belongs to, and the name
or the address that leads there, if any. -/
structure WriteTarget where
  kind : TargetKind
  expr : Expr
  field : Expr
  via : String := ""

namespace WriteTarget

def ofAlias (kind : TargetKind) (target : Expr) (found : Option (String × Expr)) :
    Option WriteTarget :=
  found.map fun (name, field) => ⟨kind, target, field, name⟩

def ofIndex (p : Protection) (s : Aliases) (target x : Expr) : Option WriteTarget :=
  match p.fieldRoot x with
  | some field => some ⟨.index, target, field, ""⟩
  | none => ofAlias .index target (s.root x)

def ofStar (p : Protection) (s : Aliases) (target x : Expr) : Option WriteTarget :=
  match p.addressed x.unparen with
  | some field => some ⟨.pointer, target, field, x.unparen.render⟩
  | none => ofAlias .pointer target (s.ofExpr x)

def ofSelector (p : Protection) (s : Aliases) (target x : Expr) : Option WriteTarget :=
  match p.fieldRoot target with
  | some field => some ⟨.field, target, field, ""⟩
  | none => ofAlias .pointer target (s.root x)

def classify (p : Protection) (s : Aliases) (e : Expr) : Option WriteTarget :=
  match e.unparen with
  | .index x i info => ofIndex p s (.index x i info) x
  | .star x info => ofStar p s (.star x info) x
  | .selector x field info => ofSelector p s (.selector x field info) x
  | _ => none

end WriteTarget

end ReadGuard
