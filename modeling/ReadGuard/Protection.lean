import ReadGuard.Ty.Basic

namespace ReadGuard

/-- The protected type: its name, and the path or the name of the package that declares it. -/
structure Protection where
  data : String
  typeName : String
deriving DecidableEq, Repr

namespace Protection

def isNamed (p : Protection) (path name : String) : Bool :=
  name == p.typeName && (p.data == path || p.data == Ty.packageName path)

mutual

def holds (p : Protection) : Ty → Bool
  | .named path name => p.isNamed path name
  | .pointer elem => p.holds elem
  | .struct fields => p.holdsAny fields
  | _ => false

def holdsAny (p : Protection) : List (Field Ty) → Bool
  | [] => false
  | ⟨_, type, _⟩ :: fields => p.holds type || p.holdsAny fields

end

def holds? (p : Protection) (t : Option Ty) : Bool :=
  match t with
  | some t => p.holds t
  | none => false

def shown (p : Protection) : String :=
  "TypeClassifier(" ++ p.data ++ "." ++ p.typeName ++ ")"

end Protection

end ReadGuard
