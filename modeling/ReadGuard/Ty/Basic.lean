import ReadGuard.Text.Cut

namespace ReadGuard

structure Field (α : Type) where
  name : String
  type : α
  embedded : Bool := false
deriving DecidableEq, Repr

/-- A Go type. A named type carries the path of its package, which is empty for the universe. -/
inductive Ty
  | basic (name : String)
  | named (path name : String)
  | pointer (elem : Ty)
  | slice (elem : Ty)
  | array (length : Nat) (elem : Ty)
  | map (key elem : Ty)
  | chan (elem : Ty)
  | struct (fields : List (Field Ty))
  | func (params results : List Ty)
  | interface
deriving Repr, Inhabited

namespace Ty

def basicNames : List String :=
  ["bool", "string", "byte", "rune", "uintptr",
   "int", "int8", "int16", "int32", "int64",
   "uint", "uint8", "uint16", "uint32", "uint64",
   "float32", "float64", "complex64", "complex128",
   "unsafe.Pointer", "invalid type"]

/-- The type of a possibly qualified name: the last dot divides the package path from the name. -/
def ofName (text : String) : Ty :=
  if basicNames.contains text then .basic text
  else
    match Text.cutLast? '.' text with
    | some (path, name) => .named path name
    | none => .named "" text

def packageName (path : String) : String :=
  Text.lastPart '/' path

def name : Ty → String
  | .basic name => name
  | .named _ name => name
  | _ => ""

def qualifiedName : Ty → String
  | .named path name => if path.isEmpty then name else packageName path ++ "." ++ name
  | t => t.name

def isPointer : Ty → Bool
  | .pointer _ => true
  | _ => false

def isArray : Ty → Bool
  | .array _ _ => true
  | _ => false

def stripPointers : Ty → Ty
  | .pointer elem => elem.stripPointers
  | t => t

end Ty

end ReadGuard
