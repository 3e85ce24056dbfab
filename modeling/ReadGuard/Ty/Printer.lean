import ReadGuard.Ty.Basic

namespace ReadGuard

namespace TypeText

def depth : Nat := 21

def cut : String := "..."

def named (path name : String) : String :=
  if path.isEmpty then name else path ++ "." ++ name

def array (length : Int) (elem : String) : String :=
  "[" ++ toString length ++ "]" ++ elem

def map (key elem : String) : String :=
  "map[" ++ key ++ "]" ++ elem

def field (f : Field String) : String :=
  if f.embedded then f.type else f.name ++ " " ++ f.type

def struct (fields : List (Field String)) : String :=
  "struct\x7b" ++ "; ".intercalate (fields.map field) ++ "\x7d"

def func (params results : List String) : String :=
  "func(" ++ ", ".intercalate params ++ ")" ++
    (match results with
      | [] => ""
      | [r] => " " ++ r
      | rs => " (" ++ ", ".intercalate rs ++ ")")

def interface : String := "interface\x7b\x7d"

end TypeText

namespace Ty

def textTo : Nat → Ty → String
  | 0, _ => TypeText.cut
  | _ + 1, .basic name => name
  | _ + 1, .named path name => TypeText.named path name
  | depth + 1, .pointer elem => "*" ++ textTo depth elem
  | depth + 1, .slice elem => "[]" ++ textTo depth elem
  | depth + 1, .array length elem => TypeText.array length (textTo depth elem)
  | depth + 1, .map key elem => TypeText.map (textTo depth key) (textTo depth elem)
  | depth + 1, .chan elem => "chan " ++ textTo depth elem
  | depth + 1, .struct fields =>
    TypeText.struct (fields.map fun f => { f with type := textTo depth f.type })
  | depth + 1, .func params results =>
    TypeText.func (params.map (textTo depth)) (results.map (textTo depth))
  | _ + 1, .interface => TypeText.interface

def text (t : Ty) : String :=
  t.textTo TypeText.depth

end Ty

end ReadGuard
