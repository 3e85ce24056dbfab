import ReadGuard.Sexp.Basic
import ReadGuard.Text.Letter

namespace ReadGuard.Load

/-- The tail of a form: the items that stand for themselves, and the items that follow a keyword. -/
structure Args (α : Type) where
  items : List α
  named : List (String × α)

namespace Args

variable {α β : Type}

def addItem (a : Args α) (x : α) : Args α := { a with items := x :: a.items }

def addNamed (a : Args α) (key : String) (x : α) : Args α :=
  { a with named := (key, x) :: a.named }

def split (keyword? : α → Option String) : List α → Except String (Args α)
  | [] => .ok ⟨[], []⟩
  | x :: rest =>
    match keyword? x, rest with
    | none, rest => (split keyword? rest).map (·.addItem x)
    | some key, [] => .error key
    | some key, value :: rest => (split keyword? rest).map (·.addNamed key value)

/-- The item of a keyword; of several the last. -/
def get? (a : Args α) (key : String) : Option α :=
  a.named.reverse.lookup key

end Args

/-- A keyword is a symbol with a colon and a letter in front. -/
def keyword? : Sexp → Option String
  | .sym name =>
    match name.toList with
    | ':' :: c :: rest => if Text.isLetter c then some (String.ofList (c :: rest)) else none
    | _ => none
  | _ => none

end ReadGuard.Load
