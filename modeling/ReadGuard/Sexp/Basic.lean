import ReadGuard.Binary64.Text
import ReadGuard.Text.Quoted

namespace ReadGuard

/-- A symbolic expression. Square brackets and an apostrophe keep their own kind. -/
inductive Sexp
  | int (value : Int)
  | float (value : Binary64)
  | str (text : String)
  | sym (name : String)
  | list (items : List Sexp)
  | brackets (items : List Sexp)
  | quoted (item : Sexp)
deriving Repr, Inhabited

namespace Sexp

def ofAtom (cs : List Char) : Sexp :=
  match Numeral.int? cs with
  | some n => .int n
  | none =>
    match Numeral.float? cs with
    | some x => .float x
    | none => .sym (String.ofList cs)

def kindName : Sexp → String
  | .int _ => "int"
  | .float _ => "float"
  | .str _ => "str"
  | .sym _ => "Symbol"
  | .list _ => "list"
  | .brackets _ => "Brackets"
  | .quoted _ => "Quoted"

mutual

def shown : Sexp → String
  | .int n => toString n
  | .float x => x.text
  | .str s => Text.quote s
  | .sym s => "Symbol(" ++ Text.quote s ++ ")"
  | .list items => "[" ++ ", ".intercalate (shownAll items) ++ "]"
  | .brackets items => "Brackets(I=[" ++ ", ".intercalate (shownAll items) ++ "])"
  | .quoted item => "Quoted(" ++ item.shown ++ ")"

def shownAll : List Sexp → List String
  | [] => []
  | item :: items => item.shown :: shownAll items

end

def head? : Sexp → Option String
  | .list (.sym name :: _) => some name
  | _ => none

end Sexp

end ReadGuard
