import ReadGuard.Sexp.Token

namespace ReadGuard.Sexp

inductive ReadError
  | closerExpected (bracket : Bracket) (found : Option Char)
  | closerUnexpected (rest : List Char)
  | nothingQuoted (place : Nat)
  | openString
  | openEscape
  | notSingle
deriving DecidableEq, Repr

def ReadError.message : ReadError → String
  | .closerExpected b found =>
    "Not enough closing brackets. Expected " ++ Text.quote (String.singleton b.closer) ++
      " to be the last letter in the sexp. Got: " ++
      (match found with
        | some c => Text.quote (String.singleton c)
        | none => "None")
  | .closerUnexpected rest =>
    "Too many closing brackets. Expected no character left in the sexp. Got: " ++
      Text.quote (String.ofList rest)
  | .nothingQuoted place =>
    "No s-exp is found after an apostrophe at position " ++ toString place
  | .openString => "'NoneType' object has no attribute 'start'"
  | .openEscape => "string index out of range"
  | .notSingle => ""

/-- The items read so far between two brackets, last first, and the apostrophes that wait for the
next item, innermost first. -/
structure Level where
  items : List Sexp := []
  waiting : List Nat := []

def Level.add (level : Level) (item : Sexp) : Level :=
  { items := level.waiting.foldl (fun x _ => .quoted x) item :: level.items }

def Level.finish (level : Level) : Except ReadError (List Sexp) :=
  match level.waiting with
  | place :: _ => .error (.nothingQuoted place)
  | [] => .ok level.items.reverse

def Bracket.wrap : Bracket → List Sexp → Sexp
  | .round, items => .list items
  | .square, items => .brackets items

/-- Reads tokens with the innermost open level at hand; `outer` holds the brackets that are open and
the levels around them. -/
def readItems : List Token → Level → List (Bracket × Level) → Except ReadError (List Sexp)
  | [], level, outer => do
    let items ← level.finish
    match outer with
    | [] => .ok items
    | (b, _) :: _ => .error (.closerExpected b none)
  | .opening b :: rest, level, outer => readItems rest {} ((b, level) :: outer)
  | .closing c text :: rest, level, outer => do
    let items ← level.finish
    match outer with
    | [] => .error (.closerUnexpected text)
    | (b, around) :: outer =>
      if c = b.closer then readItems rest (around.add (b.wrap items)) outer
      else .error (.closerExpected b (some c))
  | .apostrophe place :: rest, level, outer =>
    readItems rest { level with waiting := place :: level.waiting } outer
  | .item x :: rest, level, outer => readItems rest (level.add x) outer
  | .openString :: _, _, _ => .error .openString
  | .openEscape :: _, _, _ => .error .openEscape

def read (text : String) : Except ReadError Sexp := do
  match ← readItems (tokens text) {} [] with
  | [x] => .ok x
  | _ => .error .notSingle

end ReadGuard.Sexp
