import ReadGuard.Issue.Basic

namespace ReadGuard

inductive Format
  | text
  | json
deriving DecidableEq, Repr

namespace Format

def all : List Format := [.text, .json]

def name : Format → String
  | .text => "text"
  | .json => "json"

def ofName? (name : String) : Option Format :=
  all.find? (·.name == name)

def unknownMessage (name : String) : String :=
  "unknown output format " ++ Text.quote name

def line : Format → Issue → String
  | .text, i => i.text
  | .json, i => i.json

end Format

/-- Writes issues one by one and counts them by rule; those of suppressed rules are only counted. -/
structure Reporter where
  format : Format := .text
  suppressed : List String := []
  output : String := ""
  counts : Rule → Nat := fun _ => 0
  dropped : Nat := 0

namespace Reporter

def isSuppressed (r : Reporter) (i : Issue) : Bool :=
  r.suppressed.contains i.rule.id

def emit (r : Reporter) (i : Issue) : Reporter :=
  if r.isSuppressed i then { r with dropped := r.dropped + 1 }
  else
    { r with
      output := r.output ++ r.format.line i ++ "\n"
      counts := fun rule => if rule = i.rule then r.counts rule + 1 else r.counts rule }

def emitAll (r : Reporter) (issues : List Issue) : Reporter :=
  issues.foldl emit r

def emittedCount : Reporter → List Issue → Nat
  | _, [] => 0
  | r, i :: rest => (if r.isSuppressed i then 0 else 1) + (r.emit i).emittedCount rest

def reported (r : Reporter) : Nat :=
  (Rule.all.map r.counts).foldr (· + ·) 0

def perRule (r : Reporter) : List String :=
  ((Rule.all.mergeSort fun a b => a.id ≤ b.id).filter fun rule => 0 < r.counts rule).map
    fun rule => rule.id ++ "=" ++ toString (r.counts rule)

def summary (r : Reporter) : String :=
  (if r.perRule.isEmpty then "no issues"
    else toString r.reported ++ " issue(s): " ++ ", ".intercalate r.perRule) ++
  (if r.dropped = 0 then "" else " (" ++ toString r.dropped ++ " suppressed)")

end Reporter

end ReadGuard
