namespace ReadGuard

/-- A place in a source file. The line is zero and the offset is -1 where they are not known. -/
structure Position where
  file : String := "<unknown>"
  line : Int := 0
  column : Int := 0
  offset : Int := -1
deriving DecidableEq, Repr, Inhabited

namespace Position

def text (p : Position) : String :=
  p.file ++ ":" ++ toString p.line ++ ":" ++ toString p.column

def isKnown (p : Position) : Bool := p.line ≠ 0

def le (p q : Position) : Bool :=
  if p.file = q.file then
    if p.line = q.line then p.column ≤ q.column else p.line ≤ q.line
  else p.file ≤ q.file

end Position

def errorText (pos : Position) (message code : String) : String :=
  (if pos.isKnown then pos.text ++ ": " else "") ++ message ++ " [" ++ code ++ "]"

end ReadGuard
