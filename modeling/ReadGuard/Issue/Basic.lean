import ReadGuard.Code.Position
import ReadGuard.Issue.Rule
import ReadGuard.Text.Json

namespace ReadGuard

structure Issue where
  pos : Position
  message : String
  rule : Rule
deriving DecidableEq, Repr

namespace Issue

def text (i : Issue) : String :=
  i.pos.text ++ ": error: " ++ i.message ++ " [" ++ i.rule.id ++ "]"

def json (i : Issue) : String :=
  let pair (key value : String) : String := Text.json key ++ ": " ++ value
  "\x7b" ++ ", ".intercalate
    [pair "file" (Text.json i.pos.file),
     pair "linenr" (toString i.pos.line),
     pair "column" (toString i.pos.column),
     pair "severity" (Text.json "error"),
     pair "message" (Text.json i.message),
     pair "addon" (Text.json "rwsep"),
     pair "errorId" (Text.json i.rule.id),
     pair "extra" (Text.json i.rule.category)] ++ "\x7d"

/-- Two issues with the same place and the same message count as one. -/
def same (i j : Issue) : Bool :=
  i.pos = j.pos && i.message == j.message

end Issue

/-- Issues in the order of their first report. -/
structure IssueSet where
  issues : List Issue := []
deriving Repr

namespace IssueSet

def size (s : IssueSet) : Nat := s.issues.length

def contains (s : IssueSet) (i : Issue) : Bool := s.issues.any i.same

def add (s : IssueSet) (i : Issue) : IssueSet :=
  if s.contains i then s else ⟨s.issues ++ [i]⟩

def sorted (s : IssueSet) : List Issue :=
  s.issues.mergeSort fun i j => i.pos.le j.pos

end IssueSet

def unsuppressed (suppressed : List String) (issues : List Issue) : List Issue :=
  issues.filter fun i => !suppressed.contains i.rule.id

end ReadGuard
