namespace ReadGuard

inductive Rule
  | fieldAssign
  | pointerAssign
  | indexedWrite
  | fieldIncDec
  | pointerIncDec
  | builtinWrite
  | loopBinding
  | methodCall
  | pointerEscape
  | contaminatedCall
deriving DecidableEq, Repr

namespace Rule

def all : List Rule :=
  [.fieldAssign, .pointerAssign, .indexedWrite, .fieldIncDec, .pointerIncDec, .builtinWrite,
   .loopBinding, .methodCall, .pointerEscape, .contaminatedCall]

def id : Rule → String
  | .fieldAssign => "fieldAssign"
  | .pointerAssign => "pointerAssign"
  | .indexedWrite => "indexedWrite"
  | .fieldIncDec => "fieldIncDec"
  | .pointerIncDec => "pointerIncDec"
  | .builtinWrite => "builtinWrite"
  | .loopBinding => "loopBinding"
  | .methodCall => "methodCall"
  | .pointerEscape => "pointerEscape"
  | .contaminatedCall => "contaminatedCall"

def label : Rule → String
  | .fieldAssign => "FIELD_ASSIGN"
  | .pointerAssign => "POINTER_ASSIGN"
  | .indexedWrite => "INDEXED_WRITE"
  | .fieldIncDec => "FIELD_INC_DEC"
  | .pointerIncDec => "POINTER_INC_DEC"
  | .builtinWrite => "BUILTIN_WRITE"
  | .loopBinding => "LOOP_BINDING"
  | .methodCall => "METHOD_CALL"
  | .pointerEscape => "POINTER_ESCAPE"
  | .contaminatedCall => "CONTAMINATED_CALL"

def category : Rule → String
  | .fieldAssign => "direct mutation"
  | .pointerAssign => "pointer-mediated assignment"
  | .indexedWrite => "indexed mutation"
  | .fieldIncDec => "direct mutation"
  | .pointerIncDec => "pointer-mediated increment"
  | .builtinWrite => "builtin mutation"
  | .loopBinding => "protected loop variable"
  | .methodCall => "method call on protected value"
  | .pointerEscape => "pointer escape"
  | .contaminatedCall => "call to mutating function"

/-- Does a breach of the rule make the function around it one that mutates? -/
def mutates : Rule → Bool
  | .loopBinding | .methodCall | .pointerEscape => false
  | _ => true

def ofId? (id : String) : Option Rule :=
  all.find? (·.id == id)

end Rule

end ReadGuard
