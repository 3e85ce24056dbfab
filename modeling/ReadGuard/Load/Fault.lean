import ReadGuard.Code.Position
import ReadGuard.Files
import ReadGuard.Sexp.Reader
import ReadGuard.Ty.Grammar

namespace ReadGuard

namespace Load

inductive Fault
  | unreadable (path : String) (cause : FileFault)
  | notSexp (file : String) (cause : Sexp.ReadError)
  | notUnit (file : String)
  | keywordWithoutValue (keyword : String) (head : Option String)
  | notText (found : Sexp)
  | notInteger (found : Sexp)
  | badPosition (found : Sexp)
  | notParam (found : Sexp)
  | badParam (found : Sexp)
  | notParams (found : Sexp)
  | notBlock (found : Sexp)
  | operandCount (form : String) (wanted found : Nat)
  | unitWithoutName
  | fileWithoutName
  | funcWithoutName
  | unknownObject (name : String)
  | callWithoutFunction
  | assignOperator
  | assignSides
  | badIncDec (op : String)
  | nameAfterValue
  | declWithoutName
  | badCond
  | badBranch
  | exprAfterStmt
  | notFile (found : Sexp)
  | notFunc (found : Sexp)
  | strayInFunc (name : String) (found : Sexp)
  | unknownExpr (found : Sexp)
  | unknownStmt (found : Sexp)
  | notClause (found : Sexp)
  | badType (cause : Ty.ReadError)
deriving Repr

namespace Fault

inductive Kind
  | malformed
  | unknownForm
  | typeText
deriving DecidableEq, Repr

def Kind.code : Kind → String
  | .malformed => "RWS-1001"
  | .unknownForm => "RWS-1002"
  | .typeText => "RWS-1101"

def kind : Fault → Kind
  | .notFile _ | .notFunc _ | .strayInFunc _ _ | .unknownExpr _ | .unknownStmt _ | .notClause _ =>
    .unknownForm
  | .badType _ => .typeText
  | _ => .malformed

def shownHead : Option String → String
  | some head => head
  | none => "None"

def typeMessage : Ty.ReadError → String
  | .empty text => "cannot parse type " ++ Text.quote text ++ ": empty type string"
  | .malformed text => "cannot parse type " ++ Text.quote text

def message : Fault → String
  | .unreadable path cause => "cannot read unit dump " ++ path ++ ": " ++ cause.message
  | .notSexp file cause => file ++ ": S-expression syntax error: " ++ cause.message
  | .notUnit file => file ++ ": expected (unit ...) at top level"
  | .keywordWithoutValue keyword head =>
    "keyword " ++ keyword ++ " in (" ++ shownHead head ++ " ...) has no value"
  | .notText found =>
    "expected string or symbol, got " ++ found.kindName ++ ": " ++ found.shown
  | .notInteger found => "expected integer, got " ++ found.kindName ++ ": " ++ found.shown
  | .badPosition found => "malformed :at " ++ found.shown ++ ", expected (line col [offset])"
  | .notParam found => "expected (name \"type\") parameter, got " ++ found.shown
  | .badParam found => "parameter " ++ found.shown ++ " needs a name and a type"
  | .notParams found => "expected (params ...), got " ++ found.shown
  | .notBlock found => "expected (block ...), got " ++ found.shown
  | .operandCount form wanted found =>
    "(" ++ form ++ " ...) takes " ++ toString wanted ++ " operand(s), got " ++ toString found
  | .unitWithoutName => "(unit ...) needs a name"
  | .fileWithoutName => "(file ...) needs a file name"
  | .funcWithoutName => "(func ...) needs a name"
  | .unknownObject name => "unknown object kind " ++ Text.quote name
  | .callWithoutFunction => "(call ...) needs a function"
  | .assignOperator => "(assign ...) needs exactly one operator string"
  | .assignSides => "(assign ...) needs both sides"
  | .badIncDec op => "bad inc/dec operator " ++ Text.quote op
  | .nameAfterValue => "(var ...) names must precede values"
  | .declWithoutName => "(var ...) declares no names"
  | .badCond => "(if cond (block ...) [else]) expected"
  | .badBranch => "(branch tok [label]) expected"
  | .exprAfterStmt => "case expressions must precede statements"
  | .notFile found => "expected (file ...) inside (unit ...), got " ++ found.shown
  | .notFunc found => "unknown declaration form " ++ found.shown
  | .strayInFunc name found => "unexpected form in func " ++ name ++ ": " ++ found.shown
  | .unknownExpr found => "unknown expression form " ++ found.shown
  | .unknownStmt found => "unknown statement form " ++ found.shown
  | .notClause found => "expected (case ...) inside (switch ...), got " ++ found.shown
  | .badType cause => typeMessage cause

end Fault

end Load

structure LoadError where
  fault : Load.Fault
  pos : Position := {}
deriving Repr

def LoadError.message (e : LoadError) : String :=
  errorText e.pos e.fault.message e.fault.kind.code

end ReadGuard
