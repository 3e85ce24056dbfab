namespace ReadGuard

inductive LogLevel
  | debug
  | info
  | warning
  | error
deriving DecidableEq, Repr

namespace LogLevel

def rank : LogLevel → Nat
  | .debug => 0
  | .info => 1
  | .warning => 2
  | .error => 3

def name : LogLevel → String
  | .debug => "DEBUG"
  | .info => "INFO "
  | .warning => "WARNI"
  | .error => "ERROR"

end LogLevel

structure LogLine where
  level : LogLevel
  source : String
  message : String
deriving DecidableEq, Repr

def LogLine.text (l : LogLine) : String :=
  "[" ++ l.level.name ++ "] " ++ l.source ++ ": " ++ l.message

end ReadGuard
