import ReadGuard.CallGraph.Basic
import ReadGuard.Command.Switch
import ReadGuard.Log
import ReadGuard.System

namespace ReadGuard.Command

inductive Effect
  | log (line : LogLine)
  | print (text : String)
  /-- A message about wrong arguments. -/
  | complain (text : String)
  /-- Writes a file, for which missing directories are made. -/
  | write (path : Path) (text : String)
  /-- Writes a file at the place that a path leads to. -/
  | writeAt (path : Path) (text : String)
deriving DecidableEq, Repr

inductive Exit
  | status (code : Nat)
  /-- A file to be read, or its path, was not as it must be. -/
  | breakdown (cause : Breakdown)
  /-- A function could not be gone through again. -/
  | unbound (fault : BindingFault)
  /-- A path starts with the home directory of an unknown user. -/
  | unknownHome
  /-- A switch was given without the value that it needs. -/
  | lacking (switch : Switch)
  | unwritten (cause : WriteFailure)
deriving DecidableEq, Repr

structure Script where
  effects : List Effect := []
  exit : Exit
deriving DecidableEq, Repr

/-- What a run has said on the way, and how it ended. -/
structure Aftermath where
  log : List LogLine := []
  complaints : List String := []
  exit : Exit := .status 0

def Aftermath.add (a : Aftermath) : Effect → Aftermath
  | .log line => { a with log := a.log ++ [line] }
  | .complain text => { a with complaints := a.complaints ++ [text] }
  | _ => a

namespace Script

def after (s : Script) (effects : List Effect) : Script :=
  { s with effects := effects ++ s.effects }

def atLevel (s : Script) (level : LogLevel) : Script :=
  { s with effects := s.effects.filter fun
      | .log line => level.rank ≤ line.level.rank
      | _ => true }

section Play

variable {m : Type → Type} [Monad m] (sys : System m)

def perform : Effect → ExceptT WriteFailure m Unit
  | .log _ | .complain _ => return
  | .print text => System.ask (sys.print text)
  | .write path text => sys.save path text
  | .writeAt path text => do sys.save (← System.ask (sys.resolve path)) text

def playFrom (a : Aftermath) (exit : Exit) : List Effect → m Aftermath
  | [] => return { a with exit := exit }
  | effect :: rest => do
    match ← (perform sys effect).run with
    | .error cause => return { a with exit := .unwritten cause }
    | .ok () => playFrom (a.add effect) exit rest

def play (s : Script) : m Aftermath := playFrom sys {} s.exit s.effects

end Play

end Script

end ReadGuard.Command
