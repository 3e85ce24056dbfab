import ReadGuard.Command.Switch
import ReadGuard.Text.Cut
import ReadGuard.Text.Digit
import ReadGuard.Text.Quoted

namespace ReadGuard.Command

inductive Misuse
  | ambiguous (text : String) (candidates : List String)
  | missingValue (switch : Switch)
  | unwantedValue (switch : Switch) (value : String)
  | badChoice (switch : Switch) (value : String) (choices : List String)
  | unknown (texts : List String)
  | noDumps
deriving DecidableEq, Repr

def Misuse.message : Misuse → String
  | .ambiguous text candidates =>
    "ambiguous option: " ++ text ++ " could match " ++ ", ".intercalate candidates
  | .missingValue switch => "argument " ++ switch.shown ++ ": expected one argument"
  | .unwantedValue switch value =>
    "argument " ++ switch.shown ++ ": ignored explicit argument " ++ Text.quote value
  | .badChoice switch value choices =>
    "argument " ++ switch.shown ++ ": invalid choice: " ++ Text.quote value ++ " (choose from " ++
      ", ".intercalate (choices.map Text.quote) ++ ")"
  | .unknown texts => "unrecognized arguments: " ++ " ".intercalate texts
  | .noDumps => "the following arguments are required: DUMP"

abbrev Setting := Switch × Option String

/-- What an argument says on its own. -/
inductive Word
  | plain (text : String)
  /-- The argument `--`: all after it are plain. -/
  | separator
  /-- Switches, the last of which may wait for its value. -/
  | switches (given : List Setting) (waiting : Option Switch)
  /-- An argument that is not known. -/
  | stray (text : String)
  | refused (cause : Misuse)
deriving DecidableEq, Repr

namespace Word

def attached (value : String) : Option String :=
  if value = "--" then none else some value

def ofSwitch (earlier : List Setting) (s : Switch) : Word :=
  if s.takesValue then .switches earlier (some s) else .switches (earlier ++ [(s, none)]) none

def ofLong (s : Switch) : Option String → Word
  | none => ofSwitch [] s
  | some value =>
    if s.takesValue then .switches [(s, attached value)] none
    else .refused (.unwantedValue s value)

/-- A switch of one letter after others, with what follows it in the argument: its value, or more
switches of one letter. -/
def ofLetters (earlier : List Setting) (s : Switch) : List Char → Word
  | [] => ofSwitch earlier s
  | c :: rest =>
    if s.takesValue then
      .switches (earlier ++ [(s, attached (String.ofList (c :: rest)))]) none
    else
      match Switch.ofSpelling? (String.ofList ['-', c]) with
      | some next => ofLetters (earlier ++ [(s, none)]) next rest
      | none => .refused (.unwantedValue s (String.ofList (c :: rest)))

/-- A switch of one letter at the start of an argument. An equals sign may follow it, but not end
the argument of a switch without a value. -/
def ofShort (s : Switch) : List Char → Word
  | ['='] => ofLong s (some "")
  | '=' :: rest =>
    if s.takesValue then ofLong s (some (String.ofList rest)) else ofLetters [] s rest
  | rest => ofLetters [] s rest

def isDigits (cs : List Char) : Bool :=
  !cs.isEmpty && cs.all fun c => (Text.digitValue? c).isSome

/-- A dash and a whole number, or one with a point and digits after it. A line feed may end it. -/
def isNegative (text : String) : Bool :=
  match text.toList with
  | '-' :: cs =>
    let cs := if cs.getLast? = some '\n' then cs.dropLast else cs
    let whole := cs.takeWhile fun c => (Text.digitValue? c).isSome
    match cs.drop whole.length with
    | [] => isDigits whole
    | '.' :: decimals => isDigits decimals
    | _ => false
  | _ => false

def unknown (text : String) : Word :=
  if isNegative text || text.toList.contains ' ' then .plain text
  else .stray text

/-- The start of a spelling will do if only one switch has it. -/
def ofName (text name : String) (value : Option String) : Except Misuse Word :=
  match Switch.ofSpelling? name with
  | some s => .ok (ofLong s value)
  | none =>
    match Switch.startingWith name with
    | [] => .ok (unknown text)
    | [(_, s)] => .ok (ofLong s value)
    | candidates => .error (.ambiguous text (candidates.map (·.1)))

def ofText (text : String) : Except Misuse Word :=
  match text.toList with
  | '-' :: '-' :: _ =>
    match Text.cutFirst? '=' text with
    | some (name, value) => ofName text name (some value)
    | none => ofName text text none
  | '-' :: c :: rest =>
    match Switch.ofSpelling? (String.ofList ['-', c]) with
    | some s => .ok (ofShort s rest)
    | none => .ok (unknown text)
  | _ => .ok (.plain text)

def all : List String → Except Misuse (List Word)
  | [] => .ok []
  | text :: rest =>
    if text = "--" then .ok (.separator :: rest.map .plain)
    else do
      let word ← ofText text
      return word :: (← all rest)

end Word

end ReadGuard.Command
