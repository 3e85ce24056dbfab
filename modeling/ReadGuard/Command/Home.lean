import ReadGuard.Command.Script
import ReadGuard.Policy.Sources

namespace ReadGuard.Command

/-- The home directories that the system knows: of the user at work, and of users by their names. -/
structure Users where
  own : Option String := none
  named : String → Option String := fun _ => none

def homeGiven (users : Users) (env : Environment) (user : String) : Option String :=
  if user.isEmpty then (env "HOME").or users.own else users.named user

/-- The home directory of a user. Slashes at its end do not count, so that an empty one is the root.
It cannot start with a tilde itself. -/
def homeOf (users : Users) (env : Environment) (user : String) : Option String :=
  let given := homeGiven users env user
  match given.map fun home => (home.toList.reverse.dropWhile (· = '/')).reverse with
  | some [] => some "/"
  | some ('~' :: _) => none
  | some home => some (String.ofList home)
  | none => none

def writable (home : String → Option String) (text : String) : Except Exit Path :=
  let p := Path.ofText text
  match p.withHome home with
  | some p => .ok p
  | none => .error (if hasNull (p.names.headD "") then .unwritten .nullInPath else .unknownHome)

end ReadGuard.Command
