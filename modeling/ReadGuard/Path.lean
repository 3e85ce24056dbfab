import ReadGuard.Text.Cut

namespace ReadGuard

/-- A path by the names on it, which lead from the root or, without one, from the working
directory. -/
structure Path where
  root : String := ""
  names : List String := []
deriving DecidableEq, Repr

namespace Path

/-- Slashes at the start are the root. Exactly two of them stay two. -/
def rootOf (text : String) : String :=
  match text.toList with
  | '/' :: '/' :: '/' :: _ => "/"
  | '/' :: '/' :: _ => "//"
  | '/' :: _ => "/"
  | _ => ""

def ofText (text : String) : Path :=
  ⟨rootOf text, (Text.parts '/' text).filter fun name => name ≠ "" && name ≠ "."⟩

def text (p : Path) : String :=
  if p.root.isEmpty && p.names.isEmpty then "." else p.root ++ "/".intercalate p.names

def isRooted (p : Path) : Bool := !p.root.isEmpty

def start (p : Path) : Path :=
  ⟨if p.isRooted then "/" else "", []⟩

def parent (p : Path) : Path := { p with names := p.names.dropLast }

def add (p : Path) (name : String) : Path := { p with names := p.names ++ [name] }

def isBare (p : Path) : Bool := p.names.all (· = "..")

/-- The directory above. It has two dots for a name where no name is left to drop, but nothing is
above the root. -/
def above (p : Path) : Path :=
  if !p.isBare then p.parent
  else if p.isRooted then p
  else p.add ".."

/-- The path without names before two dots. It leads to the same place where these names are of
directories. -/
def normal (p : Path) : Path :=
  p.names.foldl (fun q name => if name = ".." then q.above else q.add name) p.start

def isUnder (p dir : Path) : Bool :=
  p.root = dir.root && dir.names.isPrefixOf p.names && dir.names.length < p.names.length

def withHome (homeOf : String → Option String) (p : Path) : Option Path :=
  match p.isRooted, p.names with
  | false, first :: rest =>
    match first.toList with
    | '~' :: user =>
      (homeOf (String.ofList user)).map fun home =>
        { ofText home with names := (ofText home).names ++ rest }
    | _ => some p
  | _, _ => some p

end Path

end ReadGuard
