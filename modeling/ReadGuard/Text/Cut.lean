namespace ReadGuard.Text

def cutLast? (mark : Char) (s : String) : Option (String × String) :=
  let cs := s.toList.reverse
  match cs.dropWhile (· ≠ mark) with
  | [] => none
  | _ :: before =>
    some (String.ofList before.reverse, String.ofList (cs.takeWhile (· ≠ mark)).reverse)

def cutFirst? (mark : Char) (s : String) : Option (String × String) :=
  match s.toList.dropWhile (· ≠ mark) with
  | [] => none
  | _ :: after => some (String.ofList (s.toList.takeWhile (· ≠ mark)), String.ofList after)

def splitAt (mark : Char) : List Char → List (List Char)
  | [] => [[]]
  | c :: cs =>
    if c = mark then [] :: splitAt mark cs
    else
      match splitAt mark cs with
      | [] => [[c]]
      | part :: parts => (c :: part) :: parts

def parts (mark : Char) (s : String) : List String :=
  (splitAt mark s.toList).map String.ofList

def lastPart (mark : Char) (s : String) : String :=
  match cutLast? mark s with
  | some (_, after) => after
  | none => s

end ReadGuard.Text
