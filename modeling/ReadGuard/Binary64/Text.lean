import ReadGuard.Binary64.Shortest
import ReadGuard.Text.Blank
import ReadGuard.Text.Digit

namespace ReadGuard

namespace Binary64

/-- How a decimal is laid out: positionally while the exponent of the leading digit is at least
`least` and below `limit`, else with an exponent of at least `width` digits. -/
structure Layout where
  least : Int
  limit : Int
  width : Nat

def Layout.standard : Layout := ⟨-4, 16, 2⟩

def positional (digits : List Char) (whole : Int) : List Char :=
  if whole ≤ 0 then
    '0' :: '.' :: List.replicate (-whole).toNat '0' ++ digits
  else
    let n := whole.toNat
    if digits.length ≤ n then digits ++ List.replicate (n - digits.length) '0' ++ ['.', '0']
    else digits.take n ++ '.' :: digits.drop n

def scientific (layout : Layout) (digits : List Char) (lead : Int) : List Char :=
  let power := Nat.toDigits 10 lead.natAbs
  let fraction := if digits.length ≤ 1 then [] else '.' :: digits.drop 1
  digits.take 1 ++ fraction ++ 'e' :: (if lead < 0 then '-' else '+') ::
    List.replicate (layout.width - power.length) '0' ++ power

def Layout.write (layout : Layout) (d : Decimal) : List Char :=
  let digits := Nat.toDigits 10 d.digits
  let lead := (digits.length : Int) + d.exponent - 1
  if layout.least ≤ lead && lead < layout.limit then positional digits (lead + 1)
  else scientific layout digits lead

def signText (negative : Bool) : List Char :=
  if negative then ['-'] else []

def text : Binary64 → String
  | .nan => "nan"
  | .infinite negative => String.ofList (signText negative ++ ['i', 'n', 'f'])
  | .finite negative m e =>
    let body := if m = 0 then ['0', '.', '0'] else Layout.standard.write (shortest m e)
    String.ofList (signText negative ++ body)

end Binary64

namespace Numeral

open Text

def maxDigits : Nat := 4300

def digits? : List Char → Option (List Nat)
  | [] => none
  | c :: rest =>
    match digitValue? c, rest with
    | none, _ => none
    | some d, [] => some [d]
    | some d, '_' :: rest => (digits? rest).map (d :: ·)
    | some d, rest => (digits? rest).map (d :: ·)

def ofDigits (ds : List Nat) : Nat :=
  ds.foldl (fun n d => 10 * n + d) 0

def splitSign : List Char → Bool × List Char
  | '-' :: rest => (true, rest)
  | '+' :: rest => (false, rest)
  | cs => (false, cs)

def int? (cs : List Char) : Option Int :=
  let (negative, body) := splitSign (trim isBlank cs)
  match digits? body with
  | none => none
  | some ds =>
    if maxDigits < ds.length then none
    else some (if negative then -(ofDigits ds : Int) else ofDigits ds)

def special? (negative : Bool) (cs : List Char) : Option Binary64 :=
  match String.ofList (cs.map Char.toLower) with
  | "nan" => some .nan
  | "inf" => some (.infinite negative)
  | "infinity" => some (.infinite negative)
  | _ => none

def part? (cs : List Char) : Option (List Nat) :=
  if cs.isEmpty then some [] else digits? cs

def mantissa? (cs : List Char) : Option (Nat × Nat) := do
  let whole ← part? (cs.takeWhile (· ≠ '.'))
  let fraction ← part? ((cs.dropWhile (· ≠ '.')).drop 1)
  if whole.isEmpty && fraction.isEmpty then none
  else some (ofDigits (whole ++ fraction), fraction.length)

def power? (cs : List Char) : Option Int :=
  match cs with
  | [] => some 0
  | _ :: rest =>
    let (negative, body) := splitSign rest
    (digits? body).map fun ds => if negative then -(ofDigits ds : Int) else ofDigits ds

def float? (cs : List Char) : Option Binary64 :=
  let (negative, body) := splitSign (trim isBlank cs)
  match special? negative body with
  | some x => some x
  | none => do
    let isMark (c : Char) : Bool := c = 'e' || c = 'E'
    let (m, places) ← mantissa? (body.takeWhile fun c => !isMark c)
    let power ← power? (body.dropWhile fun c => !isMark c)
    some (Binary64.ofDecimal negative m (power - places))

end Numeral

end ReadGuard
