import ReadGuard.Binary64.Basic

namespace ReadGuard.Binary64

structure Decimal where
  digits : Nat
  exponent : Int
deriving DecidableEq, Repr

def Decimal.strip : Nat → Decimal → Decimal
  | 0, d => d
  | limit + 1, d =>
    if d.digits % 10 = 0 && d.digits ≠ 0 then strip limit ⟨d.digits / 10, d.exponent + 1⟩ else d

def leadingExponent (num den : Nat) : Int :=
  if den ≤ num then ((Nat.toDigits 10 (num / den)).length : Int) - 1
  else
    let d := (Nat.toDigits 10 (den / num)).length
    if den ≤ num * Nat.pow 10 (d - 1) then -((d : Int) - 1) else -(d : Int)

def decimalScaled (num den : Nat) (e : Int) : Nat × Nat :=
  if e < 0 then (num * Nat.pow 10 (-e).toNat, den) else (num, den * Nat.pow 10 e.toNat)

/-- The numbers that round to `m * 2 ^ e`, as quarters of `2 ^ e`: the two ends and whether they
belong to it. Below a power of two the gap is half as wide. -/
def rounding (m : Nat) (e : Int) : Nat × Nat × Bool :=
  let low := if m = Nat.pow 2 52 ∧ -1074 < e then 4 * m - 1 else 4 * m - 2
  (low, 4 * m + 2, m % 2 = 0)

/-- The decimal of `places` digits nearest to `m * 2 ^ e` among its two neighbours on that grid,
if one of them rounds to the number; of two equally near ones the even one. -/
def shortest? (m : Nat) (e : Int) (places : Nat) : Option Decimal :=
  let (low, high, closed) := rounding m e
  let unit := scaled 1 1 (2 - e)
  let lead := leadingExponent (4 * m * unit.1) unit.2
  let step := lead - places + 1
  let grid := decimalScaled unit.1 unit.2 step
  -- a quarter of the last binary place, in units of the last decimal place, is `grid.1 / grid.2`
  let below := 4 * m * grid.1 / grid.2
  let inside (n : Nat) : Bool :=
    if closed then low * grid.1 ≤ n * grid.2 && n * grid.2 ≤ high * grid.1
    else low * grid.1 < n * grid.2 && n * grid.2 < high * grid.1
  let far (n : Nat) : Nat := max (n * grid.2) (4 * m * grid.1) - min (n * grid.2) (4 * m * grid.1)
  let pick : Option Nat :=
    match inside below, inside (below + 1) with
    | true, true =>
      if far below < far (below + 1) then some below
      else if far (below + 1) < far below then some (below + 1)
      else some (if below % 2 = 0 then below else below + 1)
    | true, false => some below
    | false, true => some (below + 1)
    | false, false => none
  pick.map fun n => Decimal.strip 20 ⟨n, step⟩

/-- The decimal with the fewest digits that reads back as `m * 2 ^ e`. Seventeen digits always
do. -/
def shortest (m : Nat) (e : Int) : Decimal :=
  ((List.range 17).findSome? fun k => shortest? m e (k + 1)).getD ⟨0, 0⟩

end ReadGuard.Binary64
