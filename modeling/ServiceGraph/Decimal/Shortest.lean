import ServiceGraph.Decimal.Binary64

/-!
# The shortest decimal of a binary number

A finite binary number `m · 2 ^ e` is what every real number of a small interval around it is
rounded to. Its shortest decimal is the one with the fewest digits inside that interval, and among
those the nearest.

* `Decimal`: `coefficient · 10 ^ exponent`;
* `Interval.ofParts`: the interval, over one common denominator;
* `Binary64.shortest`: the first grid of one, two, … seventeen digits that has a point in the
  interval, tried at the two neighbours of the number on the grid.
-/

namespace ServiceGraph

/-- the number `coefficient · 10 ^ exponent` -/
structure Decimal where
  coefficient : Nat
  exponent : Int
deriving DecidableEq, Repr, Inhabited

namespace Decimal

/-- the same number with the trailing zeros of the coefficient moved into the exponent -/
def trim : Nat → Decimal → Decimal
  | 0, d => d
  | fuel + 1, d =>
    if d.coefficient ≠ 0 ∧ d.coefficient % 10 = 0 then
      trim fuel ⟨d.coefficient / 10, d.exponent + 1⟩
    else d

end Decimal

/-- which of two equally near decimals is taken -/
inductive Tie where
  | up
  | even
deriving DecidableEq, Repr

/-- the reals that round to a number: from `low / den` to `high / den` around `mid / den`; the
ends belong to it when `closed` -/
structure Interval where
  low : Nat
  mid : Nat
  high : Nat
  den : Nat
  closed : Bool
deriving Repr

namespace Interval

/-- the interval of `significand · 2 ^ exponent`; below a power of two the grid is twice as fine -/
def ofParts (significand : Nat) (exponent : Int) : Interval :=
  let scale := Nat.pow 2 exponent.toNat
  let below := if significand = Nat.pow 2 52 ∧ -1074 < exponent then 1 else 2
  { low := (4 * significand - below) * scale
    mid := 4 * significand * scale
    high := (4 * significand + 2) * scale
    den := 4 * Nat.pow 2 (-exponent).toNat
    closed := significand % 2 = 0 }

def holds (i : Interval) (c num den : Nat) : Bool :=
  let x := c * num * i.den
  if i.closed then i.low * den ≤ x && x ≤ i.high * den
  else i.low * den < x && x < i.high * den

def digitCount : Nat → Nat → Nat
  | 0, _ => 0
  | fuel + 1, n => if n < 10 then 1 else digitCount fuel (n / 10) + 1

/-- how often a number below one is multiplied by ten to reach one -/
def leadingZeros : Nat → Nat → Nat → Nat
  | 0, _, _ => 0
  | fuel + 1, num, den => if den ≤ num then 0 else leadingZeros fuel (num * 10) den + 1

/-- the `p` with `10 ^ (p - 1) ≤ mid / den < 10 ^ p` -/
def magnitude (i : Interval) : Int :=
  if i.den ≤ i.mid then digitCount 400 (i.mid / i.den)
  else 1 - leadingZeros 400 i.mid i.den

/-- the point of the grid `k · 10 ^ step` in the interval, the nearer one of two -/
def onGrid (i : Interval) (tie : Tie) (step : Int) : Option Nat :=
  let num := Nat.pow 10 step.toNat
  let den := Nat.pow 10 (-step).toNat
  let floor := i.mid * den / (i.den * num)
  let lower := i.holds floor num den
  let upper := i.holds (floor + 1) num den
  let twice := 2 * i.mid * den
  let middle := (2 * floor + 1) * num * i.den
  if lower && upper then
    if twice < middle then some floor
    else if middle < twice then some (floor + 1)
    else match tie with
      | .up => some (floor + 1)
      | .even => some (if floor % 2 = 0 then floor else floor + 1)
  else if lower then some floor
  else if upper then some (floor + 1)
  else none

/-- the coarsest grid that has a point in the interval; `digits` grids are still to be tried -/
def coarsest (i : Interval) (tie : Tie) : Nat → Int → Decimal
  | 0, _ => ⟨0, 0⟩
  | digits + 1, step =>
    match i.onGrid tie step with
    | some k => Decimal.trim 20 ⟨k, step⟩
    | none => coarsest i tie digits (step - 1)

end Interval

/-- the shortest decimal that reads back as the magnitude of a finite number -/
def Binary64.shortest (x : Binary64) (tie : Tie) : Decimal :=
  if x.significand = 0 then ⟨0, 0⟩
  else
    let i := Interval.ofParts x.significand x.exponent
    i.coarsest tie 17 (i.magnitude - 1)

end ServiceGraph
