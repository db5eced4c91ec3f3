import ServiceGraph.Decimal.Shortest

/-!
# Reading a number

* `Decimal.toBinary`: the binary number nearest to a decimal; of two equally near ones the one
  with an even significand; beyond the largest finite number, infinity;
* `Decimal.ofChars?`: the grammar of a decimal numeral, digits with at most one point and an
  optional exponent, without sign.
-/

namespace ServiceGraph.Decimal

/-- divide, a half goes to the even neighbour -/
def roundedQuotient (num den : Nat) : Nat :=
  let q := num / den
  let r := num % den
  if 2 * r < den then q
  else if den < 2 * r then q + 1
  else if q % 2 = 0 then q else q + 1

/-- the nearest binary number to the positive fraction `num / den`: fifty-three bits are kept,
fewer near zero -/
def ofFraction (num den : Nat) : Binary64 :=
  let guess : Int := (Nat.log2 num : Int) - Nat.log2 den - 52
  let large : Bool :=
    if 0 ≤ guess then den * Nat.pow 2 (guess.toNat + 52) ≤ num
    else den * Nat.pow 2 52 ≤ num * Nat.pow 2 (-guess).toNat
  let exponent := max (-1074) (if large then guess else guess - 1)
  let m :=
    if 0 ≤ exponent then roundedQuotient num (den * Nat.pow 2 exponent.toNat)
    else roundedQuotient (num * Nat.pow 2 (-exponent).toNat) den
  if m = Nat.pow 2 53 then Binary64.ofParts (Nat.pow 2 52) (exponent + 1)
  else Binary64.ofParts m exponent

/-- the binary number nearest to a decimal -/
def toBinary (d : Decimal) : Binary64 :=
  if d.coefficient = 0 then Binary64.zero
  else
    let size : Int := Nat.log2 d.coefficient * 3 / 10 + d.exponent
    if 330 < size then Binary64.infinity
    else if size < -400 then Binary64.zero
    else ofFraction (d.coefficient * Nat.pow 10 d.exponent.toNat) (Nat.pow 10 (-d.exponent).toNat)

/-- the number that a row of digits writes, continuing `n` -/
def digitsValue (n : Nat) (ds : List Char) : Nat :=
  ds.foldl (fun acc c => acc * 10 + (c.toNat - '0'.toNat)) n

/-- an exponent: an optional sign and at least one digit, to the end -/
def exponentOf? (cs : List Char) : Option Int :=
  let read (ds : List Char) : Option Nat :=
    if ds ≠ [] ∧ ds.all Char.isDigit then some (digitsValue 0 ds) else none
  match cs with
  | '-' :: ds => (read ds).map fun n => -(n : Int)
  | '+' :: ds => (read ds).map Int.ofNat
  | ds => (read ds).map Int.ofNat

/-- read a numeral without sign: digits, an optional point with digits, an optional exponent, and
a digit before the exponent -/
def ofChars? (cs : List Char) : Option Decimal :=
  let whole := cs.takeWhile Char.isDigit
  let afterWhole := cs.dropWhile Char.isDigit
  let (fraction, rest) := match afterWhole with
    | '.' :: more => (more.takeWhile Char.isDigit, more.dropWhile Char.isDigit)
    | more => ([], more)
  if whole = [] ∧ fraction = [] then none
  else
    let coefficient := digitsValue (digitsValue 0 whole) fraction
    let scale : Int := -(fraction.length : Int)
    match rest with
    | [] => some ⟨coefficient, scale⟩
    | c :: more =>
      if c = 'e' ∨ c = 'E' then (exponentOf? more).map fun e => ⟨coefficient, e + scale⟩ else none

end ServiceGraph.Decimal
