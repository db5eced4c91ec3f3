import ServiceGraph.Decimal.Shortest

/-!
# Writing a number

The shortest decimal of a number is laid out by a `NumeralStyle`.

* `NumeralStyle.plain`: always positional, a whole number without a point;
* `NumeralStyle.literal`: positional from `1e-4` up to `1e16`, with a point in every positional
  number;
* `NumeralStyle.document`: the same from `1e-5` on;
* `Binary64.render`: the text of a number in a notation.
-/

namespace ServiceGraph

/-- the choices a format makes for numbers -/
structure NumeralStyle where
  /-- the exponents of ten from which, and below which, a number is written positionally -/
  positional : Option (Int × Int)
  /-- a whole number is written with `.0` -/
  keepsPoint : Bool
  tie : Tie

namespace NumeralStyle

/-- text for people: `0.1`, `1`, `10000000000000000000000` -/
def plain : NumeralStyle := ⟨none, false, .up⟩

/-- text for source code: `0.1`, `1.0`, `1e22` -/
def literal : NumeralStyle := ⟨some (-4, 16), true, .up⟩

/-- text for documents: as source code, but `0.00001` is still positional -/
def document : NumeralStyle := ⟨some (-5, 16), true, .even⟩

/-- a positional number: `point` digits stand before the point -/
def positionalText (digits : List Char) (point : Int) (keepsPoint : Bool) : List Char :=
  let tail : List Char := if keepsPoint then ['.', '0'] else []
  if point ≤ 0 then ['0', '.'] ++ List.replicate (-point).toNat '0' ++ digits
  else if (digits.length : Int) ≤ point then
    digits ++ List.replicate (point - digits.length).toNat '0' ++ tail
  else digits.take point.toNat ++ '.' :: digits.drop point.toNat

/-- a number with an exponent: one digit stands before the point -/
def exponentText (digits : List Char) (exponent : Int) : List Char :=
  let mantissa := match digits with
    | d :: e :: rest => d :: '.' :: e :: rest
    | ds => ds
  mantissa ++ 'e' :: (toString exponent).toList

def layout (n : NumeralStyle) (d : Decimal) : List Char :=
  let digits := (toString d.coefficient).toList
  let point : Int := digits.length + d.exponent
  match n.positional with
  | none => positionalText digits point n.keepsPoint
  | some (low, high) =>
    if d.coefficient = 0 ∨ (low ≤ point - 1 ∧ point - 1 < high) then
      positionalText digits point n.keepsPoint
    else exponentText digits (point - 1)

end NumeralStyle

def Binary64.render (n : NumeralStyle) (x : Binary64) : String :=
  if x.isNaN then "NaN"
  else
    let magnitude := if x.isInfinite then "inf".toList else n.layout (x.shortest n.tie)
    String.ofList (if x.negative then '-' :: magnitude else magnitude)

end ServiceGraph
