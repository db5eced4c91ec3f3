/-!
# Binary floating point numbers

A 64-bit floating point number is kept as its bits, so that two numbers with the same bits are
the same value and everything about them can be computed exactly.

* `Binary64.negative`, `isNaN`, `isInfinite`: the parts of the format;
* `Binary64.significand`, `Binary64.exponent`: a finite number is `± significand · 2 ^ exponent`;
* `Binary64.sameNumber`: equality of the numbers (zero has two signs, no NaN equals anything).
-/

namespace ServiceGraph

/-- a 64-bit binary floating point number -/
structure Binary64 where
  /-- sign, eleven bits of exponent, fifty-two bits of fraction -/
  bits : UInt64
deriving DecidableEq, Repr, Inhabited

namespace Binary64

def negative (x : Binary64) : Bool :=
  Nat.pow 2 63 ≤ x.bits.toNat

def exponentField (x : Binary64) : Nat :=
  x.bits.toNat / Nat.pow 2 52 % Nat.pow 2 11

def fraction (x : Binary64) : Nat :=
  x.bits.toNat % Nat.pow 2 52

def isNaN (x : Binary64) : Bool :=
  x.exponentField == 2047 && x.fraction != 0

def isInfinite (x : Binary64) : Bool :=
  x.exponentField == 2047 && x.fraction == 0

def isZero (x : Binary64) : Bool :=
  x.exponentField == 0 && x.fraction == 0

/-- the whole number that a finite number scales -/
def significand (x : Binary64) : Nat :=
  if x.exponentField = 0 then x.fraction else Nat.pow 2 52 + x.fraction

/-- the power of two that scales it -/
def exponent (x : Binary64) : Int :=
  if x.exponentField = 0 then -1074 else (x.exponentField : Int) - 1075

/-- both are the same number: the two zeros are, a NaN is not even itself -/
def sameNumber (x y : Binary64) : Bool :=
  !x.isNaN && !y.isNaN && (x.bits == y.bits || (x.isZero && y.isZero))

def infinity : Binary64 := ⟨0x7ff0000000000000⟩

/-- the quiet NaN with no payload -/
def nan : Binary64 := ⟨0x7ff8000000000000⟩

def zero : Binary64 := ⟨0⟩

def neg (x : Binary64) : Binary64 :=
  ⟨x.bits ^^^ 0x8000000000000000⟩

/-- put a significand below `2 ^ 53` and its exponent together; too large an exponent overflows
to infinity -/
def ofParts (significand : Nat) (exponent : Int) : Binary64 :=
  if significand < Nat.pow 2 52 then ⟨UInt64.ofNat significand⟩
  else if 971 < exponent then infinity
  else ⟨UInt64.ofNat ((exponent + 1075).toNat * Nat.pow 2 52 + (significand - Nat.pow 2 52))⟩

end Binary64
end ServiceGraph
