import ServiceGraph.Value.Basic
import ServiceGraph.Decimal.Nearest

/-!
# What a plain word means

A word without quotes may be null, a truth value or a number, and is itself otherwise.

* `Plain.isNull`, `Plain.truth?`: the words of null and of the truth values;
* `Plain.whole?`: whole numbers, decimal or after `0x`, `0o` and `0b`;
* `Plain.float?`: numbers with a point or an exponent, infinities and NaN;
* `Plain.value?`: the value of a word. A whole number beyond 64 bits has none while it fits into 128
  bits.
-/

namespace ServiceGraph.Yaml.Plain

def isNull (word : String) : Bool :=
  ["null", "Null", "NULL", "~"].contains word

def isAbsent (word : String) : Bool := word == "" || isNull word

def truth? (word : String) : Option Bool :=
  if ["true", "True", "TRUE"].contains word then some true
  else if ["false", "False", "FALSE"].contains word then some false
  else none

/-! ## whole numbers -/

def digit? (base : Nat) (c : Char) : Option Nat :=
  let n :=
    if c.isDigit then c.toNat - '0'.toNat
    else if 'a' ≤ c ∧ c ≤ 'z' then c.toNat - 'a'.toNat + 10
    else if 'A' ≤ c ∧ c ≤ 'Z' then c.toNat - 'A'.toNat + 10
    else base
  if n < base then some n else none

/-- the number that digits write, continuing `n` -/
def digits? (base n : Nat) : List Char → Option Nat
  | [] => some n
  | c :: rest => do digits? base (n * base + (← digit? base c)) rest

/-- the number that at least one digit writes -/
def natural? (base : Nat) (cs : List Char) : Option Nat :=
  if cs = [] then none else digits? base 0 cs

/-- the number after a mark of its base -/
def marked? : List Char → Option Nat
  | '0' :: 'x' :: rest => natural? 16 rest
  | '0' :: 'o' :: rest => natural? 8 rest
  | '0' :: 'b' :: rest => natural? 2 rest
  | _ => none

def unsigned : List Char → List Char
  | '+' :: rest => rest
  | '-' :: rest => rest
  | cs => cs

/-- digits that begin with a zero write no number -/
def zeroLed (cs : List Char) : Bool :=
  let cs := unsigned cs
  1 < cs.length && cs.head? == some '0' && cs.all Char.isDigit

/-- a number after its sign -/
def magnitude? (cs : List Char) : Option Nat :=
  (marked? cs).or (if zeroLed cs then none else natural? 10 cs)

/-- a whole number: is it negative, and its magnitude -/
def whole? (cs : List Char) : Option (Bool × Nat) :=
  match cs with
  | '-' :: rest => (magnitude? rest).map (true, ·)
  | '+' :: rest => (magnitude? rest).map (false, ·)
  | cs => (magnitude? cs).map (false, ·)

/-! ## floating point numbers -/

def finite? (cs : List Char) : Option Binary64 :=
  ((Decimal.ofChars? cs).map Decimal.toBinary).filter fun x => !x.isInfinite

def float? (word : String) : Option Binary64 :=
  if [".inf", ".Inf", ".INF", "+.inf", "+.Inf", "+.INF"].contains word then
    some Binary64.infinity
  else if ["-.inf", "-.Inf", "-.INF"].contains word then some Binary64.infinity.neg
  else if [".nan", ".NaN", ".NAN"].contains word then some Binary64.nan
  else match word.toList with
    | '+' :: rest => finite? rest
    | '-' :: rest => (finite? rest).map Binary64.neg
    | cs => finite? cs

/-! ## words -/

/-- the value of a whole number: an integer of 64 bits, beyond it a floating point number while it
fits into 64 bits without sign, and nothing while it fits into 128 bits -/
inductive Whole where
  | value (v : Value)
  | tooLarge
  | notWhole

def ofWhole (negative : Bool) (n : Nat) : Whole :=
  if negative then
    if n ≤ Nat.pow 2 63 then .value (.int (Int64.ofInt (-(n : Int))))
    else if n ≤ Nat.pow 2 127 then .tooLarge
    else .notWhole
  else if n < Nat.pow 2 63 then .value (.int (Int64.ofNat n))
  else if n < Nat.pow 2 64 then .value (.float (Decimal.toBinary ⟨n, 0⟩))
  else if n < Nat.pow 2 128 then .tooLarge
  else .notWhole

def readWhole (word : String) : Whole :=
  match whole? word.toList with
  | some (negative, n) => ofWhole negative n
  | none => .notWhole

def value? (word : String) : Option Value :=
  if isAbsent word then some .null
  else match truth? word with
    | some b => some (.bool b)
    | none =>
      match readWhole word with
      | .value v => some v
      | .tooLarge => none
      | .notWhole =>
        if zeroLed word.toList then some (.str word)
        else match float? word with
          | some x => some (.float x)
          | none => some (.str word)

def int? (word : String) : Option Int64 :=
  match readWhole word with
  | .value (.int n) => some n
  | _ => none

end ServiceGraph.Yaml.Plain
