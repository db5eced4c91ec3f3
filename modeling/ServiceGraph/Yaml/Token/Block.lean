import ServiceGraph.Yaml.Token.Basic

/-!
# Block scalars

A block scalar is written on indented lines of its own. `|` keeps the ends of lines, `>` folds
them. A sign says what becomes of the last ones, a digit says how deep the lines are indented.

* `Block.Header`: sign and digit;
* `Block.breaks?`: empty lines and indentation before a line;
* `Block.read?`: a block scalar after its mark.
-/

namespace ServiceGraph.Yaml.Block

/-- what becomes of the ends of lines after the last line -/
inductive Chomping where
  | strip
  | clip
  | keep
deriving DecidableEq, Repr

structure Header where
  chomping : Chomping
  /-- the given indentation, zero if it has to be found -/
  indent : Nat

def sign? : List Cell → Option (Chomping × List Cell)
  | [] => none
  | c :: rest =>
    if c.char = '+' then some (.keep, rest)
    else if c.char = '-' then some (.strip, rest)
    else none

def digit? : List Cell → Option (Nat × List Cell)
  | [] => none
  | c :: rest => if c.char.isDigit then some (c.char.toNat - '0'.toNat, rest) else none

/-- read sign and digit in either order; the digit is not zero -/
def header? (cs : List Cell) : Option (Header × List Cell) :=
  let (sign, cs) := match sign? cs with
    | some (s, rest) => (some s, rest)
    | none => (none, cs)
  let (digit, cs) := match digit? cs with
    | some (d, rest) => (some d, rest)
    | none => (none, cs)
  let (sign, cs) := match sign, digit, sign? cs with
    | none, some _, some (s, rest) => (some s, rest)
    | sign, _, _ => (sign, cs)
  if digit = some 0 then none else some (⟨sign.getD .clip, digit.getD 0⟩, cs)

structure Breaks where
  breaks : List Char
  /-- the deepest column reached by spaces -/
  deepest : Nat
  rest : List Cell

/-- pass indentation and empty lines. While the indentation is not known (zero) all spaces are
passed; a tab in the indentation is an error. -/
def breaks? (indent deepest : Nat) : List Cell → Option Breaks
  | [] => some ⟨[], deepest, []⟩
  | c :: rest =>
    let inside : Bool := indent == 0 || c.column < indent
    if c.char == ' ' && inside then breaks? indent (max deepest (c.column + 1)) rest
    else if c.char == '\t' && inside then none
    else if isBreak c.char then
      (breaks? indent deepest rest).map fun b => { b with breaks := c.char :: b.breaks }
    else some ⟨[], deepest, c :: rest⟩

/-- the text so far, and what is held back until the next line is known -/
structure Lines where
  /-- last character first -/
  text : List Char
  /-- the end of the last line -/
  lineBreak : List Char
  /-- the empty lines after it -/
  empty : List Char
  /-- the last line began with a blank -/
  indented : Bool

/-- the text with the held back ends of lines, as they stand before a line -/
def Lines.joined (l : Lines) (folds startsBlank : Bool) : List Char :=
  let folded := folds && l.lineBreak == ['\n'] && !l.indented && !startsBlank
  let between :=
    if folded then (if l.empty = [] then [' '] else l.empty) else l.lineBreak ++ l.empty
  between.reverse ++ l.text

/-- read the lines that stand at the indentation. Every round takes a cell, so the number of cells
is room enough. -/
def lines? (folds : Bool) (indent : Nat) : (room : Nat) → Lines → List Cell →
    Option (Lines × List Cell)
  | 0, l, cs => some (l, cs)
  | room + 1, l, cs =>
    match cs with
    | [] => some (l, [])
    | c :: _ =>
      if c.column ≠ indent then some (l, cs)
      else do
        let line := cs.takeWhile (!isBreak ·.char)
        let after := dropLine cs
        let text := (line.map Cell.char).reverse ++ l.joined folds (isBlank c.char)
        let b ← breaks? indent 0 (after.drop 1)
        lines? folds indent room
          ⟨text, (after.take 1).map Cell.char, b.breaks, isBlank c.char⟩ b.rest

/-- the text with what the chomping leaves of the last ends of lines -/
def Lines.chomped (l : Lines) (c : Chomping) : String :=
  let tail := match c with
    | .strip => []
    | .clip => l.lineBreak
    | .keep => l.lineBreak ++ l.empty
  String.ofList (l.text.reverse ++ tail)

/-- read a block scalar after its mark; `indent` is the indentation of the block around it -/
def read? (folds : Bool) (indent : Int) (cs : List Cell) : Option (Token × List Cell) := do
  let (header, cs) ← header? cs
  let cs ← lineEnd? cs
  let given : Int := if header.indent = 0 then 0 else max 0 indent + header.indent
  let b ← breaks? given.toNat 0 cs
  let depth : Int := if given = 0 then max (max b.deepest (indent + 1)) 1 else given
  let (l, rest) ← lines? folds depth.toNat (b.rest.length + 1) ⟨[], [], b.breaks, false⟩ b.rest
  return (.scalar (l.chomped header.chomping) (if folds then .folded else .literal), rest)

end ServiceGraph.Yaml.Block
