import ServiceGraph.Yaml.Token.Basic

/-!
# Quoted scalars

Between single quotes only a doubled quote stands for something else. Between double quotes a
backslash begins an escape. An end of a line becomes a space.

* `Quoted.escape?`: the character of an escape;
* `Quoted.read?`: the text up to the closing quote.
-/

namespace ServiceGraph.Yaml.Quoted

def hexDigit? (c : Char) : Option Nat :=
  if c.isDigit then some (c.toNat - '0'.toNat)
  else if 'a' ≤ c ∧ c ≤ 'f' then some (c.toNat - 'a'.toNat + 10)
  else if 'A' ≤ c ∧ c ≤ 'F' then some (c.toNat - 'A'.toNat + 10)
  else none

/-- the number that hexadecimal digits write, continuing `n` -/
def hexValue? (n : Nat) : List Cell → Option Nat
  | [] => some n
  | c :: rest => do hexValue? (n * 16 + (← hexDigit? c.char)) rest

def charAt? (n : Nat) : Option Char :=
  if h : n.isValidChar then some (Char.ofNatAux n h) else none

def short? (c : Char) : Option Char :=
  match c with
  | '0' => some '\x00'
  | 'a' => some '\x07'
  | 'b' => some '\x08'
  | 't' => some '\t'
  | '\t' => some '\t'
  | 'n' => some '\n'
  | 'v' => some '\x0b'
  | 'f' => some '\x0c'
  | 'r' => some '\r'
  | 'e' => some '\x1b'
  | ' ' => some ' '
  | '"' => some '"'
  | '/' => some '/'
  | '\\' => some '\\'
  | 'N' => some '\u0085'
  | '_' => some '\u00a0'
  | 'L' => some '\u2028'
  | 'P' => some '\u2029'
  | _ => none

/-- the number of digits of a numeric escape -/
def digits? (c : Char) : Option Nat :=
  match c with
  | 'x' => some 2
  | 'u' => some 4
  | 'U' => some 8
  | _ => none

/-- the character of an escape after its backslash, and how many cells the escape takes -/
def escape? : List Cell → Option (Char × Nat)
  | [] => none
  | c :: rest =>
    match short? c.char with
    | some e => some (e, 1)
    | none => do
      let count ← digits? c.char
      let digits := rest.take count
      if digits.length < count then none
      else return (← charAt? (← hexValue? 0 digits), count + 1)

/-- what a run of characters within the quotes leaves: its text, whether an escaped end of a line
ended it, and the cells after it -/
structure Run where
  text : List Char
  escapedBreak : Bool
  rest : List Cell

def Run.cons (c : Char) (r : Run) : Run := { r with text := c :: r.text }

/-- read up to a gap or the closing quote. `skip` cells belong to an escape already read. -/
def run? (single : Bool) (skip : Nat) : List Cell → Option Run
  | [] => some ⟨[], false, []⟩
  | c :: rest =>
    match skip with
    | skip + 1 => run? single skip rest
    | 0 =>
      if isBlank c.char || isBreak c.char then some ⟨[], false, c :: rest⟩
      else if single then
        if c.char = '\'' then
          if next? rest = some '\'' then (run? single 1 rest).map (Run.cons '\'')
          else some ⟨[], false, c :: rest⟩
        else (run? single 0 rest).map (Run.cons c.char)
      else if c.char = '"' then some ⟨[], false, c :: rest⟩
      else if c.char = '\\' then
        if (next? rest).any isBreak then some ⟨[], true, rest.drop 1⟩
        else match escape? rest with
          | some (e, used) => (run? single used rest).map (Run.cons e)
          | none => none
      else (run? single 0 rest).map (Run.cons c.char)

/-- read words and gaps up to the closing quote. Every round but the last takes a cell, so the
number of cells is room enough. -/
def words? (single : Bool) : (room : Nat) → List Cell → Option (List Char × List Cell)
  | 0, _ => none
  | room + 1, cs =>
    if atDocumentEdge cs then none
    else do
      let run ← run? single 0 cs
      match run.rest with
      | [] => none
      | c :: rest =>
        if c.char = (if single then '\'' else '"') then return (run.text, rest)
        else
          let (gap, rest) := Gap.read run.escapedBreak (c :: rest)
          let (text, rest) ← words? single room rest
          return (run.text ++ gap.text ++ text, rest)

/-- read a quoted scalar after its opening quote -/
def read? (single : Bool) (cs : List Cell) : Option (Token × List Cell) := do
  let (text, rest) ← words? single (cs.length + 1) cs
  return (.scalar (String.ofList text) .quoted, rest)

end ServiceGraph.Yaml.Quoted
