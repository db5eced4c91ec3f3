import ServiceGraph.Yaml.Token.Quoted

/-!
# Names, tags and directives

* `Tag.uri?`: the characters of a tag, escaped octets decoded;
* `Tag.read?`: a tag after its exclamation mark;
* `Tag.name?`: the name of an anchor or an alias;
* `Tag.directive?`: a directive after its percent sign.
-/

namespace ServiceGraph.Yaml.Tag

def marks : List Char :=
  [';', '/', '?', ':', '@', '&', '=', '+', '$', '.', '%', '!', '~', '*', '\'', '(', ')']

/-- a character of a tag; between angle brackets a few more are allowed -/
def isUriChar (verbatim : Bool) (c : Char) : Bool :=
  isWordChar c || marks.contains c || (verbatim && [',', '[', ']'].contains c)

def octet? : List Cell → Option (Nat × List Cell)
  | p :: a :: b :: rest =>
    if p.char = '%' then do
      let n := (← Quoted.hexDigit? a.char) * 16 + (← Quoted.hexDigit? b.char)
      return (n, rest)
    else none
  | _ => none

/-- the number of octets of a character that begins with an octet -/
def width? (octet : Nat) : Option Nat :=
  if octet < 0x80 then some 1
  else if octet < 0xc0 then none
  else if octet < 0xe0 then some 2
  else if octet < 0xf0 then some 3
  else if octet < 0xf8 then some 4
  else none

/-- the further octets of a character, continuing the code point `n` -/
def further? (n : Nat) : (count : Nat) → List Cell → Option (Nat × List Cell)
  | 0, cs => some (n, cs)
  | count + 1, cs => do
    let (octet, cs) ← octet? cs
    if octet / 64 = 2 then further? (n * 64 + octet % 64) count cs else none

/-- a character written in escaped octets; octets that are no character give the replacement
character -/
def escaped? (cs : List Cell) : Option (Char × List Cell) := do
  let (octet, cs) ← octet? cs
  let width ← width? octet
  let head := if width = 1 then octet else octet % Nat.pow 2 (7 - width)
  let (n, cs) ← further? head (width - 1) cs
  return ((Quoted.charAt? n).getD '\ufffd', cs)

/-- read the characters of a tag. Every round takes a cell, so the number of cells is room
enough. -/
def uri? (verbatim : Bool) : (room : Nat) → List Cell → Option (List Char × List Cell)
  | 0, cs => some ([], cs)
  | room + 1, cs =>
    match cs with
    | [] => some ([], [])
    | c :: rest =>
      if c.char = '%' then do
        let (e, rest) ← escaped? cs
        let (uri, rest) ← uri? verbatim room rest
        return (e :: uri, rest)
      else if isUriChar verbatim c.char then do
        let (uri, rest) ← uri? verbatim room rest
        return (c.char :: uri, rest)
      else some ([], cs)

/-- a handle: an exclamation mark, a name, and perhaps a second exclamation mark -/
def handle? : List Cell → Option (List Char × List Cell)
  | [] => none
  | c :: rest =>
    if c.char = '!' then
      let name := (rest.takeWhile (isWordChar ·.char)).map Cell.char
      let rest := rest.dropWhile (isWordChar ·.char)
      if next? rest = some '!' then some ('!' :: name ++ ['!'], rest.drop 1)
      else some ('!' :: name, rest)
    else none

def closed (handle : List Char) : Bool :=
  1 < handle.length && handle.getLast? == some '!'

/-- a tag of one of the forms `!<uri>`, `!handle!suffix` and `!suffix`; a lone exclamation mark is
a suffix without handle -/
def parts? (cs : List Cell) : Option (String × String × List Cell) := do
  if next? (cs.drop 1) = some '<' then
    let (uri, rest) ← uri? true cs.length (cs.drop 2)
    if uri ≠ [] ∧ next? rest = some '>' then return ("", String.ofList uri, rest.drop 1)
    else none
  else
    let (handle, rest) ← handle? cs
    let (uri, rest) ← uri? false cs.length rest
    if closed handle then
      if uri = [] then none else return (String.ofList handle, String.ofList uri, rest)
    else
      let suffix := handle.drop 1 ++ uri
      if suffix = [] then return ("", "!", rest) else return ("!", String.ofList suffix, rest)

/-- read a tag; a gap follows it, or a comma inside brackets -/
def read? (flow : Bool) (cs : List Cell) : Option (Token × List Cell) := do
  let (handle, suffix, rest) ← parts? cs
  if atGap rest || (flow && next? rest == some ',') then return (.tag handle suffix, rest)
  else none

/-- read the name of an anchor or an alias; a gap or an indicator follows it -/
def name? (cs : List Cell) : Option (String × List Cell) :=
  let name := cs.takeWhile (isWordChar ·.char)
  let rest := cs.dropWhile (isWordChar ·.char)
  if name ≠ [] ∧ (atGap rest ∨ atOneOf ['?', ':', ',', ']', '\x7d', '%', '@', '\x60'] rest) then
    some (textOf name, rest)
  else none

/-! ## directives -/

def number? (cs : List Cell) : Option (Nat × List Cell) :=
  let digits := cs.takeWhile (·.char.isDigit)
  if digits = [] ∨ 9 < digits.length then none
  else
    some (digits.foldl (fun n c => n * 10 + (c.char.toNat - '0'.toNat)) 0,
      cs.dropWhile (·.char.isDigit))

def version? (cs : List Cell) : Option (Token × List Cell) := do
  let (major, cs) ← number? (dropBlanks cs)
  if next? cs = some '.' then
    let (minor, cs) ← number? (cs.drop 1)
    return (.version major minor, cs)
  else none

def definition? (cs : List Cell) : Option (Token × List Cell) := do
  let (handle, cs) ← handle? (dropBlanks cs)
  if (handle = ['!'] ∨ closed handle) ∧ (next? cs).any isBlank then
    let (uri, cs) ← uri? true cs.length (dropBlanks cs)
    if uri ≠ [] ∧ atGap cs then
      return (.tagDirective (String.ofList handle) (String.ofList uri), cs)
    else none
  else none

/-- read a directive after its percent sign, with the end of its line -/
def directive? (cs : List Cell) : Option (Token × List Cell) := do
  let name := textOf (cs.takeWhile (isWordChar ·.char))
  let rest := cs.dropWhile (isWordChar ·.char)
  if !atGap rest then none
  else
    let (token, rest) ←
      if name = "YAML" then version? rest
      else if name = "TAG" then definition? rest
      else none
    return (token, ← lineEnd? rest)

end ServiceGraph.Yaml.Tag
