/-!
# Text with positions

A document is read as a list of characters that know where they stand. The ends of lines are
settled on the way: CR, LF, CR LF and NEL all become a line feed, while the line and paragraph
separators stay what they are.

* `Cell`: a character with its index, line and column;
* `cells?`: the cells of a text, unless it holds a character that no document may hold;
* `isBreak`, `isBlank`, `isWordChar`: classes of characters;
* `atGap`, `atOneOf`: what may come next.
-/

namespace ServiceGraph.Yaml

structure Cell where
  char : Char
  index : Nat
  line : Nat
  column : Nat
deriving DecidableEq, Repr

def isBreak (c : Char) : Bool :=
  c == '\n' || c == '\u2028' || c == '\u2029'

def isBlank (c : Char) : Bool :=
  c == ' ' || c == '\t'

/-- a character of names: an ASCII letter or digit, a dash or an underscore -/
def isWordChar (c : Char) : Bool :=
  c.isAlphanum || c == '-' || c == '_'

def isAllowed (c : Char) : Bool :=
  let n := c.toNat
  n == 0x09 || n == 0x0a || n == 0x0d || (0x20 ≤ n && n ≤ 0x7e) || n == 0x85 ||
    (0xa0 ≤ n && n ≤ 0xd7ff) || (0xe000 ≤ n && n ≤ 0xfffd) || 0x10000 ≤ n

/-- place characters from a position on; CR LF counts as two characters and one end of a line -/
def place (index line column : Nat) : List Char → List Cell
  | [] => []
  | '\r' :: '\n' :: rest => ⟨'\n', index, line, column⟩ :: place (index + 2) (line + 1) 0 rest
  | c :: rest =>
    let c := if c = '\r' ∨ c = '\u0085' then '\n' else c
    ⟨c, index, line, column⟩ ::
      if isBreak c then place (index + 1) (line + 1) 0 rest
      else place (index + 1) line (column + 1) rest

def cells? (text : String) : Option (List Cell) :=
  let chars := text.toList
  if chars.all isAllowed then some (place 0 0 0 chars) else none

def atGap : List Cell → Bool
  | [] => true
  | c :: _ => isBlank c.char || isBreak c.char

def next? : List Cell → Option Char
  | [] => none
  | c :: _ => some c.char

def atOneOf (chars : List Char) (cs : List Cell) : Bool :=
  match next? cs with
  | some c => chars.contains c
  | none => false

def textOf (cs : List Cell) : String := String.ofList (cs.map Cell.char)

def dropBlanks (cs : List Cell) : List Cell := cs.dropWhile (isBlank ·.char)

def dropLine (cs : List Cell) : List Cell := cs.dropWhile (!isBreak ·.char)

/-- after blanks and a comment, at the end of the line; nothing when something else stands there -/
def lineEnd? (cs : List Cell) : Option (List Cell) :=
  match dropBlanks cs with
  | [] => some []
  | c :: rest =>
    if isBreak c.char then some rest
    else if c.char = '#' then some ((dropLine rest).drop 1)
    else none

/-- three dashes or three dots at the start of a line, followed by a gap -/
def atDocumentMark (mark : Char) : List Cell → Bool
  | a :: b :: c :: rest =>
    a.column == 0 && a.char == mark && b.char == mark && c.char == mark && atGap rest
  | _ => false

def atDocumentEdge (cs : List Cell) : Bool :=
  atDocumentMark '-' cs || atDocumentMark '.' cs

end ServiceGraph.Yaml
