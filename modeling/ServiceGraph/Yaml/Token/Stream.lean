import ServiceGraph.Yaml.Token.Block
import ServiceGraph.Yaml.Token.Plain
import ServiceGraph.Yaml.Token.Tag

/-!
# The tokens of a text

Outside of brackets indentation gives the structure: an entry or a key that stands further in opens
a block, and one that stands further out closes the blocks it leaves. A key is known as such only at
its colon, so the place of what may be a key is kept and the token of the key put there later.

* `KeyPlace`: where a key may begin;
* `Scanner`: the tokens so far, the open blocks, and the places of keys;
* `Scanner.step?`: the next token;
* `Token.ofText?`: all tokens.
-/

namespace ServiceGraph.Yaml

structure KeyPlace where
  /-- the number of tokens before it -/
  position : Nat
  /-- it must be a key, because a block mapping goes on here -/
  required : Bool
  start : Cell

structure Scanner where
  tokens : Array Token
  /-- the column of the innermost block, or `-1` -/
  indent : Int
  /-- the columns of the blocks around it -/
  outer : List Int
  /-- the place of a key outside of brackets -/
  place : Option KeyPlace
  /-- the places of keys inside each pair of brackets, innermost first -/
  brackets : List (Option KeyPlace)
  keyAllowed : Bool

namespace Scanner

def start : Scanner := ⟨#[], -1, [], none, [], true⟩

def inFlow (s : Scanner) : Bool := !s.brackets.isEmpty

def emit (s : Scanner) (t : Token) : Scanner := { s with tokens := s.tokens.push t }

def current (s : Scanner) : Option KeyPlace :=
  match s.brackets with
  | p :: _ => p
  | [] => s.place

def setCurrent (s : Scanner) (p : Option KeyPlace) : Scanner :=
  match s.brackets with
  | _ :: rest => { s with brackets := p :: rest }
  | [] => { s with place := p }

/-- the place holds a key that had to be one -/
def isRequired (p : Option KeyPlace) : Bool := p.any (·.required)

/-- give up the place of a key at this level; a required key must not be given up -/
def dropKey? (s : Scanner) : Option Scanner :=
  if isRequired s.current then none else some (s.setCurrent none)

/-- keep the place of what may be a key -/
def keepKey? (s : Scanner) (c : Cell) : Option Scanner :=
  if s.keyAllowed then do
    let s ← s.dropKey?
    let required := !s.inFlow && s.indent == (c.column : Int)
    return s.setCurrent (some ⟨s.tokens.size, required, c⟩)
  else some s

/-- a key stands on one line and is no longer than 1024 characters -/
def isStale (now : Cell) (p : KeyPlace) : Bool :=
  p.start.line < now.line || p.start.index + 1024 < now.index

def fresh? (now : Cell) (p : Option KeyPlace) : Option (Option KeyPlace) :=
  if p.any (isStale now) then (if isRequired p then none else some none) else some p

def dropStale? (s : Scanner) (now : Cell) : Option Scanner := do
  return { s with place := ← fresh? now s.place, brackets := ← s.brackets.mapM (fresh? now) }

/-- open a block at a column, unless it is open; its token goes to a position -/
def openBlock (s : Scanner) (column position : Nat) (t : Token) : Scanner :=
  if !s.inFlow && s.indent < column then
    { s with
      indent := column
      outer := s.indent :: s.outer
      tokens := s.tokens.insertIdxIfInBounds position t }
  else s

/-- close blocks that stand further in than a column -/
def closeFrom (column : Int) (tokens : Array Token) : Int → List Int → Array Token × Int × List Int
  | indent, outer =>
    match outer with
    | [] => (tokens, indent, [])
    | next :: rest =>
      if column < indent then closeFrom column (tokens.push .blockEnd) next rest
      else (tokens, indent, outer)

def closeBlocks (s : Scanner) (column : Int) : Scanner :=
  if s.inFlow then s
  else
    let (tokens, indent, outer) := closeFrom column s.tokens s.indent s.outer
    { s with tokens, indent, outer }

/-- pass blanks, comments and ends of lines; after the end of a line a key may begin. Tabs are no
indentation: they are passed only inside brackets and where no key may begin. -/
def pass (flow comment keyAllowed : Bool) : List Cell → Bool × List Cell
  | [] => (keyAllowed, [])
  | c :: rest =>
    if isBreak c.char then pass flow false (keyAllowed || !flow) rest
    else if comment then pass flow true keyAllowed rest
    else if c.char = '#' then pass flow true keyAllowed rest
    else if c.char = ' ' || (c.char = '\t' && (flow || !keyAllowed)) ||
        (c.char = '\ufeff' && c.column == 0) then
      pass flow false keyAllowed rest
    else (keyAllowed, c :: rest)

/-- a token that ends what may be a key, and whether a key may follow it -/
def mark? (s : Scanner) (t : Token) (keyAllowed : Bool) : Option Scanner := do
  let s ← s.dropKey?
  return { s.emit t with keyAllowed }

/-- a token at the margin, which closes all blocks -/
def margin? (s : Scanner) (t : Token) : Option Scanner :=
  mark? (s.closeBlocks (-1)) t false

def openBracket? (s : Scanner) (c : Cell) (t : Token) : Option Scanner := do
  let s ← s.keepKey? c
  return { s.emit t with brackets := none :: s.brackets, keyAllowed := true }

def closeBracket? (s : Scanner) (t : Token) : Option Scanner := do
  let s ← s.dropKey?
  return { s.emit t with brackets := s.brackets.drop 1, keyAllowed := false }

/-- an entry or key that opens a block where it stands; outside of brackets it must stand where a
key may begin -/
def indicator? (s : Scanner) (c : Cell) (block t : Token) (keyAllowed : Bool) :
    Option Scanner :=
  if s.inFlow then mark? s t keyAllowed
  else if s.keyAllowed then
    mark? (s.openBlock c.column s.tokens.size block) t keyAllowed
  else none

/-- the colon after a key: the key's token goes before the key. Without a key in front the colon
stands for itself. -/
def colon? (s : Scanner) (c : Cell) : Option Scanner :=
  match s.current with
  | some p =>
    let s := { s with tokens := s.tokens.insertIdxIfInBounds p.position .key }
    let s := (s.openBlock p.start.column p.position .blockMap).setCurrent none
    some { s.emit .value with keyAllowed := false }
  | none =>
    if s.inFlow then some { s.emit .value with keyAllowed := false }
    else if s.keyAllowed then
      let s := s.openBlock c.column s.tokens.size .blockMap
      some { s.emit .value with keyAllowed := true }
    else none

/-- a scalar or property that may begin a key -/
def word? (s : Scanner) (c : Cell) (read : Option (Token × List Cell)) :
    Option (Scanner × List Cell) := do
  let s ← s.keepKey? c
  let (t, rest) ← read
  return ({ s.emit t with keyAllowed := false }, rest)

/-- a block scalar, which is no key and after which one may begin -/
def block? (s : Scanner) (folds : Bool) (rest : List Cell) : Option (Scanner × List Cell) := do
  let s ← s.dropKey?
  let (t, rest) ← Block.read? folds s.indent rest
  return ({ s.emit t with keyAllowed := true }, rest)

/-- a plain scalar; when it ended at the start of a line, a key may begin there -/
def plain? (s : Scanner) (c : Cell) (cs : List Cell) : Option (Scanner × List Cell) := do
  let s ← s.keepKey? c
  let r ← Plain.read? s.inFlow (s.indent + 1) cs
  return ({ s.emit (.scalar (String.ofList r.text) .plain) with keyAllowed := r.onNewLine },
    r.rest)

def step? (s : Scanner) (c : Cell) (rest : List Cell) : Option (Scanner × List Cell) :=
  let flow := s.inFlow
  let go (s : Option Scanner) (rest : List Cell) : Option (Scanner × List Cell) :=
    s.map fun s => (s, rest)
  if c.column = 0 ∧ c.char = '%' then do
    let (t, rest) ← Tag.directive? rest
    go (s.margin? t) rest
  else if atDocumentMark '-' (c :: rest) then go (s.margin? .documentStart) (rest.drop 2)
  else if atDocumentMark '.' (c :: rest) then go (s.margin? .documentEnd) (rest.drop 2)
  else if c.char = '[' then go (s.openBracket? c .flowList) rest
  else if c.char = '\x7b' then go (s.openBracket? c .flowMap) rest
  else if c.char = ']' then go (s.closeBracket? .flowListEnd) rest
  else if c.char = '\x7d' then go (s.closeBracket? .flowMapEnd) rest
  else if c.char = ',' then go (s.mark? .flowEntry true) rest
  else if c.char = '-' ∧ atGap rest then go (s.indicator? c .blockList .blockEntry true) rest
  else if c.char = '?' ∧ (flow ∨ atGap rest) then
    go (s.indicator? c .blockMap .key (!flow)) rest
  else if c.char = ':' ∧ (flow ∨ atGap rest) then go (s.colon? c) rest
  else if c.char = '*' then
    s.word? c ((Tag.name? rest).map fun p => (.reference p.1, p.2))
  else if c.char = '&' then
    s.word? c ((Tag.name? rest).map fun p => (.anchor p.1, p.2))
  else if c.char = '!' then s.word? c (Tag.read? flow (c :: rest))
  else if c.char = '|' ∧ !flow then s.block? false rest
  else if c.char = '>' ∧ !flow then s.block? true rest
  else if c.char = '\'' then s.word? c (Quoted.read? true rest)
  else if c.char = '"' then s.word? c (Quoted.read? false rest)
  else if Plain.starts flow (c :: rest) then s.plain? c (c :: rest)
  else none

/-- all tokens. Every round but the last takes a cell, so the number of cells is room enough. -/
def scan? : (room : Nat) → Scanner → List Cell → Option (List Token)
  | 0, _, _ => none
  | room + 1, s, cs =>
    let (keyAllowed, cs) := pass s.inFlow false s.keyAllowed cs
    let s := { s with keyAllowed }
    match cs with
    | [] => (s.closeBlocks (-1)).dropKey?.map fun s => s.tokens.toList
    | c :: rest => do
      let s ← s.dropStale? c
      let (s, rest) ← (s.closeBlocks c.column).step? c rest
      scan? room s rest

end Scanner

def Token.ofText? (text : String) : Option (List Token) := do
  let cells ← cells? text
  Scanner.scan? (cells.length + 1) .start cells

end ServiceGraph.Yaml
