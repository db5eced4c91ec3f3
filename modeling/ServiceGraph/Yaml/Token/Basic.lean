import ServiceGraph.Yaml.Cell

/-!
# Tokens of a document

* `Style`: how a scalar is written;
* `Token`: a mark, a property or a scalar;
* `Gap`: blanks and ends of lines between two words, and the text they leave.
-/

namespace ServiceGraph.Yaml

inductive Style where
  | plain
  | quoted
  | literal
  | folded
deriving DecidableEq, Repr

/-- a token; the block marks stand for indentation -/
inductive Token where
  | version (major minor : Nat)
  | tagDirective (handle expansion : String)
  | documentStart
  | documentEnd
  | blockList
  | blockMap
  | blockEnd
  | flowList
  | flowListEnd
  | flowMap
  | flowMapEnd
  | blockEntry
  | flowEntry
  | key
  | value
  | reference (name : String)
  | anchor (name : String)
  | tag (handle suffix : String)
  | scalar (text : String) (style : Style)
deriving DecidableEq, Repr

/-- what stands between two words: blanks on the same line, or ends of lines -/
structure Gap where
  /-- the blanks before the first end of a line -/
  blanks : List Char
  /-- the first end of a line, unless it is escaped -/
  first : Option Char
  more : List Char
  /-- an end of a line has been passed -/
  folded : Bool

namespace Gap

/-- the text that a gap leaves between words: its blanks on one line; otherwise a space for a
single line feed, and the further ends of lines -/
def text (g : Gap) : List Char :=
  if g.folded then
    match g.first with
    | some '\n' => if g.more = [] then [' '] else g.more
    | some c => c :: g.more
    | none => g.more
  else g.blanks

/-- read a gap; `folded` says that an escaped end of a line has been passed already -/
def read (folded : Bool) (cs : List Cell) : Gap × List Cell :=
  let passed := cs.takeWhile fun c => isBlank c.char || isBreak c.char
  let rest := cs.dropWhile fun c => isBlank c.char || isBreak c.char
  let breaks := (passed.filter (isBreak ·.char)).map Cell.char
  if folded then (⟨[], none, breaks, true⟩, rest)
  else (⟨(passed.takeWhile (isBlank ·.char)).map Cell.char, breaks.head?, breaks.drop 1,
    !breaks.isEmpty⟩, rest)

/-- a tab stands in the indentation of a continued line -/
def hasTab (indent : Int) (cs : List Cell) : Bool :=
  let passed := cs.takeWhile fun c => isBlank c.char || isBreak c.char
  (passed.dropWhile (isBlank ·.char)).any fun c => c.char == '\t' && (c.column : Int) < indent

end Gap
end ServiceGraph.Yaml
