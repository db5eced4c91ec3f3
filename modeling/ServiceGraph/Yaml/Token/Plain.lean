import ServiceGraph.Yaml.Token.Basic

/-!
# Plain scalars

A plain scalar has no quotes. It ends before a colon that a gap follows, before a comment, at a
line that is not indented enough and, inside brackets, at a comma or a bracket.

* `Plain.starts`: whether a plain scalar begins here;
* `Plain.read?`: its text.
-/

namespace ServiceGraph.Yaml.Plain

def indicators : List Char :=
  ['-', '?', ':', ',', '[', ']', '\x7b', '\x7d', '#', '&', '*', '!', '|', '>', '\'', '"', '%',
    '@', '\x60']

def closers : List Char := [',', '[', ']', '\x7b', '\x7d']

/-- a plain scalar begins here: with no indicator, with a dash that no blank follows or, outside
of brackets, with a question mark or a colon that no gap follows -/
def starts (flow : Bool) : List Cell → Bool
  | [] => false
  | c :: rest =>
    !(isBlank c.char || isBreak c.char || indicators.contains c.char) ||
    (c.char == '-' && !(next? rest).any isBlank) ||
    (!flow && (c.char == '?' || c.char == ':') && !atGap rest)

/-- read one word. Inside brackets a colon before a bracket or a comma is an error. -/
def word? (flow : Bool) : List Cell → Option (List Char × List Cell)
  | [] => some ([], [])
  | c :: rest =>
    if isBlank c.char || isBreak c.char then some ([], c :: rest)
    else if flow && c.char == ':' && atOneOf ('?' :: closers) rest then none
    else if (c.char == ':' && atGap rest) || (flow && closers.contains c.char) then
      some ([], c :: rest)
    else do
      let (word, rest) ← word? flow rest
      return (c.char :: word, rest)

/-- the next line, if there is one, is indented too little to belong to the scalar -/
def outdented (flow : Bool) (indent : Int) : List Cell → Bool
  | [] => false
  | c :: _ => !flow && (c.column : Int) < indent

structure Reading where
  text : List Char
  /-- the scalar ended at the start of a line -/
  onNewLine : Bool
  rest : List Cell

/-- read words, `gap` being what was passed since the last one. Every round but the last takes a
cell, so the number of cells is room enough. -/
def words? (flow : Bool) (indent : Int) : (room : Nat) → Gap → List Cell → Option Reading
  | 0, _, _ => none
  | room + 1, gap, cs =>
    let stop : Reading := ⟨[], gap.folded, cs⟩
    if atDocumentEdge cs || next? cs == some '#' then some stop
    else do
      let (word, rest) ← word? flow cs
      let before := if word = [] then [] else gap.text ++ word
      let gap := if word = [] then gap else ⟨[], none, [], false⟩
      match rest with
      | [] => return ⟨before, gap.folded, []⟩
      | c :: _ =>
        if isBlank c.char || isBreak c.char then
          if Gap.hasTab indent rest then none
          else
            let (gap, rest) := Gap.read false rest
            if outdented flow indent rest then return ⟨before, gap.folded, rest⟩
            else
              let reading ← words? flow indent room gap rest
              return { reading with text := before ++ reading.text }
        else return ⟨before, gap.folded, rest⟩

/-- read a plain scalar; continued lines are indented by at least `indent` -/
def read? (flow : Bool) (indent : Int) (cs : List Cell) : Option Reading :=
  words? flow indent (cs.length + 1) ⟨[], none, [], false⟩ cs

end ServiceGraph.Yaml.Plain
