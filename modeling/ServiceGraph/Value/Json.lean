import ServiceGraph.Value.Text

/-!
# Values as indented JSON

* `Text.jsonQuoted`: a string of a JSON text;
* `Value.json`: a value over several lines. The keys of a map are sorted, and what JSON has no word
  for is null.
-/

namespace ServiceGraph

namespace Text

def jsonEscape (c : Char) : List Char :=
  match c with
  | '"' => ['\\', '"']
  | '\\' => ['\\', '\\']
  | '\x08' => ['\\', 'b']
  | '\x0c' => ['\\', 'f']
  | '\n' => ['\\', 'n']
  | '\r' => ['\\', 'r']
  | '\t' => ['\\', 't']
  | c =>
    if c.toNat < 0x20 then
      ['\\', 'u', '0', '0', Nat.digitChar (c.toNat / 16), Nat.digitChar (c.toNat % 16)]
    else [c]

def jsonQuoted (s : String) : String :=
  String.ofList ('"' :: s.toList.flatMap jsonEscape ++ ['"'])

/-- items on lines of their own between brackets, further in than a margin -/
def jsonBlock (opening closing margin : String) (items : List String) : String :=
  if items = [] then opening ++ closing
  else
    let inner := "\n" ++ margin ++ "  "
    opening ++ inner ++ joined ("," ++ inner) items ++ "\n" ++ margin ++ closing

end Text

namespace Value

mutual

/-- a value over several lines, each further in than a margin -/
def json (margin : String) : Value → String
  | null => "null"
  | bool b => truthText b
  | int n => toString n.toInt
  | float x => if x.isNaN || x.isInfinite then "null" else x.render .document
  | str s => Text.jsonQuoted s
  | list items => Text.jsonBlock "[" "]" margin (jsonItems (margin ++ "  ") items)
  | map entries =>
    let sorted := (jsonEntries (margin ++ "  ") entries).mergeSort fun a b => a.1 ≤ b.1
    Text.jsonBlock "\x7b" "\x7d" margin
      (sorted.map fun e => Text.jsonQuoted e.1 ++ ": " ++ e.2)
  | service _ => "null"

def jsonItems (margin : String) : List Value → List String
  | [] => []
  | v :: vs => json margin v :: jsonItems margin vs

def jsonEntries (margin : String) : List (String × Value) → List (String × String)
  | [] => []
  | (k, v) :: vs => (k, json margin v) :: jsonEntries margin vs

end

end Value
end ServiceGraph
