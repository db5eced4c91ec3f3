import ServiceGraph.Value.Basic
import ServiceGraph.Decimal.Numeral
import ServiceGraph.Text.Quoted

/-!
# The text of a value

* `Value.interpolated?`: a scalar as part of a longer string; lists, maps and objects have no such
  text;
* `Value.inspect`: every value for a developer, with the shape of each scalar named.
-/

namespace ServiceGraph

def truthText (b : Bool) : String :=
  if b then "true" else "false"

def joined (separator : String) (parts : List String) : String :=
  separator.intercalate parts

namespace Value

/-- the text of a scalar inside a longer string; null leaves nothing -/
def interpolated? : Value → Option String
  | null => some ""
  | bool b => some (truthText b)
  | int n => some (toString n.toInt)
  | float x => some (x.render .plain)
  | str s => some s
  | list _ | map _ | service _ => none

mutual

/-- the text of a value for a developer; `typeName` names the live objects -/
def inspect (typeName : ObjectId → String) : Value → String
  | null => "Null"
  | bool b => "Bool(" ++ truthText b ++ ")"
  | int n => "Int(" ++ toString n.toInt ++ ")"
  | float x => "Float(" ++ x.render .literal ++ ")"
  | str s => "Str(" ++ Text.quoted s ++ ")"
  | list items => "[" ++ joined ", " (inspectItems typeName items) ++ "]"
  | map entries => "\x7b" ++ joined ", " (inspectEntries typeName entries) ++ "\x7d"
  | service id => "Service(" ++ typeName id ++ ")"

def inspectItems (typeName : ObjectId → String) : List Value → List String
  | [] => []
  | v :: vs => inspect typeName v :: inspectItems typeName vs

def inspectEntries (typeName : ObjectId → String) : List (String × Value) → List String
  | [] => []
  | (k, v) :: vs =>
    (Text.quoted k ++ ": " ++ inspect typeName v) :: inspectEntries typeName vs

end

end Value
end ServiceGraph
