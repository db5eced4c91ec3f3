import ServiceGraph.Value.Text
import ServiceGraph.Yaml.Written

/-!
# Values as documents

* `Binary64.document`: the text of a number in a document;
* `Value.written?`: the text of a value in a document; a live object has none.
-/

namespace ServiceGraph

open Yaml (Written.text Written.list Written.map)

def Binary64.document (x : Binary64) : String :=
  if x.isNaN then ".nan"
  else if x.isInfinite then (if x.negative then "-.inf" else ".inf")
  else x.render .document

namespace Value

mutual

def written? : Value → Option (List Char)
  | null => some "null".toList
  | bool b => some (truthText b).toList
  | int n => some (toString n.toInt).toList
  | float x => some x.document.toList
  | str s => some (Written.text s)
  | list items => (writtenItems? items).map Written.list
  | map entries => (writtenEntries? entries).map Written.map
  | service _ => none

def writtenItems? : List Value → Option (List (List Char))
  | [] => some []
  | v :: vs =>
    match written? v, writtenItems? vs with
    | some t, some ts => some (t :: ts)
    | _, _ => none

def writtenEntries? : List (String × Value) → Option (List (String × List Char))
  | [] => some []
  | (k, v) :: vs =>
    match written? v, writtenEntries? vs with
    | some t, some ts => some ((k, t) :: ts)
    | _, _ => none

end

end Value
end ServiceGraph
