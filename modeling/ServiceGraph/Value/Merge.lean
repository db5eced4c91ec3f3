import ServiceGraph.Value.Basic

/-!
# Laying one map over another

* `Value.mergeEntries base incoming`: where both hold a map the maps are merged, anywhere else the
  incoming value replaces the old one. Keys of `base` keep their positions, new keys go last.
* `Value.merged old incoming`: what one key holds afterwards.
-/

namespace ServiceGraph.Value

mutual

/-- the value under a key that held `old`, after `incoming` is laid over it -/
def merged (old : Option Value) : Value → Value
  | map incoming =>
    match old with
    | some (map base) => map (mergeEntries base incoming)
    | _ => map incoming
  | v => v

/-- lay entries over a map, one after the other -/
def mergeEntries (base : OrderedMap Value) : List (String × Value) → OrderedMap Value
  | [] => base
  | (k, v) :: rest => mergeEntries (base.insert k (merged (base.get? k) v)) rest

end

end ServiceGraph.Value
