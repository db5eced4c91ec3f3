import ServiceGraph.Value.Merge
import ServiceGraph.Text.Parts

/-!
# The parameter tree

Parameters are a tree of maps whose leaves are any other values. A leaf has a dotted key.

* `Parameters`: the tree, and whether its strings are already expanded;
* `Parameters.raw?`: the value under a key, as written;
* `Parameters.set`, `Parameters.merge`: changes; afterwards the tree counts as written again;
* `Parameters.leaves`: how many leaves the tree has, an empty map being one;
* `ParameterError`: the ways in which expansion fails.
-/

namespace ServiceGraph

inductive ParameterError where
  /-- no such key -/
  | unknown (key : String)
  /-- the references come back to where they were; the chain names the keys passed -/
  | cycle (chain : List String)
  /-- a list, map or object stands inside a longer string -/
  | nonScalar (key kind template : String)
deriving DecidableEq, Repr

namespace ParameterError

def message : ParameterError → String
  | unknown key => "unknown parameter '" ++ key ++ "'"
  | cycle chain => "parameter cycle detected: " ++ " -> ".intercalate chain
  | nonScalar key kind template =>
    "parameter '" ++ key ++ "' is a " ++ kind ++ " and cannot be interpolated into '" ++
      template ++ "'"

end ParameterError

/-- named values with dotted keys -/
structure Parameters where
  tree : OrderedMap Value
  /-- the strings are expanded and are returned as they stand -/
  resolved : Bool
deriving DecidableEq, Repr, Inhabited

/-- the steps that a dotted key takes through the tree -/
def keyPath (key : String) : List String :=
  (Text.parts '.' key.toList).map String.ofList

namespace Value

/-- follow fields through nested maps -/
def walk? : Value → List String → Option Value
  | v, [] => some v
  | v, key :: rest => (v.field? key).bind (walk? · rest)

/-- put a value at a path; what stands in the way of the path becomes a map -/
def setAt : OrderedMap Value → List String → Value → OrderedMap Value
  | m, [], _ => m
  | m, [key], value => m.insert key value
  | m, key :: next :: rest, value =>
    let inner := ((m.get? key).map entries).getD []
    m.insert key (map (setAt inner (next :: rest) value))

mutual

/-- how many leaves a value has; an empty map is a leaf -/
def leaves : Value → Nat
  | map es => max 1 (leavesOf es)
  | _ => 1

def leavesOf : List (String × Value) → Nat
  | [] => 0
  | (_, v) :: rest => leaves v + leavesOf rest

end

end Value

namespace Parameters

/-- parameters as written -/
def ofTree (tree : OrderedMap Value) : Parameters := ⟨tree, false⟩

def empty : Parameters := ofTree []

/-- the parameters that a map writes; anything else writes none -/
def ofValue (v : Value) : Parameters := ofTree v.entries

/-- the parameters of a tree whose strings are already expanded -/
def ofResolved (v : Value) : Parameters := ⟨v.entries, true⟩

def isEmpty (p : Parameters) : Bool := p.tree.isEmpty

/-- the value under a key as it stands in the tree: a whole key of the top level first, then the
path of its parts -/
def raw? (p : Parameters) (key : String) : Option Value :=
  match p.tree.get? key with
  | some v => some v
  | none => (Value.map p.tree).walk? (keyPath key)

def set (p : Parameters) (key : String) (value : Value) : Parameters :=
  ofTree (Value.setAt p.tree (keyPath key) value)

def merge (p : Parameters) (incoming : OrderedMap Value) : Parameters :=
  ofTree (Value.mergeEntries p.tree incoming)

def leaves (p : Parameters) : Nat := Value.leavesOf p.tree

end Parameters
end ServiceGraph
