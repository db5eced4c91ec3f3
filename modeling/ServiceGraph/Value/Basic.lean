import ServiceGraph.OrderedMap
import ServiceGraph.Decimal.Binary64

/-!
# Values

What parameters hold, what nodes evaluate to and what services are called with.

* `Value`: plain data (null, booleans, 64-bit integers, floating point numbers, strings, lists,
  maps in insertion order) and references to live objects;
* `Value.kind`: the name of a value's shape in messages;
* `Value.text?`, `Value.int?`, `Value.bool?`, `Value.items?`, `Value.entries?`: the content of one
  shape;
* `Value.field?`: a field of a map;
* `Value.alike`: equality of content, in which numbers are compared as numbers, maps without
  regard to order, and objects by identity;
* `Value.objects`: the live objects a value refers to;
* `Value.keyed`: no map in the value repeats a key.
-/

namespace ServiceGraph

/-- the identity of a live object -/
structure ObjectId where
  index : Nat
deriving DecidableEq, Repr, Inhabited

/-- plain data and references to live objects -/
inductive Value where
  | null
  | bool (b : Bool)
  | int (n : Int64)
  | float (x : Binary64)
  | str (s : String)
  | list (items : List Value)
  | map (entries : List (String × Value))
  | service (id : ObjectId)
deriving Inhabited, Repr

namespace Value

def emptyMap : Value := .map []

def isNull : Value → Bool
  | null => true
  | _ => false

def text? : Value → Option String
  | str s => some s
  | _ => none

def int? : Value → Option Int64
  | int n => some n
  | _ => none

def bool? : Value → Option Bool
  | bool b => some b
  | _ => none

def items? : Value → Option (List Value)
  | list items => some items
  | _ => none

def entries? : Value → Option (OrderedMap Value)
  | map entries => some entries
  | _ => none

/-- the items of a list, none for anything else -/
def items (v : Value) : List Value :=
  v.items?.getD []

/-- the pairs of a map, none for anything else -/
def entries (v : Value) : OrderedMap Value :=
  v.entries?.getD []

def field? (v : Value) (key : String) : Option Value :=
  v.entries?.bind (OrderedMap.get? · key)

def textField? (v : Value) (key : String) : Option String :=
  (v.field? key).bind text?

def kind : Value → String
  | null => "null"
  | bool _ => "bool"
  | int _ => "int"
  | float _ => "float"
  | str _ => "string"
  | list _ => "list"
  | map _ => "map"
  | service _ => "service"

def sameObject : Value → Value → Bool
  | service a, service b => a == b
  | _, _ => false

/-! ## equality of content -/

mutual

/-- both values have the same content -/
def alike : Value → Value → Bool
  | null, null => true
  | bool a, bool b => a == b
  | int a, int b => a == b
  | float a, float b => a.sameNumber b
  | str a, str b => a == b
  | list as, list bs => alikeItems as bs
  | map as, map bs => as.length == bs.length && alikeEntries as bs
  | service a, service b => a == b
  | _, _ => false

def alikeItems : List Value → List Value → Bool
  | [], [] => true
  | a :: as, b :: bs => alike a b && alikeItems as bs
  | _, _ => false

def alikeEntries : List (String × Value) → OrderedMap Value → Bool
  | [], _ => true
  | (k, a) :: as, bs =>
    (match OrderedMap.get? bs k with
      | some b => alike a b
      | none => false) && alikeEntries as bs

end

/-! ## identity -/

mutual

/-- whether two values are equal, position by position and bit by bit -/
def decEq : (v w : Value) → Decidable (v = w)
  | null, w => match w with
    | null => isTrue rfl
    | bool _ | int _ | float _ | str _ | list _ | map _ | service _ => isFalse nofun
  | bool a, w => match w with
    | bool b => decidable_of_iff (a = b) (by simp)
    | null | int _ | float _ | str _ | list _ | map _ | service _ => isFalse nofun
  | int a, w => match w with
    | int b => decidable_of_iff (a = b) (by simp)
    | null | bool _ | float _ | str _ | list _ | map _ | service _ => isFalse nofun
  | float a, w => match w with
    | float b => decidable_of_iff (a = b) (by simp)
    | null | bool _ | int _ | str _ | list _ | map _ | service _ => isFalse nofun
  | str a, w => match w with
    | str b => decidable_of_iff (a = b) (by simp)
    | null | bool _ | int _ | float _ | list _ | map _ | service _ => isFalse nofun
  | service a, w => match w with
    | service b => decidable_of_iff (a = b) (by simp)
    | null | bool _ | int _ | float _ | str _ | list _ | map _ => isFalse nofun
  | list as, w => match w with
    | list bs => match decEqItems as bs with
      | isTrue h => isTrue (by rw [h])
      | isFalse h => isFalse (by simpa using h)
    | null | bool _ | int _ | float _ | str _ | map _ | service _ => isFalse nofun
  | map as, w => match w with
    | map bs => match decEqEntries as bs with
      | isTrue h => isTrue (by rw [h])
      | isFalse h => isFalse (by simpa using h)
    | null | bool _ | int _ | float _ | str _ | list _ | service _ => isFalse nofun

def decEqItems : (vs ws : List Value) → Decidable (vs = ws)
  | [], [] => isTrue rfl
  | [], _ :: _ => isFalse nofun
  | _ :: _, [] => isFalse nofun
  | v :: vs, w :: ws => match decEq v w, decEqItems vs ws with
    | isTrue h, isTrue h' => isTrue (by rw [h, h'])
    | isFalse h, _ => isFalse (by simp [h])
    | _, isFalse h => isFalse (by simp [h])

def decEqEntries : (vs ws : List (String × Value)) → Decidable (vs = ws)
  | [], [] => isTrue rfl
  | [], _ :: _ => isFalse nofun
  | _ :: _, [] => isFalse nofun
  | (k, v) :: vs, (l, w) :: ws =>
    if hk : k = l then
      match decEq v w, decEqEntries vs ws with
      | isTrue h, isTrue h' => isTrue (by rw [hk, h, h'])
      | isFalse h, _ => isFalse (by simp [h])
      | _, isFalse h => isFalse (by simp [h])
    else isFalse (by simp [hk])

end

instance : DecidableEq Value := decEq

/-! ## what a value holds -/

mutual

/-- the live objects a value refers to, in order -/
def objects : Value → List ObjectId
  | service id => [id]
  | list items => objectsOfItems items
  | map entries => objectsOfEntries entries
  | _ => []

def objectsOfItems : List Value → List ObjectId
  | [] => []
  | v :: vs => objects v ++ objectsOfItems vs

def objectsOfEntries : List (String × Value) → List ObjectId
  | [] => []
  | (_, v) :: vs => objects v ++ objectsOfEntries vs

end

mutual

/-- every map inside has distinct keys -/
def keyed : Value → Bool
  | list items => keyedItems items
  | map entries => decide (OrderedMap.Distinct entries) && keyedEntries entries
  | _ => true

def keyedItems : List Value → Bool
  | [] => true
  | v :: vs => keyed v && keyedItems vs

def keyedEntries : List (String × Value) → Bool
  | [] => true
  | (_, v) :: vs => keyed v && keyedEntries vs

end

end Value
end ServiceGraph
