import ServiceGraph.Value.Basic

/-!
# Schemas of configuration blocks

* `Schema.Shape`, `Schema.Field`, `Schema`: what a block may hold;
* `Schema.normalize`: a block with the defaults filled in, in the order of the schema;
* `SchemaError`: the first rule that a block breaks.

A null block counts as an empty one, and so does a null map that has a schema of its own.
-/

namespace ServiceGraph

namespace Schema

/-- the accepted shape of a field -/
inductive Shape where
  | string
  | int
  | bool
  | list
  | map
  | any
deriving DecidableEq, Repr

def Shape.name : Shape → String
  | string => "string"
  | int => "int"
  | bool => "bool"
  | list => "list"
  | map => "map"
  | any => "any"

def Shape.ofName? (name : String) : Option Shape :=
  [string, int, bool, list, map, any].find? (·.name == name)

/-- one key of a block; `fields`, the schema of a map, lists the fields under their names -/
inductive Field where
  | mk (shape : Shape) (required : Bool) (default : Option Value) (min max : Option Int64)
      (choices : List String) (fields : Option (List (String × Field)))

namespace Field

/-- a field of a shape, optional and without further rules -/
def ofShape (shape : Shape) : Field := mk shape false none none none [] none

def withDefault (value : Value) : Field → Field
  | mk shape required _ min max choices fields =>
    mk shape required (some value) min max choices fields

def shape : Field → Shape
  | mk shape .. => shape

/-- the field must be given or have a default -/
def required : Field → Bool
  | mk _ required .. => required

/-- what stands in for a field that is not given -/
def default : Field → Option Value
  | mk _ _ default .. => default

end Field
end Schema

/-- the fields of a block, by name -/
abbrev Schema := List (String × Schema.Field)

/-- the rule that a block breaks -/
inductive SchemaError where
  | missing (path : String)
  | wrongType (path : String) (expected : Schema.Shape) (found : String)
  | belowMin (path : String) (min got : Int64)
  | aboveMax (path : String) (max got : Int64)
  | notAChoice (path : String) (choices : List String) (got : String)
  | unknownKey (path : String)
  | notAMap (found : String)
deriving DecidableEq, Repr

namespace SchemaError

def message : SchemaError → String
  | missing path => "'" ++ path ++ "' is required"
  | wrongType path expected found =>
    "'" ++ path ++ "' must be a " ++ expected.name ++ ", found " ++ found
  | belowMin path min got =>
    "'" ++ path ++ "' must be >= " ++ toString min.toInt ++ ", got " ++ toString got.toInt
  | aboveMax path max got =>
    "'" ++ path ++ "' must be <= " ++ toString max.toInt ++ ", got " ++ toString got.toInt
  | notAChoice path choices got =>
    "'" ++ path ++ "' must be one of [" ++ ", ".intercalate choices ++ "], got '" ++ got ++ "'"
  | unknownKey path => "unknown key '" ++ path ++ "'"
  | notAMap found => "configuration must be a map, found " ++ found

end SchemaError

namespace Schema

def under (outer key : String) : String :=
  if outer = "" then key else outer ++ "." ++ key

/-- the first key outside the schema -/
def strayKey? (schema : Schema) (given : OrderedMap Value) : Option String :=
  given.keys.find? fun key => !OrderedMap.contains schema key

def checkBounds (path : String) (min max : Option Int64) (n : Int64) :
    Except SchemaError Value :=
  match min.filter (n < ·), max.filter (· < n) with
  | some min, _ => .error (.belowMin path min n)
  | none, some max => .error (.aboveMax path max n)
  | none, none => .ok (.int n)

/-- a string among its choices; without choices any string is accepted -/
def checkChoice (path : String) (choices : List String) (s : String) :
    Except SchemaError Value :=
  if choices ≠ [] ∧ ¬ choices.contains s then .error (.notAChoice path choices s)
  else .ok (.str s)

/-- the pairs of a block: of a map its own, of null none -/
def given : Value → Except SchemaError (OrderedMap Value)
  | .null => .ok []
  | .map entries => .ok entries
  | v => .error (.notAMap v.kind)

mutual

/-- a given or default value against its field -/
def checkField (path : String) : Field → Value → Except SchemaError Value
  | .mk shape _ _ min max choices fields, v =>
    match shape, v with
    | .any, v => .ok v
    | .string, .str s => checkChoice path choices s
    | .int, .int n => checkBounds path min max n
    | .bool, .bool b => .ok (.bool b)
    | .list, .list items => .ok (.list items)
    | .map, .map entries => (checkInner path fields entries).getD (.ok (.map entries))
    | .map, .null => (checkInner path fields []).getD (.error (.wrongType path .map "null"))
    | shape, v => .error (.wrongType path shape v.kind)

/-- the pairs of an inner block against the schema of a map, if it has one -/
def checkInner (path : String) :
    Option (List (String × Field)) → OrderedMap Value → Option (Except SchemaError Value)
  | none, _ => none
  | some fields, entries => some <|
    match strayKey? fields entries with
    | some key => .error (.unknownKey (under path key))
    | none => (checkFields path fields entries).map .map

def checkFields (path : String) :
    List (String × Field) → OrderedMap Value → Except SchemaError (OrderedMap Value)
  | [], _ => .ok []
  | field :: rest, entries =>
    match checkNamed path field entries with
    | .error e => .error e
    | .ok found => (checkFields path rest entries).map (found.toList ++ ·)

/-- a field with its name: what is given or stands for it, if there is anything -/
def checkNamed (path : String) :
    String × Field → OrderedMap Value → Except SchemaError (Option (String × Value))
  | (name, field), entries =>
    match (entries.get? name).or field.default with
    | some v => (checkField (under path name) field v).map fun v => some (name, v)
    | none => if field.required then .error (.missing (under path name)) else .ok none

end

/-- a block with the defaults filled in: the stray keys are looked for first -/
def normalize (schema : Schema) (raw : Value) : Except SchemaError Value := do
  let entries ← given raw
  match strayKey? schema entries with
  | some key => throw (.unknownKey key)
  | none => return .map (← checkFields "" schema entries)

end Schema
end ServiceGraph
