import ServiceGraph.Yaml.Plain
import ServiceGraph.Yaml.Tree

/-!
# Reading a document

* `Reading`: reading that may fail. Aliases are followed a limited number of times, so that a short
  text does not stand for an endless value;
* `Reading.follow`: the node that an alias stands for;
* `Reading.value`: a node as a value; lists and maps are nested at most 128 deep;
* `Reading.text`, `bool`, `int`, `items`, `entries`, `optional`: nodes whose kind is known
  beforehand;
* `Document.read?`: a text read in one of these ways.
-/

namespace ServiceGraph.Yaml

/-- reading that may fail; the state says how many aliases may still be followed -/
abbrev Reading (α : Type) := StateT Nat Option α

namespace Reading

/-- how deep lists and maps may be nested -/
def depth : Nat := 128

def scalarTag (name : String) : String := "tag:yaml.org,2002:" ++ name

/-- a tag that a document brings along itself; such a node is no plain value -/
def isLocal (tag : Option String) : Bool :=
  tag.any fun t => t.toList.head? == some '!'

def follow (d : Document) (t : Tree) : Reading Tree := do
  match t with
  | .reference number =>
    match ← get with
    | 0 => failure
    | left + 1 =>
      set left
      match d.target? number with
      | some t => return t
      | none => failure
  | t => return t

/-- the value of a scalar. A tag of a type demands that type, and any other tag makes the scalar a
string. -/
def scalar? (text : String) (style : Style) (tag : Option String) : Option Value :=
  match tag with
  | none => if style = .plain then Plain.value? text else some (.str text)
  | some tag =>
    if isLocal (some tag) then none
    else if tag = scalarTag "bool" then (Plain.truth? text).map .bool
    else if tag = scalarTag "int" then
      match Plain.readWhole text with
      | .value v => some v
      | _ => none
    else if tag = scalarTag "float" then (Plain.float? text).map .float
    else if tag = scalarTag "null" then if Plain.isNull text then some .null else none
    else some (.str text)

/-- a node as a value; the keys of maps are strings, and a repeated one takes its last value -/
def value (d : Document) : (depth : Nat) → Tree → Reading Value
  | depth, t => do
    match ← follow d t, depth with
    | .void, _ => return .null
    | .scalar text style tag, _ => StateT.lift (scalar? text style tag)
    | .list items tag, depth + 1 =>
      if isLocal tag then failure
      return .list (← items.mapM (value d depth))
    | .map entries tag, depth + 1 =>
      if isLocal tag then failure
      let entries ← entries.mapM fun (k, v) => do
        match ← value d depth k with
        | .str key => return (key, ← value d depth v)
        | _ => failure
      return .map (OrderedMap.ofList entries)
    | _, _ => failure

/-! ## nodes of a known kind -/

/-- nothing is written where a list or a map is expected -/
def isLeftOut : Tree → Bool
  | .void => true
  | .scalar text style _ => text == "" && style == .plain
  | _ => false

/-- the text of a scalar, whatever it means -/
def text (d : Document) (t : Tree) : Reading String := do
  match ← follow d t with
  | .scalar text _ _ => return text
  | _ => failure

/-- a scalar without quotes, or a literal with the tag of a type -/
def isBare (type : String) (style : Style) (tag : Option String) : Bool :=
  style == .plain || (style == .literal && tag == some (scalarTag type))

def bool (d : Document) (t : Tree) : Reading Bool := do
  match ← follow d t with
  | .scalar text style tag =>
    if isBare "bool" style tag then StateT.lift (Plain.truth? text) else failure
  | _ => failure

def int (d : Document) (t : Tree) : Reading Int64 := do
  match ← follow d t with
  | .scalar text style tag =>
    if isBare "int" style tag then StateT.lift (Plain.int? text) else failure
  | _ => failure

/-- the items of a list, where lists and maps may be nested `depth` deep -/
def items (d : Document) (depth : Nat) (t : Tree) : Reading (List Tree) := do
  match ← follow d t with
  | .list items _ => if depth = 0 then failure else return items
  | t => if isLeftOut t then return [] else failure

/-- the entries of a map, whose keys are read as texts, where lists and maps may be nested `depth`
deep -/
def entries (d : Document) (depth : Nat) (t : Tree) : Reading (List (String × Tree)) := do
  match ← follow d t with
  | .map entries _ =>
    if depth = 0 then failure
    else entries.mapM fun (k, v) => return (← text d k, v)
  | t => if isLeftOut t then return [] else failure

/-- the word of null without quotes, or nothing at all -/
def isNone? : Tree → Option Bool
  | .void => some true
  | .scalar text style tag =>
    if style ≠ .plain then some false
    else if tag = some (scalarTag "null") then if Plain.isNull text then some true else none
    else some (Plain.isAbsent text)
  | _ => some false

def optional {α : Type} (d : Document) (read : Tree → Reading α) (t : Tree) :
    Reading (Option α) := do
  let t ← follow d t
  if ← StateT.lift (isNone? t) then return none else return some (← read t)

def unique {α : Type} (key : String) (entries : List (String × α)) : Reading (Option α) :=
  match entries.filter (·.1 = key) with
  | [] => return none
  | [e] => return some e.2
  | _ => failure

/-- a field of a record, or what stands for a missing one -/
def field {α : Type} (entries : List (String × Tree)) (key : String) (missing : Option α)
    (read : Tree → Reading α) : Reading α := do
  match ← unique key entries with
  | some t => read t
  | none => StateT.lift missing

end Reading

/-- a text read in some way; one hundred aliases may be followed for each mark -/
def Document.read? {α : Type} (read : Document → Tree → Reading α) (text : String) :
    Option α := do
  let d ← Document.ofText? text
  let (a, _) ← (read d d.root).run (d.marks * 100)
  return a

def valueOf? (text : String) : Option Value :=
  Document.read? (fun d => Reading.value d Reading.depth) text

end ServiceGraph.Yaml
