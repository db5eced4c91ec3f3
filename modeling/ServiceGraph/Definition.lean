import ServiceGraph.Node.Substitution

/-!
# Service definitions

* `Definition`: a named recipe for one service;
* `Definition.references`: the ids it refers to, those of the setup calls included;
* `Definition.substitute`: the same recipe without parameters;
* `insertSorted`: a sorted list of names with one more.
-/

namespace ServiceGraph

/-- a sorted list of distinct names with one more name in its place -/
def insertSorted (name : String) : List String → List String
  | [] => [name]
  | other :: rest =>
    if name = other then other :: rest
    else if name < other then name :: other :: rest
    else other :: insertSorted name rest

/-- the names in order, each once -/
def sortedNames (names : List String) : List String :=
  names.foldl (fun acc name => insertSorted name acc) []

/-- a named recipe for one service -/
structure Definition where
  id : String
  root : Node
  /-- the service is built at most once in a container -/
  shared : Bool
  /-- the service may be asked for from outside -/
  isPublic : Bool
  /-- the types it declares, sorted -/
  types : List String
  tags : OrderedMap Value
  /-- calls on the finished service, whose results are dropped -/
  setup : List MethodCall
  /-- the extension that added it -/
  origin : Option String
deriving DecidableEq

namespace Definition

/-- a shared public definition without types, tags and setup -/
def ofNode (id : String) (root : Node) : Definition :=
  ⟨id, root, true, true, [], [], [], none⟩

def withType (d : Definition) (name : String) : Definition :=
  { d with types := insertSorted name d.types }

/-- the ids that the root and then the setup refer to -/
def references (d : Definition) : List String :=
  d.root.references ++ Node.referencesOfCalls d.setup

/-- the ids that the root and then the setup cannot do without -/
def required (d : Definition) : List String :=
  d.root.required ++ Node.requiredOfCalls d.setup

def tagged (d : Definition) (tag : String) : Bool := OrderedMap.contains d.tags tag

/-- the same definition without parameters in its root and its setup -/
def substitute (d : Definition) (p : Parameters) : Expansion Definition := do
  let root ← d.root.substitute p
  let setup ← Node.substituteCalls p d.setup
  return { d with root, setup }

end Definition
end ServiceGraph
