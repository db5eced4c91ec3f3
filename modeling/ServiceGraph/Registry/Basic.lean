import ServiceGraph.Definition
import ServiceGraph.Routes.Assembler

/-!
# The registry

Definitions, parameters, pipelines and route collections, as extensions fill them in. A frozen
registry has its parameters expanded and takes no more changes.

* `Registry.add`, `modify`, `remove`: definitions;
* `Registry.editParameters`, `withPipeline`, `editRoutes`: the rest;
* `Registry.tagged`, `byType`, `uniqueByType`: views, in the order of registration;
* `Registry.freeze`: expand the parameters and close the registry;
* `RegistryError`: why a change or a view fails.
-/

namespace ServiceGraph

inductive RegistryError where
  | duplicateService (id : String)
  | unknownService (id : String)
  | frozen (action : String)
  | ambiguousCapability (typeName : String) (ids : List String)
  | missingCapability (typeName : String)
  | parameter (e : ParameterError)
deriving DecidableEq, Repr

namespace RegistryError

def message : RegistryError → String
  | duplicateService id => "service '" ++ id ++ "' is already defined"
  | unknownService id => "service '" ++ id ++ "' not found"
  | frozen action => "registry is frozen; cannot " ++ action
  | ambiguousCapability typeName ids =>
    "multiple services of type '" ++ typeName ++ "' found: " ++ ", ".intercalate ids
  | missingCapability typeName => "no service of type '" ++ typeName ++ "' found"
  | parameter e => e.message

end RegistryError

/-- everything that extensions contribute -/
structure Registry where
  /-- in the order of registration, no id twice -/
  definitions : List Definition
  parameters : Parameters
  pipelines : OrderedMap Pipeline
  routes : RouteAssembler
  /-- the extension that is running -/
  origin : Option String
  /-- the names of the extensions in boot order -/
  extensionOrder : List String
  frozen : Bool
deriving DecidableEq

namespace Registry

/-- a registry that holds parameters only -/
def ofParameters (p : Parameters) : Registry :=
  ⟨[], p, [], .empty, none, [], false⟩

/-- refuse an action on a frozen registry -/
def ensureOpen (r : Registry) (action : String) : Except RegistryError Unit :=
  if r.frozen then .error (.frozen action) else .ok ()

/-! ## views -/

def ids (r : Registry) : List String := r.definitions.map Definition.id

def size (r : Registry) : Nat := r.definitions.length

def find? (r : Registry) (id : String) : Option Definition :=
  r.definitions.find? (·.id = id)

def has (r : Registry) (id : String) : Bool := (r.find? id).isSome

def tagged (r : Registry) (tag : String) : OrderedMap Value :=
  r.definitions.filterMap fun d => (d.tags.get? tag).map fun attrs => (d.id, attrs)

def byType (r : Registry) (typeName : String) : List String :=
  (r.definitions.filter (·.types.contains typeName)).map Definition.id

def uniqueByType (r : Registry) (typeName : String) : Except RegistryError String :=
  match r.byType typeName with
  | [] => .error (.missingCapability typeName)
  | [id] => .ok id
  | ids => .error (.ambiguousCapability typeName ids)

def parameter (r : Registry) (key : String) : Except RegistryError Value :=
  (r.parameters.get key).mapError .parameter

/-! ## changes -/

def replace (r : Registry) (id : String) (f : Definition → Definition) : Registry :=
  { r with definitions := r.definitions.map fun d => if d.id = id then f d else d }

/-- add a definition; without an origin of its own it gets that of the running extension -/
def add (r : Registry) (d : Definition) : Except RegistryError Registry := do
  r.ensureOpen ("add '" ++ d.id ++ "'")
  if r.has d.id then .error (.duplicateService d.id)
  else return { r with definitions := r.definitions ++ [{ d with origin := d.origin.or r.origin }] }

def modify (r : Registry) (id : String) (f : Definition → Definition) :
    Except RegistryError Registry := do
  r.ensureOpen ("modify '" ++ id ++ "'")
  if r.has id then return r.replace id f else .error (.unknownService id)

/-- remove a definition; the others keep their order -/
def remove (r : Registry) (id : String) : Except RegistryError (Definition × Registry) := do
  r.ensureOpen ("remove '" ++ id ++ "'")
  match r.find? id with
  | some d => return (d, { r with definitions := r.definitions.filter (·.id ≠ id) })
  | none => .error (.unknownService id)

def editParameters (r : Registry) (f : Parameters → Parameters) :
    Except RegistryError Registry := do
  r.ensureOpen "change parameters"
  return { r with parameters := f r.parameters }

/-- a pipeline by name; one that does not exist yet is empty -/
def pipelineNamed (r : Registry) (name : String) : Pipeline :=
  (r.pipelines.get? name).getD (.empty name)

/-- the registry in which a pipeline exists; it is created on first access -/
def withPipeline (r : Registry) (name : String) : Except RegistryError Registry := do
  r.ensureOpen ("change pipeline '" ++ name ++ "'")
  return { r with pipelines := r.pipelines.insert name (r.pipelineNamed name) }

def putPipeline (r : Registry) (p : Pipeline) : Registry :=
  { r with pipelines := r.pipelines.insert p.name p }

def ensureRoutesOpen (r : Registry) : Except RegistryError Unit :=
  r.ensureOpen "change route collections"

/-- expand the parameters and take no more changes -/
def freeze (r : Registry) : Except RegistryError Registry :=
  if r.frozen then .ok r
  else do
    let parameters ← r.parameters.resolve.mapError .parameter
    return { r with parameters, frozen := true, origin := none }

end Registry
end ServiceGraph
