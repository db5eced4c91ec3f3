import ServiceGraph.Config.Basic
import ServiceGraph.Definition
import ServiceGraph.Node.Reading

/-!
# Declared services

A `services` block maps ids to declarations: the name of a constructor, or a map with `create`,
`arguments`, `calls`, `setup`, `type`, `tags`, `shared` and `public`. A declaration may also be
the list of these fields in this order, cut off anywhere.

* `CallDeclaration`, `ServiceDeclaration`: a declaration as written;
* `ServiceDeclaration.ofValue?`: the declaration that a value writes;
* `ServiceDeclaration.toDefinition`: the definition that it declares;
* `Config.serviceDefinitions`: the definitions of a block, in order.
-/

namespace ServiceGraph

structure CallDeclaration where
  method : String
  arguments : List Value
deriving DecidableEq

structure ServiceDeclaration where
  create : Option String
  arguments : List Value
  calls : List CallDeclaration
  setup : List CallDeclaration
  types : List String
  tags : OrderedMap Value
  shared : Bool
  isPublic : Bool
deriving DecidableEq

namespace Config

/-- the fields of a record that a value writes, as a map with known keys or as a list in the
order of the keys -/
def fields? (keys : List String) : Value → Option (OrderedMap Value)
  | .map entries => if (OrderedMap.keys entries).all keys.contains then some entries else none
  | .list items => if items.length ≤ keys.length then some (keys.zip items) else none
  | _ => none

/-- read a field, or take what stands for a missing one -/
def field? {α : Type} (fields : OrderedMap Value) (key : String) (missing : Option α)
    (read : Value → Option α) : Option α :=
  match fields.get? key with
  | some v => read v
  | none => missing

def list? {α : Type} (read : Value → Option α) (v : Value) : Option (List α) :=
  v.items?.bind (·.mapM read)

/-- read something that null leaves out -/
def optional? {α : Type} (read : Value → Option α) : Value → Option (Option α)
  | .null => some none
  | v => (read v).map some

/-- the tags that one item of a tag list writes: a name, or names with attributes -/
def tags? : Value → Option (OrderedMap Value)
  | .str name => some [(name, .null)]
  | .map entries => some entries
  | _ => none

end Config

namespace CallDeclaration

def ofValue? (v : Value) : Option CallDeclaration := do
  let fields ← Config.fields? ["method", "arguments"] v
  let method ← Config.field? fields "method" none Value.text?
  let arguments ← Config.field? fields "arguments" (some []) Value.items?
  return ⟨method, arguments⟩

def toCall (c : CallDeclaration) : MethodCall :=
  .mk c.method (c.arguments.map Node.ofValue)

end CallDeclaration

namespace ServiceDeclaration

def ofName (create : String) : ServiceDeclaration :=
  ⟨some create, [], [], [], [], [], true, true⟩

/-- the keys of a declaration, in the order in which a list gives them -/
def keys : List String :=
  ["create", "arguments", "calls", "setup", "type", "tags", "shared", "public"]

def ofFields? (fields : OrderedMap Value) : Option ServiceDeclaration := do
  let create ← Config.field? fields "create" (some none) (Config.optional? Value.text?)
  let arguments ← Config.field? fields "arguments" (some []) Value.items?
  let calls ← Config.field? fields "calls" (some []) (Config.list? CallDeclaration.ofValue?)
  let setup ← Config.field? fields "setup" (some []) (Config.list? CallDeclaration.ofValue?)
  let types ← Config.field? fields "type" (some []) (Config.list? Value.text?)
  let tags ← Config.field? fields "tags" (some []) (Config.list? Config.tags?)
  let shared ← Config.field? fields "shared" (some true) Value.bool?
  let isPublic ← Config.field? fields "public" (some true) Value.bool?
  return ⟨create, arguments, calls, setup, types, OrderedMap.ofList tags.flatten, shared,
    isPublic⟩

def ofValue? : Value → Option ServiceDeclaration
  | .str create => some (ofName create)
  | v => (Config.fields? keys v).bind ofFields?

/-- cut a text at the first double colon -/
def splitMethod? : List Char → Option (List Char × List Char)
  | ':' :: ':' :: rest => some ([], rest)
  | c :: rest => (splitMethod? rest).map fun p => (c :: p.1, p.2)
  | [] => none

/-- the root that `create` names, with arguments and calls: a constructor, a method of another
service, or another service under a second name -/
def root (create : String) (args : List Node) (calls : List MethodCall) :
    Except String Node :=
  match create.toList with
  | [] => .error "'create' must not be empty"
  | '@' :: target =>
    match splitMethod? target with
    | some (service, method) =>
      if service = [] ∨ method = [] then .error "'create' must be '@service::method'"
      else
        let receiver := Node.reference (String.ofList service) false
        .ok (.statement (.method receiver (String.ofList method)) args calls)
    | none =>
      if args = [] ∧ calls = [] ∧ target ≠ [] then .ok (.reference (String.ofList target) false)
      else .error "an alias ('@id') takes no arguments or calls"
  | _ => .ok (.statement (.named create) args calls)

def toDefinition (d : ServiceDeclaration) (id : String) : Except LoadError Definition := do
  let args := d.arguments.map Node.ofValue
  let calls := d.calls.map CallDeclaration.toCall
  let root ← (root (d.create.getD id) args calls).mapError (.invalidService id)
  return {
    id, root
    shared := d.shared
    isPublic := d.isPublic
    types := sortedNames d.types
    tags := d.tags
    setup := d.setup.map CallDeclaration.toCall
    origin := none }

end ServiceDeclaration

namespace Config

def liveDeclaration : String := "the enum variant Value::Service cannot be serialized"

def unknownDeclaration : String :=
  "data did not match any variant of untagged enum ServiceEntry"

def serviceDefinition (id : String) (v : Value) : Except LoadError Definition :=
  if v.objects ≠ [] then .error (.invalidService id liveDeclaration)
  else match ServiceDeclaration.ofValue? v with
    | some d => d.toDefinition id
    | none => .error (.invalidService id unknownDeclaration)

def serviceDefinitions : Value → Except LoadError (List Definition)
  | .null => .ok []
  | .map entries => entries.mapM fun e => serviceDefinition e.1 e.2
  | v => .error (.invalidService "services"
      ("expected a map of service declarations, found " ++ v.kind))

end Config
end ServiceGraph
