import ServiceGraph.Scenario.Reply

/-!
# Scenarios of a registry

* `PipelineStep`, `RouteStep`, `RegistryStep`: the steps;
* `RegistryStep.program`: a step as the program of an extension;
* `RegistryStep.perform`: a step carried out on a registry.
-/

namespace ServiceGraph

inductive PipelineStep where
  /-- a contribution, and then the pipeline in a few words -/
  | change (c : PipelineChange)
  | assemble
  | state (anchor : String)
  | name

inductive RouteStep where
  | addRoot (r : Route)
  | configure (reference : String) (group : RouteGroup) (origin : Option String)
  | create (id owner : String) (parent : Option String) (group : RouteGroup)
      (routes : List Route)
  | route (id : String) (r : Route)
  | collection (id : String)
  | groupId (reference : String)
  | pending
  | check
  | isAssembled
  | flatten (order : List String)
  /-- flatten, and give the node of the table -/
  | toNode (order : List String) (constructor : String)

/-- what a modification adds to a definition or replaces in it -/
structure DefinitionEdit where
  root : Option Node
  shared : Option Bool
  isPublic : Option Bool
  types : List String
  tags : List (String × Value)

def DefinitionEdit.apply (e : DefinitionEdit) (d : Definition) : Definition :=
  { d with
    root := e.root.getD d.root
    shared := e.shared.getD d.shared
    isPublic := e.isPublic.getD d.isPublic
    types := e.types.foldl (fun acc name => insertSorted name acc) d.types
    tags := OrderedMap.extend d.tags e.tags }

inductive RegistryStep where
  | add (d : Definition)
  | definition (id : String)
  | setup (id method : String) (args : List Node)
  | modify (id : String) (e : DefinitionEdit)
  | remove (id : String)
  | has (id : String)
  | len
  | ids
  | refs (id : String)
  | tagged (tag : String)
  | byType (typeName : String)
  | uniqueByType (typeName : String)
  | setParameter (key : String) (value : Value)
  | mergeParameters (incoming : OrderedMap Value)
  | parameter (key : String)
  | params
  | pipelineNamed (name : String)
  | pipeline (name : String) (s : PipelineStep)
  | pipelines
  | routes (s : RouteStep)
  | pending
  | freeze
  | isFrozen
  | origin
  | extensionOrder
  | dump

namespace Program

variable {σ : Type}

/-- give back what the registry shows -/
def showing (f : Registry → Reply) : Program σ Reply := do return f (← look)

def changing (c : RegistryChange) (f : Registry → Reply) : Program σ Reply := do
  apply c
  showing f

def asking (f : Registry → Except RegistryError Reply) : Program σ Reply := do
  match f (← look) with
  | .ok r => return r
  | .error e => fail (.registry e)

end Program

namespace PipelineStep

/-- a pipeline in a few words, with its nodes when it was just assembled -/
def summary (p : Pipeline) (nodes : Option (List Node)) : Reply :=
  .record [
    ("len", .count p.size), ("empty", .flag (p.size == 0)), ("assembled", .flag p.assembled),
    ("nodes", Reply.optional (fun ns => .list (ns.map .node)) nodes)]

def stateName : Pipeline.AnchorState → String
  | .pending => "Pending"
  | .resolved => "Resolved"
  | .flushed => "Flushed"

def program {σ : Type} (name : String) : PipelineStep → Program σ Reply
  | change c => Program.changing (.pipeline name c) fun r => summary (r.pipelineNamed name) none
  | assemble =>
    .assemble name fun nodes => do
      let nodes ← Program.ofChange nodes
      Program.showing fun r => summary (r.pipelineNamed name) (some nodes)
  | state anchor =>
    Program.changing (.pipeline name .touch) fun r =>
      Reply.optional (fun s => .text (stateName s)) ((r.pipelineNamed name).stateOf? anchor)
  | .name => Program.changing (.pipeline name .touch) fun r => .text (r.pipelineNamed name).name

end PipelineStep

namespace RouteStep

/-- show something of the route collections, which must be open to changes -/
def look {σ : Type} (f : RouteAssembler → Reply) : Program σ Reply :=
  Program.asking fun r => do
    r.ensureRoutesOpen
    return f r.routes

def shown (id : String) (a : RouteAssembler) : Reply :=
  Reply.optional .collection (a.collection? id)

def program {σ : Type} : RouteStep → Program σ Reply
  | addRoot r => Program.changing (.routes (.addRoot r)) fun _ => .nothing
  | configure reference group origin =>
    Program.changing (.routes (.configure reference group origin)) fun r =>
      Reply.texts r.routes.pendingGroups
  | create id owner parent group routes =>
    Program.changing (.routes (.create id owner parent group routes)) fun r => shown id r.routes
  | route id r =>
    Program.changing (.routes (.edit id fun c => { c with routes := c.routes ++ [r] })) fun r =>
      shown id r.routes
  | collection id => look (shown id)
  | groupId reference => look fun _ => .text (ServiceGraph.groupId reference)
  | pending => look fun a => Reply.texts a.pendingGroups
  | check => do
    let _ ← look fun _ => .nothing
    let r ← Program.look
    match r.routes.checkConsumed with
    | .ok () => return .nothing
    | .error e => Program.fail (.assembly e)
  | isAssembled => look fun a => .flag a.assembled
  | flatten order =>
    .flatten order fun table => do
      let table ← Program.ofChange table
      return .record [
        ("routes", .list (table.routes.map .route)), ("paths", Reply.texts table.paths)]
  | toNode order constructor =>
    .flatten order fun table => do
      let table ← Program.ofChange table
      return .node (table.toNode constructor)

end RouteStep

namespace RegistryStep

def shown (id : String) (r : Registry) : Reply :=
  Reply.optional .definition (r.find? id)

def dumped (r : Registry) : Reply :=
  .record [
    ("definitions", .list (r.definitions.map .definition)),
    ("parameters", .parameters r.parameters),
    ("extension_order", Reply.texts r.extensionOrder),
    ("frozen", .flag r.frozen)]

def program {σ : Type} : RegistryStep → Program σ Reply
  | add d => Program.changing (.add d) (shown d.id)
  | definition id => Program.showing (shown id)
  | setup id method args =>
    Program.changing (.modify id fun d => { d with setup := d.setup ++ [.mk method args] })
      (shown id)
  | modify id e => Program.changing (.modify id e.apply) (shown id)
  | remove id => do
    let before ← Program.look
    Program.apply (.remove id)
    return shown id before
  | has id => Program.showing fun r => .flag (r.has id)
  | len => Program.showing fun r => .list [.count r.size, .flag (r.size == 0)]
  | ids => Program.showing fun r => Reply.texts r.ids
  | refs id =>
    Program.showing fun r => Reply.optional (fun d => Reply.texts d.references) (r.find? id)
  | tagged tag => Program.showing fun r => .entries (r.tagged tag)
  | byType typeName => Program.showing fun r => Reply.texts (r.byType typeName)
  | uniqueByType typeName =>
    Program.asking fun r => (r.uniqueByType typeName).map .text
  | setParameter key value =>
    Program.changing (.setParameter key value) fun r => .parameters r.parameters
  | mergeParameters incoming =>
    Program.changing (.mergeParameters incoming) fun r => .parameters r.parameters
  | parameter key => Program.asking fun r => (r.parameter key).map .value
  | params => Program.showing fun r => .parameters r.parameters
  | pipelineNamed name =>
    Program.changing (.pipeline name .touch) fun r =>
      let p := r.pipelineNamed name
      .list [.text p.name, .count p.size]
  | pipeline name s => s.program name
  | pipelines => Program.showing fun r => .list (r.pipelines.values.map fun p =>
      .list [.text p.name, .count p.size, .flag p.assembled])
  | routes s => s.program
  | pending => Program.showing fun r => Reply.texts r.routes.pendingGroups
  | freeze => Program.changing .freeze fun r => .parameters r.parameters
  | isFrozen => Program.showing fun r => .flag r.frozen
  | origin => Program.showing fun r => Reply.optional .text r.origin
  | extensionOrder => Program.showing fun r => Reply.texts r.extensionOrder
  | dump => Program.showing dumped

/-- the error of a step: that of the change which failed -/
def fault : ExtensionError → Fault
  | .registry e => .registry e
  | .assembly e => .assembly e
  | e => .extension e

def perform (s : RegistryStep) (r : Registry) : Except Fault Reply × Registry :=
  let (result, w) := (s.program : Program Unit Reply).run ⟨r, ()⟩
  (result.mapError fault, w.registry)

/-- carry a step out next to live objects, which stay as they are -/
def answer (h : Heap SampleObject) (s : RegistryStep) (r : Registry) : Answer × Registry :=
  let (result, r) := s.perform r
  (.of h result, r)

/-- carry steps out one after the other; the first failure ends it, at its position -/
def performAll (position : Nat) : List RegistryStep → Registry → Except (Fault × Nat) Registry
  | [], r => .ok r
  | s :: rest, r =>
    match s.perform r with
    | (.ok _, r) => performAll (position + 1) rest r
    | (.error e, _) => .error (e, position)

end RegistryStep
end ServiceGraph
