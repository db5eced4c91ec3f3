import ServiceGraph.Registry.Basic

/-!
# Changes of the registry

The public operations that change a registry, as data.

* `PipelineChange`, `RouteChange`, `RegistryChange`: the operations;
* `Registry.change`: the registry after an operation. A change that fails leaves everything as it
  was, except that a pipeline asked for comes into being;
* `Registry.assemblePipeline`, `Registry.flattenRoutes`: the two operations that give something
  back;
* `ChangeError`: a refusal of the registry itself or of what it holds.
-/

namespace ServiceGraph

inductive ChangeError where
  | registry (e : RegistryError)
  | assembly (e : AssemblyError)
deriving DecidableEq, Repr

def ChangeError.message : ChangeError → String
  | registry e => e.message
  | assembly e => e.message

/-- a contribution to a pipeline -/
inductive PipelineChange where
  /-- ask for the pipeline and leave it as it is -/
  | touch
  | append (node : Node)
  | appendKeyed (key : String) (node : Node)
  | anchor (name : String)
  | resolveAnchor (name : String) (content : List Node)

def Pipeline.change (p : Pipeline) : PipelineChange → Except AssemblyError Pipeline
  | .touch => .ok p
  | .append node => p.append node
  | .appendKeyed key node => p.appendKeyed key node
  | .anchor name => p.anchor name
  | .resolveAnchor name content => p.resolveAnchor name content

/-- a contribution to the route collections -/
inductive RouteChange where
  | addRoot (r : Route)
  | configure (reference : String) (group : RouteGroup) (origin : Option String)
  | create (id owner : String) (parent : Option String) (group : RouteGroup)
      (routes : List Route)
  | edit (id : String) (f : RouteCollection → RouteCollection)

def RouteAssembler.change (a : RouteAssembler) : RouteChange → Except AssemblyError RouteAssembler
  | .addRoot r => a.addRoot r
  | .configure reference group origin => a.configure reference group origin
  | .create id owner parent group routes => do
    let a ← a.create id owner parent group
    return a.edit id fun c => { c with routes := c.routes ++ routes }
  | .edit id f => .ok (a.edit id f)

/-- a public operation that changes a registry -/
inductive RegistryChange where
  | add (d : Definition)
  | modify (id : String) (f : Definition → Definition)
  | remove (id : String)
  | setParameter (key : String) (value : Value)
  | mergeParameters (incoming : OrderedMap Value)
  | pipeline (name : String) (c : PipelineChange)
  | routes (c : RouteChange)
  | freeze

namespace Registry

abbrev Outcome (α : Type) := Except ChangeError α × Registry

/-- keep the registry when an operation fails -/
def orKeep (r : Registry) (result : Except RegistryError Registry) : Outcome Unit :=
  match result with
  | .ok r => (.ok (), r)
  | .error e => (.error (.registry e), r)

/-- work on a pipeline, which comes into being when it is first asked for -/
def onPipeline {α : Type} (r : Registry) (name : String)
    (f : Pipeline → Except AssemblyError (α × Pipeline)) : Outcome α :=
  match r.withPipeline name with
  | .error e => (.error (.registry e), r)
  | .ok r =>
    match f (r.pipelineNamed name) with
    | .error e => (.error (.assembly e), r)
    | .ok (a, p) => (.ok a, r.putPipeline p)

def onRoutes {α : Type} (r : Registry)
    (f : RouteAssembler → Except AssemblyError (α × RouteAssembler)) : Outcome α :=
  match r.ensureRoutesOpen with
  | .error e => (.error (.registry e), r)
  | .ok () =>
    match f r.routes with
    | .error e => (.error (.assembly e), r)
    | .ok (a, routes) => (.ok a, { r with routes })

def change (r : Registry) : RegistryChange → Outcome Unit
  | .add d => r.orKeep (r.add d)
  | .modify id f => r.orKeep (r.modify id f)
  | .remove id => r.orKeep ((r.remove id).map Prod.snd)
  | .setParameter key value => r.orKeep (r.editParameters (·.set key value))
  | .mergeParameters incoming => r.orKeep (r.editParameters (·.merge incoming))
  | .pipeline name c => r.onPipeline name fun p => (p.change c).map ((), ·)
  | .routes c => r.onRoutes fun a => (a.change c).map ((), ·)
  | .freeze => r.orKeep r.freeze

def assemblePipeline (r : Registry) (name : String) : Outcome (List Node) :=
  r.onPipeline name Pipeline.assemble

def flattenRoutes (r : Registry) (order : List String) : Outcome RouteTable :=
  r.onRoutes fun a => a.flatten order

end Registry
end ServiceGraph
