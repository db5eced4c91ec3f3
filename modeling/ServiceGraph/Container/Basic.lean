import ServiceGraph.Container.Constructor

/-!
# The container

A container builds the services of a frozen registry, each when it is first asked for.

* `Container.ofRegistry`: a container over a registry, frozen and without parameters in its nodes;
* `Building`: the live objects, the shared services built so far, and the ids being built;
* `Container.evaluate`: the value of a node, given what references are resolved to;
* `Container.resolve`: the service of an id, built under the rule that no id is needed for its own
  building;
* `Container.get`: the same for public services;
* `Container.lookup`: what the container tells without building.
-/

namespace ServiceGraph

/-- a frozen registry with what is needed to build its services -/
structure Container (σ : Type) where
  registry : Registry
  constructors : Constructors σ
  services : Services σ

structure Building (σ : Type) where
  heap : Heap σ
  /-- the shared services that are built -/
  instances : OrderedMap Value
  /-- the ids in the middle of being built, innermost last -/
  inFlight : List String

/-- work that may fail; what it did to the state remains -/
abbrev Build (σ α : Type) := ExceptT ContainerError (StateM (Building σ)) α

namespace Building

variable {σ : Type}

def ofHeap (h : Heap σ) : Building σ := ⟨h, [], []⟩

/-- enter an id: the ids in flight with it, or the path on which it is already in flight -/
def enter (inFlight : List String) (id : String) : Except ContainerError (List String) :=
  if inFlight.contains id then
    .error (.circularDependency (inFlight.dropWhile (· ≠ id) ++ [id]))
  else .ok (inFlight ++ [id])

end Building

namespace Build

variable {σ α : Type}

def onHeap (work : Heap σ → Heap.Outcome σ) : Build σ Value := fun b =>
  let (result, heap) := work b.heap
  (result, { b with heap })

/-- what becomes of some work, its errors included -/
def outcome (work : Build σ α) : Build σ (Except ContainerError α) := fun b =>
  let (result, b) := work b
  (.ok result, b)

def ofOutcome (result : Except ContainerError α) : Build σ α := fun b => (result, b)

/-- do some work with an id in flight, and take the id off again whatever comes of it -/
def within (id : String) (work : Build σ α) : Build σ α := fun b =>
  match Building.enter b.inFlight id with
  | .error e => (.error e, b)
  | .ok inFlight =>
    let (result, after) := work { b with inFlight }
    (result, { after with inFlight := after.inFlight.dropLast })

end Build

namespace Container

variable {σ : Type}

def substituteAll (p : Parameters) : List Definition → Expansion (List Definition)
  | [] => .ok []
  | d :: ds => return (← d.substitute p) :: (← substituteAll p ds)

/-- a container over a registry, which is frozen first -/
def ofRegistry (r : Registry) (constructors : Constructors σ) (services : Services σ) :
    Except ContainerError (Container σ) := do
  let r ← r.freeze.mapError .ofRegistry
  let definitions ← (substituteAll r.parameters r.definitions).mapError .parameter
  return ⟨{ r with definitions }, constructors, services⟩

/-! ## questions -/

def publicDefinition? (c : Container σ) (id : String) : Option Definition :=
  (c.registry.find? id).filter (·.isPublic)

def has (c : Container σ) (id : String) : Bool := (c.publicDefinition? id).isSome

def tagged (c : Container σ) (tag : String) : OrderedMap Value :=
  (c.registry.tagged tag).filter fun p => c.has p.1

def idsByType (c : Container σ) (typeName : String) : List String :=
  (c.registry.byType typeName).filter c.has

def parameter (c : Container σ) (key : String) : Except ContainerError Value :=
  (c.registry.parameters.get key).mapError .parameter

def lookup (c : Container σ) : Lookup :=
  ⟨c.has, c.tagged, c.idsByType, c.parameter⟩

/-! ## building -/

/-- get a public service, given how services are resolved -/
def getWith (c : Container σ) (resolve : String → Build σ Value) (id : String) :
    Build σ Value :=
  if c.has id then resolve id else throw (.unknownService id)

def run (c : Container σ) (resolve : String → Build σ Value) :
    Construction σ → Build σ Value
  | .done result => .ofOutcome result
  | .get id next => do run c resolve (next (← (c.getWith resolve id).outcome))
  | .act work next => do run c resolve (next (← (Build.onHeap work).outcome))

/-- a reference that may be absent is null when its id is not defined -/
def reference (c : Container σ) (resolve : String → Build σ Value) (id : String)
    (optional : Bool) : Build σ Value :=
  if optional && !c.registry.has id then pure .null else resolve id

/-- keys with values, in order; a repeated key keeps its first position -/
def zipRecord (keys : List String) (args : List Value) : Value :=
  .map (OrderedMap.ofList (keys.zip args))

mutual

/-- the value of a node: first its arguments, then what it invokes, then the calls on it -/
def evaluate (c : Container σ) (resolve : String → Build σ Value) : Node → Build σ Value
  | .literal v => pure v
  | .parameter key => .ofOutcome (c.parameter key)
  | .reference id optional => c.reference resolve id optional
  | .statement callable args calls => do
    let args ← evaluateAll c resolve args
    let v ← match callable with
      | .named name => run c resolve (c.constructors.start c.lookup name args)
      | .method target method => do
        let target ← evaluate c resolve target
        Build.onHeap (·.invoke c.services target method args)
      | .array => pure (.list args)
      | .record keys => pure (zipRecord keys args)
    evaluateCalls c resolve v calls

def evaluateAll (c : Container σ) (resolve : String → Build σ Value) :
    List Node → Build σ (List Value)
  | [] => pure []
  | n :: ns => return (← evaluate c resolve n) :: (← evaluateAll c resolve ns)

/-- call after call, each on what the one before left -/
def evaluateCalls (c : Container σ) (resolve : String → Build σ Value) (receiver : Value) :
    List MethodCall → Build σ Value
  | [] => pure receiver
  | .mk method args :: calls => do
    let args ← evaluateAll c resolve args
    let v ← Build.onHeap (·.fluent c.services receiver method args)
    evaluateCalls c resolve v calls

end

/-- the setup calls of a finished service; their results are dropped -/
def setUp (c : Container σ) (resolve : String → Build σ Value) (v : Value) :
    List MethodCall → Build σ Unit
  | [] => pure ()
  | call :: calls => do
    let args ← evaluateAll c resolve call.args
    let _ ← Build.onHeap (·.invoke c.services v call.method args)
    setUp c resolve v calls

/-- build a definition: its root, its setup, and, if it is shared, the memory of it -/
def build (c : Container σ) (resolve : String → Build σ Value) (d : Definition) :
    Build σ Value := do
  let v ← evaluate c resolve d.root
  setUp c resolve v d.setup
  if d.shared then modify fun b => { b with instances := b.instances.insert d.id v }
  return v

/-- the service of an id. An id in flight is not entered again, so at most as many as there are
definitions are entered at a time; `room` counts those that may still be. -/
def resolve (c : Container σ) : (room : Nat) → String → Build σ Value
  | 0, id => do
    match (← get).instances.get? id, c.registry.find? id with
    | some v, _ => return v
    | none, none => throw (.unknownService id)
    | none, some _ => Build.within id (throw (.unknownService id))
  | room + 1, id => do
    match (← get).instances.get? id, c.registry.find? id with
    | some v, _ => return v
    | none, none => throw (.unknownService id)
    | none, some d => Build.within id (build c (resolve c room) d)

/-- resolve when nothing is in flight -/
def resolveFresh (c : Container σ) (id : String) : Build σ Value :=
  c.resolve c.registry.size id

def get (c : Container σ) (id : String) : Build σ Value :=
  c.getWith c.resolveFresh id

def value (c : Container σ) (n : Node) : Build σ Value :=
  c.evaluate c.resolveFresh n

def getByType (c : Container σ) (typeName : String) : Build σ Value := do
  c.get (← Build.ofOutcome (c.lookup.uniqueByType typeName))

/-- the run of a constructor with the container to ask -/
def construct (c : Container σ) (run : Construction σ) : Build σ Value :=
  c.run c.resolveFresh run

def inspect (c : Container σ) (b : Building σ) : String :=
  "Container \x7b services: " ++ toString c.registry.size ++ ", instantiated: " ++
    toString b.instances.length ++ " \x7d"

/-! ## records -/

/-- the keys of a map with its values make the map again -/
theorem zipRecord_of_distinct {entries : OrderedMap Value}
    (h : OrderedMap.Distinct entries) :
    zipRecord (entries.map Prod.fst) (entries.map Prod.snd) = .map entries := by
  have hofList : OrderedMap.ofList entries = entries :=
    OrderedMap.extend_of_distinct (m := []) h
  have hzip : entries = (entries.map Prod.fst).zip (entries.map Prod.snd) :=
    List.zip_of_prod rfl rfl
  unfold zipRecord
  rw [← hzip, hofList]

end Container
end ServiceGraph
