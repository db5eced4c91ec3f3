import ServiceGraph.Scenario.Registries

/-!
# Scenarios of containers

* `Argument`, `ObjectStep`: steps on live objects with named places for values;
* `ContainerStep`: a step on a container;
* `ConstructorStep`: a step on constructors, with a container to ask;
* `StackStep`: a step on the ids in the middle of being built.
-/

namespace ServiceGraph

/-! ## live objects -/

/-- an argument of a step: a value, the content of a place, or a list of arguments -/
inductive Argument where
  | value (v : Value)
  | place (name : String)
  | list (items : List Argument)

mutual

/-- the value of an argument; an empty place holds null -/
def Argument.read (places : OrderedMap Value) : Argument → Value
  | .value v => v
  | .place name => (places.get? name).getD .null
  | .list items => .list (Argument.readAll places items)

def Argument.readAll (places : OrderedMap Value) : List Argument → List Value
  | [] => []
  | a :: rest => a.read places :: Argument.readAll places rest

end

inductive ObjectStep where
  | put (place : String) (a : Argument)
  | invoke (receiver : Argument) (method : String) (args : List Argument)
  /-- call a method fluently and perhaps keep what comes of it -/
  | fluent (receiver : Argument) (method : String) (args : List Argument)
      (place : Option String)
  | same (a b : Argument)
  | alike (a b : Argument)
  | inspect (a : Argument)
  | present (a : Argument)
  | isBag (a : Argument)

/-- the live objects of a scenario and the values in its places -/
structure ObjectTable where
  heap : Heap SampleObject
  places : OrderedMap Value

namespace ObjectStep

def bag (h : Heap SampleObject) : Value → Bool
  | .service id =>
    match h.get? id with
    | some (.custom (.bag ..)) => true
    | _ => false
  | _ => false

def perform (s : ObjectStep) (t : ObjectTable) : Answer × ObjectTable :=
  let read := Argument.read t.places
  let told (r : Reply) : Answer × ObjectTable := (.of t.heap (.ok r), t)
  let outcome (o : Heap.Outcome SampleObject) (places : OrderedMap Value) :
      Answer × ObjectTable :=
    (.of o.2 ((o.1.mapError .container).map .value), ⟨o.2, places⟩)
  match s with
  | put place a => outcome (.ok (read a), t.heap) (t.places.insert place (read a))
  | invoke receiver method args =>
    let args := Argument.readAll t.places args
    outcome (t.heap.invoke Sample.services (read receiver) method args) t.places
  | fluent receiver method args place =>
    let args := Argument.readAll t.places args
    let o := t.heap.fluent Sample.services (read receiver) method args
    outcome o <| match place, o.1 with
      | some place, .ok v => t.places.insert place v
      | _, _ => t.places
  | same a b => told (.flag ((read a).sameObject (read b)))
  | alike a b => told (.flag ((read a).alike (read b)))
  | inspect a => told (.text ((read a).inspect (t.heap.typeNameOf Sample.services)))
  | present a => told (.value (read a))
  | isBag a => told (if bag t.heap (read a) then .flag true else .nothing)

end ObjectStep

/-! ## containers -/

inductive ContainerStep where
  | get (id : String)
  | has (id : String)
  | tagged (tag : String)
  | idsByType (typeName : String)
  /-- the ids of a type, each in angle brackets -/
  | findBy (typeName : String)
  | parameter (key : String)
  | uniqueByType (typeName : String)
  | commands
  | getByType (typeName : String)
  | evaluate (n : Node)
  | call (id method : String) (args : List Value)
  | fluent (id method : String) (args : List Value)
  | same (a b : String)
  | definition (id : String)
  | dump
  | inspect

namespace ContainerStep

def work (c : Container SampleObject) : ContainerStep → Build SampleObject Reply
  | get id => return .value (← c.get id)
  | has id => return .flag (c.has id)
  | tagged tag => return .entries (c.tagged tag)
  | idsByType typeName => return Reply.texts (c.idsByType typeName)
  | findBy typeName => return Reply.texts ((c.idsByType typeName).map fun id => "<" ++ id ++ ">")
  | parameter key => return .value (← Build.ofOutcome (c.parameter key))
  | uniqueByType typeName => return .text (← Build.ofOutcome (c.lookup.uniqueByType typeName))
  | commands => return Reply.texts c.lookup.commands
  | getByType typeName => return .value (← c.getByType typeName)
  | evaluate n => return .value (← c.value n)
  | call id method args => do
    let v ← c.get id
    return .value (← Build.onHeap (·.invoke c.services v method args))
  | fluent id method args => do
    let v ← c.get id
    return .value (← Build.onHeap (·.fluent c.services v method args))
  | same a b => return .flag ((← c.get a).sameObject (← c.get b))
  | definition id => return RegistryStep.shown id c.registry
  | dump => return RegistryStep.dumped c.registry
  | .inspect => return .text (c.inspect (← MonadState.get))

def answerWork (work : Build SampleObject Reply) (b : Building SampleObject) :
    Answer × Building SampleObject :=
  let (result, b) := work b
  (.of b.heap (result.mapError .container), b)

def perform (c : Container SampleObject) (s : ContainerStep) (b : Building SampleObject) :
    Answer × Building SampleObject :=
  answerWork (s.work c) b

def run (c : Container SampleObject) (h : Heap SampleObject) (steps : List ContainerStep) :
    List Answer :=
  Answer.each (perform c) steps (Building.ofHeap h)

end ContainerStep

/-! ## constructors -/

inductive ConstructorStep where
  | register (more : Constructors SampleObject)
  | names
  | contains (name : String)
  | arity (name : String)
  | invoke (name : String) (args : List Value)
  | revive (name : String) (state : Value)

namespace ConstructorStep

/-- an arity in words, and whether it accepts no argument, one, and so on up to four -/
def arityReply (a : Arity) : Reply :=
  .list [.text a.describe, .list ((List.range 5).map fun n => .flag (a.accepts n))]

def perform (c : Container SampleObject) (s : ConstructorStep)
    (state : Constructors SampleObject × Building SampleObject) :
    Answer × Constructors SampleObject × Building SampleObject :=
  let (table, b) := state
  let told (r : Reply) := (Answer.of b.heap (.ok r), table, b)
  let run (construction : Construction SampleObject) :=
    let (a, b) := ContainerStep.answerWork (do return .value (← c.construct construction)) b
    (a, table, b)
  match s with
  | register more =>
    let table := OrderedMap.extend table more
    (.of b.heap (.ok (Reply.texts (OrderedMap.keys table))), table, b)
  | names =>
    let names := OrderedMap.keys table
    told (.list [Reply.texts names, .text (Text.quotedList names)])
  | contains name => told (.flag (OrderedMap.contains table name))
  | arity name =>
    told (Reply.optional (fun e => arityReply (Constructor.arity e)) (OrderedMap.get? table name))
  | invoke name args => run (table.start c.lookup name args)
  | revive name state => run (table.revive c.lookup name state)

end ConstructorStep

/-! ## the ids in flight -/

inductive StackStep where
  | enter (id : String)
  | leave

namespace StackStep

/-- carry a step out: the number of ids in flight -/
def perform (s : StackStep) (inFlight : List String) : Answer × List String :=
  let depth (ids : List String) := (Answer.of .empty (.ok (.count ids.length)), ids)
  match s with
  | enter id =>
    match Building.enter inFlight id with
    | .ok ids => depth ids
    | .error e => (.of .empty (.error (.container e)), inFlight)
  | leave => depth inFlight.dropLast

end StackStep
end ServiceGraph
