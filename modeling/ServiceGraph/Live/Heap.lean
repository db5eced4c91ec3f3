import ServiceGraph.Live.Router

/-!
# Live objects

Objects live on a heap and are known by their position. Besides route collections there are
objects of a type `σ` that the application brings along.

* `LiveObject`, `Heap`: the objects;
* `Services σ`: how the application's own objects name themselves, export their state and answer
  calls;
* `Heap.invoke`: call a method of a value. An object in the middle of a call refuses a second one;
* `Heap.fluent`: call a method and go on with its result, or with the receiver when the result is
  null.
-/

namespace ServiceGraph

inductive LiveObject (σ : Type) where
  | router (routes : Router)
  | custom (state : σ)
deriving Repr

/-- the live objects, each at the position that is its identity -/
structure Heap (σ : Type) where
  objects : List (LiveObject σ)

namespace Heap

variable {σ : Type}

def empty : Heap σ := ⟨[]⟩

def get? (h : Heap σ) (id : ObjectId) : Option (LiveObject σ) := h.objects[id.index]?

def alloc (h : Heap σ) (o : LiveObject σ) : ObjectId × Heap σ :=
  (⟨h.objects.length⟩, ⟨h.objects ++ [o]⟩)

def put (h : Heap σ) (id : ObjectId) (o : LiveObject σ) : Heap σ :=
  ⟨h.objects.set id.index o⟩

abbrev Outcome (σ : Type) := Except ContainerError Value × Heap σ

def create (h : Heap σ) (o : LiveObject σ) : Outcome σ :=
  let (id, h) := h.alloc o
  (.ok (.service id), h)

end Heap

/-- how an application's own objects behave -/
structure Services (σ : Type) where
  typeName : σ → String
  /-- the state as a value, for writing it down -/
  exported : σ → Value
  /-- answer a call; `busy` are the objects in the middle of a call, the receiver included -/
  call : (busy : List ObjectId) → (self : ObjectId) → σ → (method : String) → List Value →
    Heap σ → Heap.Outcome σ

namespace LiveObject

variable {σ : Type}

def typeName (s : Services σ) : LiveObject σ → String
  | router _ => Router.typeName
  | custom state => s.typeName state

def exported (s : Services σ) : LiveObject σ → Value
  | router routes => routes.exported
  | custom state => s.exported state

end LiveObject

namespace Heap

variable {σ : Type}

/-- call a method of a value; `answer` is how the application's own objects answer -/
def invokeWith
    (answer : List ObjectId → ObjectId → σ → String → List Value → Heap σ → Outcome σ)
    (busy : List ObjectId) (receiver : Value) (method : String) (args : List Value)
    (h : Heap σ) : Outcome σ :=
  match receiver with
  | .service id =>
    if busy.contains id then (.error (.reentrantCall method), h)
    else match h.get? id with
      | some (.router routes) =>
        let (result, routes) := Router.call routes method args
        (result, h.put id (.router routes))
      | some (.custom state) => answer (id :: busy) id state method args h
      | none => (.error (.notAService method receiver.kind), h)
  | _ => (.error (.notAService method receiver.kind), h)

/-- call a method of a value while no object is being called -/
def invoke (s : Services σ) (receiver : Value) (method : String) (args : List Value)
    (h : Heap σ) : Outcome σ :=
  h.invokeWith s.call [] receiver method args

/-- call a method and go on with its result, or with the receiver when the result is null -/
def fluent (s : Services σ) (receiver : Value) (method : String) (args : List Value)
    (h : Heap σ) : Outcome σ :=
  match h.invoke s receiver method args with
  | (.ok .null, h) => (.ok receiver, h)
  | outcome => outcome

def typeNameOf (s : Services σ) (h : Heap σ) (id : ObjectId) : String :=
  ((h.get? id).map (LiveObject.typeName s)).getD ""

def exportedBy (s : Services σ) (h : Heap σ) (id : ObjectId) : Value :=
  ((h.get? id).map (LiveObject.exported s)).getD .null

end Heap
end ServiceGraph
