import ServiceGraph.Live.Heap

/-!
# Constructors

A constructor builds a value from arguments. While it runs it may ask the container for other
services, and its errors are its own to handle.

* `Lookup`: the questions that a container answers at once;
* `Construction`: a run of a constructor, as the services it asks for and the work it does on the
  live objects;
* `Constructor`, `Constructors`: an arity with a run for each list of arguments, by name;
* `Constructors.start`: the run that a name and arguments begin;
* `Constructors.builtin`: the constructor of route collections.
-/

namespace ServiceGraph

/-- what a container tells without building anything; private services stay out of it -/
structure Lookup where
  has : String → Bool
  tagged : String → OrderedMap Value
  idsByType : String → List String
  parameter : String → Except ContainerError Value

namespace Lookup

def commandTag : String := "console.command"

def uniqueByType (l : Lookup) (typeName : String) : Except ContainerError String :=
  match l.idsByType typeName with
  | [] => .error (.missingCapability typeName)
  | [id] => .ok id
  | ids => .error (.ambiguousCapability typeName ids)

def commands (l : Lookup) : List String := (l.tagged commandTag).keys

end Lookup

/-- a run of a constructor -/
inductive Construction (σ : Type) where
  | done (result : Except ContainerError Value)
  /-- ask for a service and go on with what comes back -/
  | get (id : String) (next : Except ContainerError Value → Construction σ)
  /-- work on the live objects and go on with what comes of it -/
  | act (work : Heap σ → Heap.Outcome σ) (next : Except ContainerError Value → Construction σ)

namespace Construction

variable {σ : Type}

def create (o : LiveObject σ) : Construction σ :=
  act (·.create o) done

/-- the run asks for no service -/
def Standalone : Construction σ → Prop
  | done _ => True
  | get _ _ => False
  | act _ next => ∀ r, Standalone (next r)

end Construction

/-- a constructor: the arguments it accepts, and its run -/
structure Constructor (σ : Type) where
  arity : Arity
  run : Lookup → List Value → Construction σ

abbrev Constructors (σ : Type) := OrderedMap (Constructor σ)

namespace Constructors

variable {σ : Type}

def start (cs : Constructors σ) (l : Lookup) (name : String) (args : List Value) :
    Construction σ :=
  match cs.get? name with
  | none => .done (.error (.unknownCallable name))
  | some c =>
    if c.arity.accepts args.length then c.run l args
    else .done (.error (.arityMismatch name c.arity args.length))

def Standalone (cs : Constructors σ) : Prop :=
  ∀ name k, OrderedMap.get? cs name = some k → ∀ l args, (k.run l args).Standalone

/-- the run that brings an exported object back -/
def revive (cs : Constructors σ) (l : Lookup) (typeName : String) (state : Value) :
    Construction σ :=
  start cs l typeName [state]

/-- the constructor of route collections: empty without an argument, and otherwise with the
entries of an exported collection -/
def router : Constructor σ :=
  { arity := .range 0 1
    run := fun _ args =>
      match args.head? with
      | none => .create (.router [])
      | some exported =>
        match Router.revive exported with
        | .ok routes => .create (.router routes)
        | .error e => .done (.error e) }

def builtin : Constructors σ := [(Router.typeName, router)]

end Constructors
end ServiceGraph
