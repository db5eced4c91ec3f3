import ServiceGraph.Kernel.Basic
import ServiceGraph.Scenario.Objects
import ServiceGraph.Source.Template

/-!
# What a scenario shows

A scenario works on parts of the library step by step and looks at what each step gives back.

* `Fault`: why a step fails;
* `Reply`: what a step gives back, as a tree whose leaves are things of the domain;
* `Answer`: the outcome of a step, with the live objects as they are after it;
* `Answer.each`: the answers of steps carried out one after the other.
-/

namespace ServiceGraph

inductive Fault where
  | parameter (e : ParameterError)
  | assembly (e : AssemblyError)
  | schema (e : SchemaError)
  | registry (e : RegistryError)
  | container (e : ContainerError)
  | load (e : LoadError)
  | extension (e : ExtensionError)
  | template (e : TemplateError)
  | compile (e : CompileError)
  | cache (e : CacheError)
  | kernel (e : KernelError)

namespace Fault

def message : Fault → String
  | parameter e => e.message
  | assembly e => e.message
  | schema e => e.message
  | registry e => e.message
  | container e => e.message
  | load e => e.message
  | extension e => e.message
  | template e => e.message
  | compile e => e.message
  | cache e => e.message
  | kernel e => e.message

def extension? : Fault → Option String
  | extension e => e.extension?
  | kernel e => e.extension?
  | _ => none

end Fault

inductive Reply where
  | nothing
  | flag (b : Bool)
  | count (n : Nat)
  | text (s : String)
  | value (v : Value)
  | entries (m : OrderedMap Value)
  | node (n : Node)
  | definition (d : Definition)
  | parameters (p : Parameters)
  | group (g : RouteGroup)
  | collection (c : RouteCollection)
  | route (r : ResolvedRoute)
  | config (c : AppConfig)
  | list (items : List Reply)
  | record (fields : List (String × Reply))
  /-- an event, which shows the state of live objects anew -/
  | event (r : Reply)
  /-- outcomes of steps, each with the live objects after it -/
  | outcomes (items : List (Except Fault Reply × Heap SampleObject))

namespace Reply

def texts (items : List String) : Reply := .list (items.map .text)

def optional {α : Type} (f : α → Reply) : Option α → Reply
  | some a => f a
  | none => nothing

def isNothing : Reply → Bool
  | nothing => true
  | value v => v.isNull
  | _ => false

end Reply

structure Answer where
  outcome : Except Fault Reply
  /-- what extensions wrote down before a failure -/
  log : Option (List Reply)
  heap : Heap SampleObject

namespace Answer

def of (h : Heap SampleObject) (outcome : Except Fault Reply) : Answer := ⟨outcome, none, h⟩

/-- carry out steps one after the other -/
def each {Step State : Type} (perform : Step → State → Answer × State) :
    List Step → State → List Answer
  | [], _ => []
  | s :: rest, state =>
    let (answer, state) := perform s state
    answer :: each perform rest state

def together (answers : List Answer) : Reply :=
  .outcomes (answers.map fun a => (a.outcome, a.heap))

end Answer
end ServiceGraph
