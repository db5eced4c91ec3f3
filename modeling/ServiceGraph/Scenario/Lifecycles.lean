import ServiceGraph.Extension.Lifecycle
import ServiceGraph.Scenario.Extensions

/-!
# Scenarios of a lifecycle

* `LifecycleStep`: a phase of the lifecycle, a question, or a step on its registry;
* `LifecycleStep.perform`: a step carried out.
-/

namespace ServiceGraph

inductive LifecycleStep where
  | register (configs : OrderedMap Value)
  | boot
  | isBooted
  | order
  | step (s : RegistryStep)

structure LifecycleRun where
  lifecycle : Lifecycle Journal
  registry : Registry

namespace LifecycleStep

/-- the answer of a phase: what the extensions wrote down, also when it fails -/
def phase (h : Heap SampleObject)
    (run : Workshop Journal →
      Except ExtensionError Unit × Lifecycle Journal × Workshop Journal)
    (state : LifecycleRun) : Answer × LifecycleRun :=
  let (result, lifecycle, w) := run ⟨state.registry, []⟩
  let answer : Answer := match result with
    | .ok () => .of h (.ok (.record [("log", Journal.reply w.journal)]))
    | .error e => ⟨.error (.extension e), some w.journal, h⟩
  (answer, ⟨lifecycle, w.registry⟩)

def perform (h : Heap SampleObject) (s : LifecycleStep) (state : LifecycleRun) :
    Answer × LifecycleRun :=
  match s with
  | register configs => phase h (state.lifecycle.registerAll configs) state
  | boot => phase h state.lifecycle.bootAll state
  | isBooted => (.of h (.ok (.flag state.lifecycle.isBooted)), state)
  | order => (.of h (.ok (Reply.texts state.lifecycle.order)), state)
  | step s =>
    let (answer, registry) := s.answer h state.registry
    (answer, { state with registry })

end LifecycleStep
end ServiceGraph
