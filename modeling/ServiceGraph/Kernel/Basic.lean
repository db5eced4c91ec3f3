import ServiceGraph.Cache.Artifacts
import ServiceGraph.Config.Include
import ServiceGraph.Container.Basic
import ServiceGraph.Extension.Lifecycle
import ServiceGraph.Source.Compile

/-!
# Assembling an application

Configurations are loaded, the extensions are put in order, all register and boot, and the registry
is frozen. Then a container interprets it or it is compiled.

* `KernelError`: whatever can stop this;
* `Kernel`: everything that an application is assembled from;
* `Kernel.load`: the files laid over each other, then the inline configurations, then the
  parameters of the kernel;
* `Kernel.assemble`, `Kernel.container`, `Kernel.compile`: the frozen registry, a container over
  it, and the source it compiles to.
-/

namespace ServiceGraph

/-- whatever can stop the assembling of an application -/
inductive KernelError where
  | load (e : LoadError)
  | extension (e : ExtensionError)
  | registry (e : RegistryError)
  | container (e : ContainerError)
  | compile (e : CompileError)
  | cache (e : CacheError)
deriving DecidableEq, Repr

namespace KernelError

def message : KernelError → String
  | load e => e.message
  | extension e => e.message
  | registry e => e.message
  | container e => e.message
  | compile e => e.message
  | cache e => e.message

/-- the extension that raised the error, if it is known -/
def extension? : KernelError → Option String
  | extension e => e.extension?
  | _ => none

end KernelError

/-- everything that an application is assembled from; its extensions write in a journal of type `σ`
and its constructors make live objects of type `τ` -/
structure Kernel (σ τ : Type) where
  /-- configuration files, loaded with what they include -/
  files : List String
  /-- configurations given directly, laid over those of the files -/
  configs : List AppConfig
  /-- parameters, laid over those of the configurations -/
  parameters : OrderedMap Value
  extensions : List (Extension σ)
  catalog : Catalog σ
  /-- without constructors the names of constructors are not checked -/
  constructors : Option (Constructors τ)

namespace Kernel

variable {σ τ : Type}

def empty : Kernel σ τ := ⟨[], [], [], [], [], none⟩

def setParameter (k : Kernel σ τ) (key : String) (v : Value) : Kernel σ τ :=
  { k with parameters := ((Parameters.ofTree k.parameters).set key v).tree }

/-- all configurations laid over each other -/
def load (k : Kernel σ τ) (f : Files) : Except KernelError AppConfig := do
  let loaded ← (k.files.mapM (AppConfig.load f)).mapError .load
  let merged := AppConfig.empty.mergeAll (loaded ++ k.configs)
  let parameters := (Parameters.ofTree merged.parameters).merge k.parameters
  return { merged with parameters := parameters.tree }

def lifecycle (k : Kernel σ τ) (journal : σ) : Except KernelError (Lifecycle σ) × σ :=
  let (result, journal) := Lifecycle.resolve k.extensions k.catalog journal
  (result.mapError .extension, journal)

/-- run both phases over a configuration and freeze the registry -/
def build (l : Lifecycle σ) (c : AppConfig) (journal : σ) : Except KernelError Registry × σ :=
  let w : Workshop σ := ⟨Registry.ofParameters (Parameters.ofTree c.parameters), journal⟩
  match l.registerAll c.sections w with
  | (.error e, _, w) => (.error (.extension e), w.journal)
  | (.ok (), l, w) =>
    match l.bootAll w with
    | (.error e, _, w) => (.error (.extension e), w.journal)
    | (.ok (), _, w) => (w.registry.freeze.mapError .registry, w.journal)

def prepare (k : Kernel σ τ) (f : Files) (journal : σ) :
    Except KernelError (AppConfig × Lifecycle σ) × σ :=
  match k.load f with
  | .error e => (.error e, journal)
  | .ok c =>
    let (l, journal) := k.lifecycle journal
    (l.map (c, ·), journal)

def assemble (k : Kernel σ τ) (f : Files) (journal : σ) : Except KernelError Registry × σ :=
  match k.prepare f journal with
  | (.error e, journal) => (.error e, journal)
  | (.ok (c, l), journal) => build l c journal

def serve (k : Kernel σ τ) (services : Services τ) (r : Registry) :
    Except KernelError (Container τ) :=
  (Container.ofRegistry r (k.constructors.getD []) services).mapError .container

def container (k : Kernel σ τ) (services : Services τ) (f : Files) (journal : σ) :
    Except KernelError (Container τ) × σ :=
  let (r, journal) := k.assemble f journal
  (r.bind (k.serve services), journal)

/-- the source that a frozen registry compiles to; none when a live object has no end -/
def source? (k : Kernel σ τ) (services : Services τ) (h : Heap τ) (r : Registry) :
    Option (Except KernelError String) :=
  (Compile.compile r k.constructors services h .standard).run.map (·.mapError .compile)

def compile (k : Kernel σ τ) (services : Services τ) (h : Heap τ) (f : Files) (journal : σ) :
    Option (Except KernelError String) × σ :=
  match k.assemble f journal with
  | (.error e, journal) => (some (.error e), journal)
  | (.ok r, journal) => (k.source? services h r, journal)

end Kernel
end ServiceGraph
