import ServiceGraph.Registry.Change
import ServiceGraph.Schema
import ServiceGraph.Config.Basic

/-!
# Extensions

An extension registers definitions and contributions, and finishes its work at boot, after every
extension has registered.

* `ExtensionError`: what stops an extension or the ordering of extensions;
* `Program σ α`: what a callback does to the registry, as data. It sees the registry, changes it by
  the public operations and may write in a journal of type `σ`; it handles their failures itself;
* `Program.run`: a program carried out;
* `Extension σ`: a name, dependencies, the schema of its configuration block, and the program of
  its registration, which leaves the program of its boot;
* `Catalog σ`: constructors of extensions that may be pulled in as dependencies.
-/

namespace ServiceGraph

/-- the two callbacks of an extension -/
inductive Phase where
  | register
  | boot
deriving DecidableEq, Repr

def Phase.name : Phase → String
  | register => "register"
  | boot => "boot"

/-- what stops an extension, or the ordering of extensions -/
inductive ExtensionError where
  | cyclicDependency (cycle : List String)
  | missing (name requiredBy : String)
  | duplicate (name : String)
  | invalidConfig (name : String) (e : SchemaError)
  | unknownSection (name : String)
  | outOfPhase (attempted state : String)
  | failed (name : String) (phase : Phase) (e : ExtensionError)
  | registry (e : RegistryError)
  | assembly (e : AssemblyError)
  | load (e : LoadError)
  | custom (message : String)
deriving DecidableEq, Repr

namespace ExtensionError

def message : ExtensionError → String
  | cyclicDependency cycle => "cyclic extension dependency: " ++ " -> ".intercalate cycle
  | missing name requiredBy =>
    "extension '" ++ requiredBy ++ "' depends on '" ++ name ++ "', which is not available"
  | duplicate name => "extension '" ++ name ++ "' is listed more than once"
  | invalidConfig name e => "invalid configuration for '" ++ name ++ "': " ++ e.message
  | unknownSection name =>
    "configuration section '" ++ name ++ "' has no matching extension"
  | outOfPhase attempted state =>
    "cannot " ++ attempted ++ " while the lifecycle is " ++ state
  | failed name phase e =>
    "extension '" ++ name ++ "' failed during " ++ phase.name ++ ": " ++ e.message
  | registry e => e.message
  | assembly e => e.message
  | load e => e.message
  | custom message => message

/-- the extension that raised the error, if it is known -/
def extension? : ExtensionError → Option String
  | failed name _ _ => some name
  | invalidConfig name _ => some name
  | missing _ requiredBy => some requiredBy
  | _ => none

def ofChange : ChangeError → ExtensionError
  | .registry e => registry e
  | .assembly e => assembly e

end ExtensionError

/-- what a callback does -/
inductive Program (σ α : Type) where
  | done (result : Except ExtensionError α)
  | view (next : Registry → Program σ α)
  | change (c : RegistryChange) (next : Except ChangeError Unit → Program σ α)
  | assemble (pipeline : String) (next : Except ChangeError (List Node) → Program σ α)
  | flatten (order : List String) (next : Except ChangeError RouteTable → Program σ α)
  | note (write : σ → σ) (next : Program σ α)

/-- the registry and the journal of the extensions -/
structure Workshop (σ : Type) where
  registry : Registry
  journal : σ

namespace Program

variable {σ α β : Type}

def bind : Program σ α → (α → Program σ β) → Program σ β
  | done (.ok a), f => f a
  | done (.error e), _ => done (.error e)
  | view next, f => view fun r => (next r).bind f
  | change c next, f => change c fun r => (next r).bind f
  | assemble pipeline next, f => assemble pipeline fun r => (next r).bind f
  | flatten order next, f => flatten order fun r => (next r).bind f
  | note write next, f => note write (next.bind f)

instance : Monad (Program σ) where
  pure a := done (.ok a)
  bind := bind

def fail (e : ExtensionError) : Program σ α := done (.error e)

/-- an outcome, or an error that stops the program -/
def ofChange : Except ChangeError α → Program σ α
  | .ok a => done (.ok a)
  | .error e => fail (.ofChange e)

def look : Program σ Registry := view fun r => done (.ok r)

/-- change the registry, and stop when that fails -/
def apply (c : RegistryChange) : Program σ Unit := change c ofChange

def applyAll : List RegistryChange → Program σ Unit
  | [] => done (.ok ())
  | c :: cs => change c fun r => (ofChange r).bind fun _ => applyAll cs

def run : Program σ α → Workshop σ → Except ExtensionError α × Workshop σ
  | done result, w => (result, w)
  | view next, w => (next w.registry).run w
  | change c next, w =>
    let (result, registry) := w.registry.change c
    (next result).run { w with registry }
  | assemble pipeline next, w =>
    let (result, registry) := w.registry.assemblePipeline pipeline
    (next result).run { w with registry }
  | flatten order next, w =>
    let (result, registry) := w.registry.flattenRoutes order
    (next result).run { w with registry }
  | note write next, w => next.run { w with journal := write w.journal }

end Program

/-- a dependency on another extension: its name, and the arguments for its constructor if it has
to be pulled in -/
structure Dependency where
  name : String
  args : Value
deriving DecidableEq

/-- a self-contained module of configuration -/
structure Extension (σ : Type) where
  name : String
  dependencies : List Dependency
  schema : Option Schema
  /-- what it does with its configuration, and what it leaves to be done at boot -/
  register : Value → Program σ (Program σ Unit)

def Extension.inspect {σ : Type} (e : Extension σ) : String := "Extension(" ++ e.name ++ ")"

/-- constructors of extensions by name; a constructor may write in the journal -/
abbrev Catalog (σ : Type) := OrderedMap (Value → σ → Except ExtensionError (Extension σ) × σ)

end ServiceGraph
