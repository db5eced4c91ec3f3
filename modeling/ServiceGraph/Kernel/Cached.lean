import ServiceGraph.Kernel.Basic
import ServiceGraph.Value.Written

/-!
# Compiling with a cache

* `AppConfig.written?`, `Kernel.fingerprint?`: a digest of everything besides the contents of files
  that shapes the registry. A live object in an inline configuration or a parameter has no text, and
  then there is no digest;
* `Compiled`: what comes of compiling with a cache;
* `Kernel.compileInto`: use an artifact again when it is fresh, and otherwise compile and store.
  When the artifact cannot be written, a container interprets the registry.
-/

namespace ServiceGraph

/-- the text of a configuration without its sources -/
def AppConfig.written? (c : AppConfig) : Option (List Char) :=
  let includes : OrderedMap Value :=
    if c.includes = [] then [] else [("includes", .list (c.includes.map .str))]
  (Value.map (("parameters", .map c.parameters) :: includes ++ c.sections)).written?

/-- what comes of compiling with a cache -/
inductive Compiled (τ : Type) where
  /-- a fresh artifact was there; no extension ran -/
  | reused (path : String)
  | written (path : String)
  | interpreted (c : Container τ)

namespace Compiled

def path? {τ : Type} : Compiled τ → Option String
  | reused path | written path => some path
  | interpreted _ => none

end Compiled

namespace Kernel

variable {σ τ : Type}

/-- the texts that tell one set of inputs from another: the files that were loaded, in order, the
inline configurations and the parameters -/
def inputTexts? (k : Kernel σ τ) (c : AppConfig) : Option (List String) := do
  let configs ← k.configs.mapM AppConfig.written?
  let parameters ← (Value.map k.parameters).written?
  return "files" :: c.sources ++ "configs" :: configs.map String.ofList ++
    ["parameters", String.ofList parameters]

def fingerprint? (k : Kernel σ τ) (c : AppConfig) : Option String :=
  (k.inputTexts? c).map Digest.ofParts

/-- the path of a fresh artifact that may be used again -/
def reusable? (cache : Artifacts) (f : Files) (order : List String) (inputs : Option String)
    (reuse : Bool) : Option String :=
  match inputs, reuse with
  | some inputs, true => (cache.lookup f order inputs).toOption
  | _, _ => none

/-- store the source of a registry, or serve the registry when that fails -/
def storeOrServe (k : Kernel σ τ) (cache : Artifacts) (services : Services τ) (f : Files)
    (order : List String) (inputs : Option String) (resources : List String) (r : Registry)
    (source : String) : Except KernelError (Compiled τ) × Files :=
  let inputs := inputs.getD (Digest.ofText source)
  match cache.store f order inputs resources source with
  | (.ok path, f) => (.ok (.written path), f)
  | (.error (.unwritable ..), f) => ((k.serve services r).map .interpreted, f)
  | (.error e, f) => (.error (.cache e), f)

/-- compile with a cache; without `reuse` the artifact is always written anew. Nothing comes of it
when a live object has no end. -/
def compileInto (k : Kernel σ τ) (cache : Artifacts) (reuse : Bool) (services : Services τ)
    (h : Heap τ) (f : Files) (journal : σ) :
    Option (Except KernelError (Compiled τ)) × Files × σ :=
  match k.prepare f journal with
  | (.error e, journal) => (some (.error e), f, journal)
  | (.ok (c, l), journal) =>
    let inputs := k.fingerprint? c
    match reusable? cache f l.order inputs reuse with
    | some path => (some (.ok (.reused path)), f, journal)
    | none =>
      match build l c journal with
      | (.error e, journal) => (some (.error e), f, journal)
      | (.ok r, journal) =>
        match k.source? services h r with
        | none => (none, f, journal)
        | some (.error e) => (some (.error e), f, journal)
        | some (.ok source) =>
          let (result, f) :=
            k.storeOrServe cache services f l.order inputs c.sources r source
          (some result, f, journal)

end Kernel
end ServiceGraph
