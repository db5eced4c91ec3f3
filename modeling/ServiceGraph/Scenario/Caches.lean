import ServiceGraph.Cache.Artifacts
import ServiceGraph.Scenario.Reply

/-!
# Scenarios of files and caches

* `FileStep`: a step that changes files; `Scene.ofFiles`: files to begin with;
* `CacheStep`: a step on a cache of artifacts, with a manifest kept from step to step.
-/

namespace ServiceGraph

/-! ## files -/

inductive FileStep where
  | write (path : String) (content : List UInt8)
  | remove (path : String)
  | makeDirectory (path : String)

namespace FileStep

def perform (f : Files) : FileStep → Files
  | write path content =>
    let f := match (Path.ofText path).parent? with
      | some around => (f.makeDirectories around).2
      | none => f
    (f.write path content).toOption.getD f
  | remove path => (f.remove path).toOption.getD f
  | makeDirectory path => (f.makeDirectories (Path.ofText path)).2

def home : Place := [".scenario-of-files", "tmp"]

def scene (files : List (String × List UInt8)) : Files :=
  files.foldl (fun f e => (write e.1 e.2).perform f) (Files.emptyAt home)

end FileStep

/-! ## caches -/

structure ManifestEdit where
  schema : Option String
  generator : Option String
  key : Option String
  artifactHash : Option String
  /-- resources with their digests, set one after the other -/
  resources : List (String × String)

def ManifestEdit.apply (e : ManifestEdit) (m : Manifest) : Manifest :=
  { m with
    schema := e.schema.getD m.schema
    generator := e.generator.getD m.generator
    key := e.key.getD m.key
    artifactHash := e.artifactHash.getD m.artifactHash
    resources := OrderedMap.extend m.resources e.resources }

inductive CacheStep where
  | store (extensions : List String) (inputs : String) (resources : List String)
      (source : String)
  | lookup (extensions : List String) (inputs : String)
  /-- load the manifest of a key and keep it -/
  | load (key : String)
  | edit (e : ManifestEdit)
  | check (extensions : List String) (inputs : String)
  | save (path : String)
  | loadPath (path : String)
  | digest (path : String)
  | paths (key : String)
  | read (path : String)
  | list
  | file (s : FileStep)

namespace CacheStep

/-- files, and the manifest that is kept -/
abbrev State := Files × Option Manifest

def resourcesReply (m : Manifest) : Reply :=
  .list (m.resources.map fun r => Reply.texts [r.1, r.2])

def manifestReply (m : Manifest) : Reply :=
  .record [
    ("schema", .text m.schema), ("generator", .text m.generator), ("key", .text m.key),
    ("extensions", Reply.texts m.extensions), ("inputs", .text m.inputs),
    ("artifact_hash", .text m.artifactHash), ("resources", resourcesReply m),
    ("rerun", Reply.texts (OrderedMap.keys m.resources))]

/-- the name of a reason without its path -/
def stalenessName : Staleness → String
  | .noManifest => "NoManifest"
  | .generatorChanged => "GeneratorChanged"
  | .extensionsChanged => "ExtensionsChanged"
  | .inputsChanged => "InputsChanged"
  | .resourceMissing _ => "ResourceMissing"
  | .resourceChanged _ => "ResourceChanged"
  | .artifactMissing => "ArtifactMissing"
  | .artifactChanged => "ArtifactChanged"

def loadedReply (m : Except CacheError (Option Manifest)) : Except Fault Reply :=
  (m.mapError .cache).map (Reply.optional manifestReply)

def outcome (a : Artifacts) (s : CacheStep) (state : State) : Except Fault Reply × State :=
  let (f, current) := state
  let told (r : Reply) : Except Fault Reply × State := (.ok r, state)
  match s with
  | store extensions inputs resources source =>
    let (result, f) := a.store f extensions inputs resources source
    ((result.mapError .cache).map .text, f, current)
  | lookup extensions inputs =>
    told <| match a.lookup f extensions inputs with
      | .ok path => .record [("path", .text path)]
      | .error e =>
        .record [("stale", .text (stalenessName e)), ("text", .text e.message)]
  | load key =>
    let loaded := a.loadManifest f key
    (loadedReply loaded, f, match loaded with | .ok m => m | .error _ => current)
  | edit e =>
    let current := current.map e.apply
    (.ok (Reply.optional manifestReply current), f, current)
  | check extensions inputs =>
    told <| current.elim .nothing fun m =>
      match a.check f m extensions inputs with
      | .ok () => .record [("fresh", .flag true)]
      | .error e => .record [("fresh", .flag false), ("text", .text e.message)]
  | save path =>
    match current with
    | none => told .nothing
    | some m =>
      let (result, f) := m.save f path
      ((result.mapError .cache).map fun _ => .nothing, f, current)
  | loadPath path => (loadedReply (Manifest.load f path), state)
  | digest path => (((f.digest path).mapError .cache).map .text, state)
  | paths key => told (Reply.texts [a.directory, a.artifactPath key, a.manifestPath key])
  | read path => told (Reply.optional .text (f.readText path).toOption)
  | list => told (Reply.texts f.listing)
  | file s => (.ok .nothing, s.perform f, current)

def perform (a : Artifacts) (s : CacheStep) (state : State) : Answer × State :=
  let (outcome, state) := s.outcome a state
  (.of .empty outcome, state)

end CacheStep
end ServiceGraph
