import ServiceGraph.Cache.Manifest

/-!
# Compiled artifacts in a directory

Every artifact has a key. Under the directory its text is in `KEY.rs`, and what it was made of in
`KEY.manifest.yaml`.

* `Artifacts`: the directory; `Artifacts.keyFor`: the key of extensions and inputs;
* `Staleness`: why an artifact cannot be used again;
* `Artifacts.check`, `Artifacts.lookup`: whether an artifact can be used again;
* `Artifacts.store`: write an artifact and its manifest.
-/

namespace ServiceGraph

/-- why an artifact cannot be used again -/
inductive Staleness where
  | noManifest
  | generatorChanged
  | extensionsChanged
  | inputsChanged
  | resourceMissing (path : String)
  | resourceChanged (path : String)
  | artifactMissing
  | artifactChanged
deriving DecidableEq, Repr

def Staleness.message : Staleness → String
  | noManifest => "no manifest"
  | generatorChanged => "generator version changed"
  | extensionsChanged => "extension list changed"
  | inputsChanged => "kernel inputs changed"
  | resourceMissing path => "resource " ++ path ++ " is missing"
  | resourceChanged path => "resource " ++ path ++ " changed"
  | artifactMissing => "artifact is missing"
  | artifactChanged => "artifact was modified"

/-- a directory of compiled artifacts -/
structure Artifacts where
  directory : String
deriving DecidableEq, Repr

namespace Artifacts

def artifactPath (a : Artifacts) (key : String) : String :=
  Path.join a.directory (key ++ ".rs")

def manifestPath (a : Artifacts) (key : String) : String :=
  Path.join a.directory (key ++ ".manifest.yaml")

/-- the key of ordered extensions and of a digest of inputs -/
def keyFor (extensions : List String) (inputs : String) : String :=
  Digest.key (extensions ++ [inputs])

def loadManifest (a : Artifacts) (f : Files) (key : String) :
    Except CacheError (Option Manifest) :=
  Manifest.load f (a.manifestPath key)

/-- see that the resources have the contents they had -/
def checkResources (f : Files) : List (String × String) → Except Staleness Unit
  | [] => .ok ()
  | (path, expected) :: rest =>
    match f.digest path with
    | .ok found =>
      if found = expected then checkResources f rest else .error (.resourceChanged path)
    | .error _ => .error (.resourceMissing path)

def check (a : Artifacts) (f : Files) (m : Manifest) (extensions : List String)
    (inputs : String) : Except Staleness Unit := do
  if m.generator ≠ Source.generator then throw .generatorChanged
  if m.extensions ≠ extensions then throw .extensionsChanged
  if m.inputs ≠ inputs then throw .inputsChanged
  checkResources f m.resources
  match f.digest (a.artifactPath m.key) with
  | .ok found => if found = m.artifactHash then return () else throw .artifactChanged
  | .error _ => throw .artifactMissing

/-- the path of an artifact that can be used again, or why there is none -/
def lookup (a : Artifacts) (f : Files) (extensions : List String) (inputs : String) :
    Except Staleness String := do
  let key := keyFor extensions inputs
  match a.loadManifest f key with
  | .ok (some m) =>
    a.check f m extensions inputs
    return a.artifactPath key
  | .ok none | .error _ => throw .noManifest

/-- the digests of files, by their paths from the root on -/
def digests (f : Files) : List String → OrderedMap String → Except CacheError (OrderedMap String)
  | [], found => .ok found
  | path :: rest, found =>
    match Path.absolute? f.here.path path with
    | none => .error (.unreadable path .emptyPath)
    | some absolute => do digests f rest (found.insert absolute (← f.digest absolute))

/-- write an artifact and its manifest, and give the path of the artifact -/
def store (a : Artifacts) (f : Files) (extensions : List String) (inputs : String)
    (resources : List String) (source : String) : Except CacheError String × Files :=
  match digests f resources [] with
  | .error e => (.error e, f)
  | .ok found =>
    let key := keyFor extensions inputs
    let m : Manifest :=
      { schema := Manifest.currentSchema, generator := Source.generator, key, extensions, inputs
        resources := found, artifactHash := Digest.ofText source }
    match f.store (a.artifactPath key) source with
    | (.error e, f) => (.error e, f)
    | (.ok (), f) =>
      let (saved, f) := m.save f (a.manifestPath key)
      (saved.map fun _ => a.artifactPath key, f)

end Artifacts
end ServiceGraph
