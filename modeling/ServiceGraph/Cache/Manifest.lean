import ServiceGraph.Digest.Text
import ServiceGraph.Files.Tree
import ServiceGraph.Source.Module
import ServiceGraph.Yaml.Reading
import ServiceGraph.Yaml.Written

/-!
# Manifests of compiled artifacts

* `CacheError`: why a file of the cache cannot be used;
* `Manifest`: everything that contributed to one artifact;
* `Manifest.toText`, `Manifest.ofText?`: a manifest as a document;
* `Manifest.load`, `Manifest.save`: a manifest in a file.
-/

namespace ServiceGraph

/-- why a file of the cache cannot be used -/
inductive CacheError where
  | unreadable (path : String) (fault : FileFault)
  | unwritable (path : String) (fault : FileFault)
  | invalidManifest (path : String)
deriving DecidableEq, Repr

def CacheError.message : CacheError → String
  | unreadable path fault => "cannot read " ++ path ++ ": " ++ fault.message
  | unwritable path fault =>
    "cannot write compiled artifact " ++ path ++ ": " ++ fault.message
  | invalidManifest path => "invalid manifest " ++ path

namespace Files

def digest (f : Files) (path : String) : Except CacheError String :=
  match f.read path with
  | .ok content => .ok (Digest.ofBytes content)
  | .error fault => .error (.unreadable path fault)

def store (f : Files) (path text : String) : Except CacheError Unit × Files :=
  let (result, f) := f.replace path (Digest.bytes text)
  (result.mapError (.unwritable path), f)

end Files

/-- everything that contributed to one artifact -/
structure Manifest where
  schema : String
  /-- what has compiled the artifact -/
  generator : String
  key : String
  extensions : List String
  /-- a digest of what contributed besides the contents of files -/
  inputs : String
  /-- the digests of the files that contributed, by their paths -/
  resources : OrderedMap String
  artifactHash : String
deriving DecidableEq, Repr

namespace Manifest

open Yaml (Document Tree Reading Written.text Written.list Written.map)

def currentSchema : String := "1.0"

def toText (m : Manifest) : String :=
  String.ofList (Written.map [
    ("schema", Written.text m.schema),
    ("generator", Written.text m.generator),
    ("key", Written.text m.key),
    ("extensions", Written.list (m.extensions.map Written.text)),
    ("inputs", Written.text m.inputs),
    ("resources", Written.map (m.resources.map fun r => (r.1, Written.text r.2))),
    ("artifact_hash", Written.text m.artifactHash)])

/-- a manifest; every field is needed, and other keys are passed over -/
def read (d : Document) (t : Tree) : Reading Manifest := do
  let es ← Reading.entries d Reading.depth t
  let text (key : String) : Reading String := Reading.field es key none (Reading.text d)
  let schema ← text "schema"
  let generator ← text "generator"
  let key ← text "key"
  let extensions ← Reading.field es "extensions" none fun t => do
    (← Reading.items d (Reading.depth - 1) t).mapM (Reading.text d)
  let inputs ← text "inputs"
  let resources ← Reading.field es "resources" none fun t => do
    (← Reading.entries d (Reading.depth - 1) t).mapM fun (k, t) => do
      return (k, ← Reading.text d t)
  let artifactHash ← text "artifact_hash"
  return { schema, generator, key, extensions, inputs, artifactHash,
           resources := OrderedMap.ofList resources }

def ofText? (text : String) : Option Manifest := Document.read? read text

/-- the manifest in a file; none if there is no file -/
def load (f : Files) (path : String) : Except CacheError (Option Manifest) :=
  if f.exists? path then
    match f.readText path with
    | .error fault => .error (.unreadable path fault)
    | .ok text =>
      match ofText? text with
      | some m => .ok (some m)
      | none => .error (.invalidManifest path)
  else .ok none

def save (m : Manifest) (f : Files) (path : String) : Except CacheError Unit × Files :=
  f.store path m.toText

end Manifest
end ServiceGraph
