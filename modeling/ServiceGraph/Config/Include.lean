import ServiceGraph.Config.Reading
import ServiceGraph.Files.Pattern

/-!
# Loading configurations with what they include

A configuration is laid over everything that it includes. Its patterns are followed in order, and
the files of a pattern in the order of their paths.

* `ConfigFiles`: files as the loading sees them;
* `ConfigFiles.load`: a file and what it includes. A file that comes up again while it is being
  loaded is a cycle; a file that comes up again later is loaded again;
* `AppConfig.load`: the same over a tree of files.
-/

namespace ServiceGraph

/-- files as the loading of configurations sees them -/
structure ConfigFiles where
  /-- the path that stands for a file, whatever path leads to it -/
  canonical : String → Except FileFault String
  /-- the text of every file, by the path that stands for it -/
  contents : OrderedMap (Except FileFault String)
  /-- what an include pattern names in a file, in order; a pattern may be malformed -/
  matching? : (file pattern : String) → Option (List String)

namespace ConfigFiles

/-- the files that are not being loaded become fewer with every file that is -/
theorem length_filter_opening {opening : List String} {file : String} (keys : List String)
    (hk : file ∈ keys) (hn : file ∉ opening) :
    (keys.filter (· ∉ file :: opening)).length < (keys.filter (· ∉ opening)).length := by
  have hle (rest : List String) : (rest.filter (· ∉ file :: opening)).length ≤
      (rest.filter (· ∉ opening)).length := by
    simp only [← List.countP_eq_length_filter]
    exact List.countP_mono_left fun x _ hx => by simp at hx ⊢; exact hx.2
  induction keys with
  | nil => simp at hk
  | cons k rest ih =>
    by_cases h : k = file
    · subst h
      simpa [List.filter_cons, hn] using Nat.lt_succ_of_le (by simpa using hle rest)
    · have := ih (by simpa [Ne.symm h] using hk)
      by_cases ho : k ∈ opening <;> simp_all

/-- load a file and what it includes, while these files are being loaded -/
def loadWhile (s : ConfigFiles) (opening : List String) (path : String) :
    Except LoadError AppConfig :=
  match s.canonical path with
  | .error fault => .error (.io path fault)
  | .ok file =>
    if ho : file ∈ opening then .error (.includeCycle file)
    else match hc : OrderedMap.get? s.contents file with
      | none => .error (.io file .isADirectory)
      | some (.error fault) => .error (.io file fault)
      | some (.ok text) => do
        have := length_filter_opening _ (OrderedMap.mem_keys_of_get? hc) ho
        let own ← AppConfig.ofText file text
        let included ← own.includes.mapM fun pattern =>
          match s.matching? file pattern with
          | none => .error (.pattern pattern)
          | some paths => paths.mapM (s.loadWhile (file :: opening))
        return (AppConfig.empty.mergeAll included.flatten).merge
          { own with sources := own.sources ++ [file] }
termination_by (s.contents.keys.filter (· ∉ opening)).length
decreasing_by simpa using this

def load (s : ConfigFiles) (path : String) : Except LoadError AppConfig := s.loadWhile [] path

def ofFiles (f : Files) : ConfigFiles where
  canonical path := (f.locate path).map Place.path
  contents := f.entries.filterMap fun (place, entry) =>
    match entry with
    | .file content => some (Place.path place, Files.textOf content)
    | .directory => none
  matching? file pattern :=
    let around : Place := (Path.ofText file).names.dropLast.reverse
    f.matching? (Path.join around.path pattern)

end ConfigFiles

def AppConfig.load (f : Files) (path : String) : Except LoadError AppConfig :=
  (ConfigFiles.ofFiles f).load path

end ServiceGraph
