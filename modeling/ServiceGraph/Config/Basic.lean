import ServiceGraph.Value.Merge
import ServiceGraph.Files.Fault

/-!
# Application configurations

* `AppConfig`: parameters, include patterns, one section for each extension, and the files that
  contributed;
* `AppConfig.merge`: one configuration laid over another;
* `LoadError`: why a configuration cannot be loaded.
-/

namespace ServiceGraph

/-- why a configuration cannot be loaded -/
inductive LoadError where
  | io (path : String) (fault : FileFault)
  /-- the text is no document, or the document no configuration -/
  | yaml (origin : String)
  | pattern (pattern : String)
  | includeCycle (path : String)
  | invalidService (id message : String)
deriving DecidableEq, Repr

def LoadError.message : LoadError → String
  | io path fault => "failed to read " ++ path ++ ": " ++ fault.message
  | yaml origin => "YAML parse error in " ++ origin
  | pattern p => "invalid include pattern '" ++ p ++ "'"
  | includeCycle path => "include cycle through " ++ path
  | invalidService id message => "service '" ++ id ++ "': " ++ message

structure AppConfig where
  parameters : OrderedMap Value
  /-- patterns of further files, relative to the file that names them -/
  includes : List String
  sections : OrderedMap Value
  /-- the files that contributed, in the order of loading -/
  sources : List String
deriving DecidableEq, Repr

namespace AppConfig

def empty : AppConfig := ⟨[], [], [], []⟩

/-- lay another configuration over this one; its includes do not come along -/
def merge (base top : AppConfig) : AppConfig :=
  { base with
    parameters := Value.mergeEntries base.parameters top.parameters
    sections := Value.mergeEntries base.sections top.sections
    sources := base.sources ++ top.sources }

/-- configurations laid over each other, the later over the earlier -/
def mergeAll (base : AppConfig) (tops : List AppConfig) : AppConfig :=
  tops.foldl merge base

end AppConfig
end ServiceGraph
