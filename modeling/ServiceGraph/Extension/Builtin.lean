import ServiceGraph.Extension.Builtin.Services
import ServiceGraph.Extension.Builtin.Http

/-!
# The built-in extensions

* `Builtin.names`: their names;
* `Builtin.catalog`: both can be pulled in as dependencies;
* `Builtin.forSections`: those that some sections need.
-/

namespace ServiceGraph.Builtin

def names : List String := [DeclaredServices.name, Http.name]

variable {σ : Type}

def catalog : Catalog σ :=
  [ (DeclaredServices.name, fun _ journal => (.ok DeclaredServices.extension, journal)),
    (Http.name, fun _ journal => (.ok Http.extension, journal)) ]

/-- the extensions that these sections need; declared services always take part -/
def forSections (sections : List String) : List (Extension σ) :=
  DeclaredServices.extension :: if sections.contains Http.name then [Http.extension] else []

end ServiceGraph.Builtin
