import ServiceGraph.Extension.Basic

/-!
# The order of extensions

Every extension comes after its dependencies, and otherwise extensions keep the order in which they
were supplied. A dependency that was not supplied is built from the catalog.

* `Sorting`: the extensions known so far, the names in their final order, and the journal;
* `Sorting.visit`: put a name after its dependencies;
* `resolveOrder`: the extensions in their order.
-/

namespace ServiceGraph

structure Sorting (σ : Type) where
  /-- the extensions, supplied or built, by the name they were asked for -/
  pool : OrderedMap (Extension σ)
  /-- the names that have their place -/
  order : List String
  journal : σ

/-- ordering that may fail; what was written in the journal remains -/
abbrev Placing (σ α : Type) := ExceptT ExtensionError (StateM (Sorting σ)) α

namespace Sorting

variable {σ : Type}

def ensure (catalog : Catalog σ) (requiredBy : String) (d : Dependency) : Placing σ Unit :=
  fun s =>
    if s.pool.contains d.name then (.ok (), s)
    else match catalog.get? d.name with
      | none => (.error (.missing d.name requiredBy), s)
      | some build =>
        match build d.args s.journal with
        | (.error e, journal) => (.error e, { s with journal })
        | (.ok e, journal) => (.ok (), { s with pool := s.pool.insert d.name e, journal })

/-- visit dependencies in order, each when it is in the pool -/
def visitAll (catalog : Catalog σ) (visit : String → Placing σ Unit) (requiredBy : String) :
    List Dependency → Placing σ Unit
  | [] => pure ()
  | d :: ds => do
    ensure catalog requiredBy d
    visit d.name
    visitAll catalog visit requiredBy ds

def dependencies (s : Sorting σ) (name : String) : List Dependency :=
  ((s.pool.get? name).map Extension.dependencies).getD []

def place (s : Sorting σ) (name : String) : Sorting σ := { s with order := s.order ++ [name] }

@[simp] theorem place_pool (s : Sorting σ) (name : String) : (s.place name).pool = s.pool := rfl
@[simp] theorem place_order (s : Sorting σ) (name : String) :
    (s.place name).order = s.order ++ [name] := rfl
@[simp] theorem place_journal (s : Sorting σ) (name : String) :
    (s.place name).journal = s.journal := rfl

/-- give a name its place after its dependencies. `path` holds the names that wait for it. No
name waits for itself, so `room` need not exceed the number of names. -/
def visit (catalog : Catalog σ) (room : Nat) (path : List String) (name : String) :
    Placing σ Unit :=
  fun s =>
    if name ∈ s.order then (.ok (), s)
    else if name ∈ path then
      (.error (.cyclicDependency (path.dropWhile (· ≠ name) ++ [name])), s)
    else
      match room with
      | 0 => (.error (.cyclicDependency (path ++ [name])), s)
      | room + 1 =>
        let inner := visit catalog room (path ++ [name])
        match visitAll catalog inner name (s.dependencies name) s with
        | (.ok (), t) => (.ok (), t.place name)
        | (.error e, t) => (.error e, t)

def visitRoots (catalog : Catalog σ) (room : Nat) : List String → Placing σ Unit
  | [] => pure ()
  | name :: rest => do
    visit catalog room [] name
    visitRoots catalog room rest

/-- the supplied extensions by name; no name may come twice -/
def supplied : List (Extension σ) → OrderedMap (Extension σ) →
    Except ExtensionError (OrderedMap (Extension σ))
  | [], pool => .ok pool
  | e :: es, pool =>
    if pool.contains e.name then .error (.duplicate e.name)
    else supplied es (pool ++ [(e.name, e)])

end Sorting

/-- extensions with every dependency before its dependents -/
def resolveOrder {σ : Type} (extensions : List (Extension σ)) (catalog : Catalog σ)
    (journal : σ) : Except ExtensionError (List (Extension σ)) × σ :=
  match Sorting.supplied extensions [] with
  | .error e => (.error e, journal)
  | .ok pool =>
    let room := pool.length + catalog.length
    match Sorting.visitRoots catalog room pool.keys ⟨pool, [], journal⟩ with
    | (.error e, s) => (.error e, s.journal)
    | (.ok (), s) => (.ok (s.order.filterMap s.pool.get?), s.journal)

end ServiceGraph
