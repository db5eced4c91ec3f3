import ServiceGraph.Pipeline
import ServiceGraph.Routes.Table

/-!
# Assembling the route table

Collections may be configured before they are created. What arrives early is kept and laid over
the collection when it comes.

* `RouteAssembler`: root routes, collections, and what was configured early;
* `RouteAssembler.addRoot`, `configure`, `create`, `edit`: contributions;
* `RouteAssembler.checkConsumed`: everything configured early has found its collection;
* `RouteAssembler.flatten`: the table, once. Root routes come first, then the forest of
  collections, each before its children, siblings by the boot position of their owner and then by
  declaration.
-/

namespace ServiceGraph

/-- a configuration that came before its collection -/
structure DeferredGroup where
  group : RouteGroup
  origin : Option String
deriving DecidableEq

/-- what has been contributed to the route table -/
structure RouteAssembler where
  roots : List Route
  collections : List RouteCollection
  deferred : OrderedMap (List DeferredGroup)
  assembled : Bool
deriving DecidableEq

/-- the id that a group reference names: a leading `@` is dropped -/
def groupId (reference : String) : String :=
  match reference.toList with
  | '@' :: rest => String.ofList rest
  | _ => reference

namespace RouteAssembler

def empty : RouteAssembler := ⟨[], [], [], false⟩

/-- nothing is accepted once the table is made -/
def ensureOpen (a : RouteAssembler) : Except AssemblyError Unit :=
  if a.assembled then .error (.alreadyAssembled "route collections") else .ok ()

def collection? (a : RouteAssembler) (id : String) : Option RouteCollection :=
  a.collections.find? (·.id = id)

def edit (a : RouteAssembler) (id : String) (f : RouteCollection → RouteCollection) :
    RouteAssembler :=
  { a with collections := a.collections.map fun c => if c.id = id then f c else c }

/-- add a route outside any collection -/
def addRoot (a : RouteAssembler) (r : Route) : Except AssemblyError RouteAssembler := do
  a.ensureOpen
  return { a with roots := a.roots ++ [r] }

/-- configure a collection, now if it exists and otherwise when it is created -/
def configure (a : RouteAssembler) (reference : String) (group : RouteGroup)
    (origin : Option String) : Except AssemblyError RouteAssembler := do
  a.ensureOpen
  let id := groupId reference
  match a.collection? id with
  | some _ => return a.edit id fun c => { c with group := c.group.overlay group }
  | none =>
    let waiting := (a.deferred.get? id).getD []
    return { a with deferred := a.deferred.insert id (waiting ++ [⟨group, origin⟩]) }

/-- create a collection and lay over it what was configured early, in order of arrival -/
def create (a : RouteAssembler) (id owner : String) (parent : Option String)
    (group : RouteGroup) : Except AssemblyError RouteAssembler := do
  a.ensureOpen
  match a.collection? id with
  | some _ => .error (.duplicateCollection id)
  | none =>
    let waiting := (a.deferred.get? id).getD []
    let group := waiting.foldl (fun g d => g.overlay d.group) group
    return { a with
      collections := a.collections ++ [⟨id, owner, parent, group, []⟩]
      deferred := a.deferred.erase id }

/-- the groups configured and not created -/
def pendingGroups (a : RouteAssembler) : List String := a.deferred.keys

/-- nothing that was configured early is left -/
def checkConsumed (a : RouteAssembler) : Except AssemblyError Unit :=
  match a.deferred with
  | [] => .ok ()
  | (group, entries) :: _ =>
    .error (.unconsumedGroup group (entries.head?.bind DeferredGroup.origin))

def checkParents (a : RouteAssembler) : List RouteCollection → Except AssemblyError Unit
  | [] => .ok ()
  | c :: rest =>
    match c.parent with
    | some parent =>
      if (a.collection? parent).isSome then checkParents a rest
      else .error (.unknownParent c.id parent)
    | none => checkParents a rest

/-- the boot position of an owner; an unknown one comes after all others -/
def rank (order : List String) (owner : String) : Nat :=
  order.idxOf owner

/-- the collections directly below a parent, by the rank of their owner and then by
declaration -/
def children (a : RouteAssembler) (order : List String) (parent : Option String) :
    List RouteCollection :=
  let found := a.collections.filter (·.parent = parent)
  (List.range (order.length + 1)).flatMap fun position =>
    found.filter (rank order ·.owner = position)

/-- the collections below a parent with their scopes, each before its own children; `depth`
bounds how deep the forest is followed -/
def walk (a : RouteAssembler) (order : List String) :
    (depth : Nat) → Option String → RouteScope → List (RouteCollection × RouteScope)
  | 0, _, _ => []
  | depth + 1, parent, outer =>
    (a.children order parent).flatMap fun c =>
      (c, outer.within c) :: walk a order depth (some c.id) (outer.within c)

/-- the whole forest; no branch of it is longer than there are collections -/
def forest (a : RouteAssembler) (order : List String) : List (RouteCollection × RouteScope) :=
  a.walk order a.collections.length none .top

/-- the first collection that the walk does not reach -/
def stray? (a : RouteAssembler) (reached : List String) : Option String :=
  (a.collections.find? fun c => !reached.contains c.id).map RouteCollection.id

/-- the table, and the assembler that accepts nothing more -/
def flatten (a : RouteAssembler) (order : List String) :
    Except AssemblyError (RouteTable × RouteAssembler) := do
  a.ensureOpen
  a.checkConsumed
  a.checkParents a.collections
  let forest := a.forest order
  match a.stray? (forest.map (·.1.id)) with
  | some id => .error (.collectionCycle id)
  | none =>
    let routes := a.roots.map (RouteScope.top.resolve none) ++
      forest.flatMap fun (c, scope) => c.routes.map (scope.resolve (some c.id))
    return (⟨routes⟩, { a with assembled := true })

/-! ## ids -/

variable {a : RouteAssembler} {id : String}

theorem ensureOpen_eq_ok_iff : a.ensureOpen = .ok () ↔ a.assembled = false := by
  unfold ensureOpen
  cases a.assembled <;> simp

theorem collection?_isSome_iff : (a.collection? id).isSome ↔ ∃ c ∈ a.collections, c.id = id := by
  rw [collection?, List.find?_isSome]
  simp only [decide_eq_true_eq]

def Distinct (a : RouteAssembler) : Prop := (a.collections.map RouteCollection.id).Nodup

instance (a : RouteAssembler) : Decidable a.Distinct :=
  inferInstanceAs (Decidable (a.collections.map RouteCollection.id).Nodup)

end RouteAssembler
end ServiceGraph
