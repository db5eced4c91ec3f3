import ServiceGraph.Container.Error

/-!
# Live route collections

The object that answers for routes at run time: an ordered table with exact paths.

* `LiveRoute`: an entry of the table;
* `LiveRoute.ofArgs`, `LiveRoute.toArgs`: an entry as the arguments of `add`;
* `Router.call`: the methods `add`, `paths` and `match`;
* `Router.exported`: the table as plain lists;
* `Router.revive`: a table from such lists.
-/

namespace ServiceGraph

structure LiveRoute where
  methods : List String
  path : String
  handler : Value
  defaults : OrderedMap Value
  domain : Option String
deriving DecidableEq, Repr

/-- a live route collection: its entries in order -/
abbrev Router := List LiveRoute

namespace Router

def typeName : String := "RouteCollection"

def badArgument (message : String) : ContainerError :=
  .invalidArgument (typeName ++ "::add") message

end Router

namespace LiveRoute

/-- the entry that five arguments describe: only the strings among the methods count, defaults
that are no map are empty, and a domain that is no string is absent -/
def ofArgs : List Value → Except ContainerError LiveRoute
  | [methods, path, handler, defaults, domain] =>
    match methods, path with
    | .list methods, .str path =>
      .ok ⟨methods.filterMap Value.text?, path, handler, defaults.entries, domain.text?⟩
    | .list _, _ => .error (Router.badArgument "path must be a string")
    | _, _ => .error (Router.badArgument "methods must be a list")
  | _ => .error (Router.badArgument "expected (methods, path, handler, defaults, domain)")

/-- the five arguments that describe an entry -/
def toArgs (r : LiveRoute) : List Value :=
  [ .list (r.methods.map Value.str), .str r.path, r.handler, .map r.defaults,
    match r.domain with
    | some d => .str d
    | none => .null ]

/-- both texts are the same but for the case of ASCII letters -/
def sameLetters (a b : String) : Bool :=
  a.toList.map Char.toLower == b.toList.map Char.toLower

/-- the entry answers for a method and a path; without methods it answers for all -/
def answers (r : LiveRoute) (method path : String) : Bool :=
  r.path == path && (r.methods.isEmpty || r.methods.any (sameLetters · method))

end LiveRoute

namespace Router

/-- the string at a position, the empty one if there is none -/
def textAt (args : List Value) (i : Nat) : String :=
  (args[i]?.bind Value.text?).getD ""

def add (t : Router) (args : List Value) : Except ContainerError Router := do
  return t ++ [← LiveRoute.ofArgs args]

/-- the handler of the first entry that answers -/
def handlerFor (t : Router) (method path : String) : Value :=
  match t.find? (·.answers method path) with
  | some r => r.handler
  | none => .null

/-- call a method; only `add` changes the table -/
def call (t : Router) (method : String) (args : List Value) :
    Except ContainerError Value × Router :=
  if method = "add" then
    match t.add args with
    | .ok t => (.ok .null, t)
    | .error e => (.error e, t)
  else if method = "paths" then (.ok (.list (t.map fun r => .str r.path)), t)
  else if method = "match" then (.ok (t.handlerFor (textAt args 0) (textAt args 1)), t)
  else (.error (.unknownMethod typeName method), t)

/-- the table as plain lists, one list of arguments for each entry -/
def exported (t : Router) : Value :=
  .list (t.map fun r => .list r.toArgs)

/-- the table that lists of arguments describe; an entry that is no list has no arguments -/
def ofEntries : List Value → Except ContainerError Router
  | [] => .ok []
  | entry :: rest => do
    let r ← LiveRoute.ofArgs entry.items
    return r :: (← ofEntries rest)

/-- the table that an exported value describes; a value that is no list describes an empty one -/
def revive (exported : Value) : Except ContainerError Router :=
  ofEntries exported.items

end Router
end ServiceGraph
