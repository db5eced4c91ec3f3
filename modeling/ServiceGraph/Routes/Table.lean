import ServiceGraph.Node.Basic
import ServiceGraph.Routes.Path

/-!
# Routes and collections of routes

* `Route`: a path with its handler, methods and default arguments;
* `RouteGroup`: what a collection shares with its routes, a prefix, a domain and arguments;
* `RouteCollection`: a named group of routes with an owner and perhaps a parent;
* `RouteScope`: what the collections around a route add to it;
* `ResolvedRoute`, `RouteTable`: the routes with everything added, in their final order;
* `RouteTable.toNode`: the statement that builds a router from a table.
-/

namespace ServiceGraph

structure Route where
  methods : List String
  path : String
  handler : Node
  defaults : OrderedMap Value
deriving DecidableEq

def upperCase (s : String) : String :=
  String.ofList (s.toList.map Char.toUpper)

namespace Route

/-- a route for every method, without default arguments -/
def forPath (path : String) (handler : Node) : Route := ⟨[], path, handler, []⟩

/-- the same route for these methods, in upper case -/
def withMethods (r : Route) (methods : List String) : Route :=
  { r with methods := methods.map upperCase }

end Route

/-- what a collection shares with its routes -/
structure RouteGroup where
  pathPrefix : Option String
  domain : Option String
  args : OrderedMap Value
deriving DecidableEq

namespace RouteGroup

def empty : RouteGroup := ⟨none, none, []⟩

/-- the group that a configuration block writes; fields of another shape are left out -/
def ofValue (v : Value) : RouteGroup :=
  { pathPrefix := v.textField? "prefix"
    domain := v.textField? "domain"
    args := ((v.field? "args").map Value.entries).getD [] }

/-- one group laid over another: what it sets replaces, its arguments are added -/
def overlay (base top : RouteGroup) : RouteGroup :=
  { pathPrefix := top.pathPrefix.or base.pathPrefix
    domain := top.domain.or base.domain
    args := base.args.extend top.args }

end RouteGroup

structure RouteCollection where
  id : String
  owner : String
  parent : Option String
  group : RouteGroup
  routes : List Route
deriving DecidableEq

/-- a route with everything added that the collections around it share -/
structure ResolvedRoute where
  methods : List String
  path : String
  domain : Option String
  handler : Node
  defaults : OrderedMap Value
  collection : Option String
deriving DecidableEq

/-- what the collections around a route share -/
structure RouteScope where
  pathPrefix : String
  domain : Option String
  args : OrderedMap Value
deriving DecidableEq

namespace RouteScope

def top : RouteScope := ⟨"", none, []⟩

def within (outer : RouteScope) (c : RouteCollection) : RouteScope :=
  { pathPrefix := match c.group.pathPrefix with
      | some p => Routes.joinPath outer.pathPrefix p
      | none => outer.pathPrefix
    domain := c.group.domain.or outer.domain
    args := outer.args.extend c.group.args }

def resolve (s : RouteScope) (collection : Option String) (r : Route) : ResolvedRoute :=
  { methods := r.methods
    path := Routes.joinPath s.pathPrefix r.path
    domain := s.domain
    handler := r.handler
    defaults := s.args.extend r.defaults
    collection }

end RouteScope

/-- the routes in their final order -/
structure RouteTable where
  routes : List ResolvedRoute
deriving DecidableEq

namespace RouteTable

def paths (t : RouteTable) : List String := t.routes.map ResolvedRoute.path

/-- the arguments that add a route to a router: methods, path, handler, defaults and domain -/
def addArgs (r : ResolvedRoute) : List Node :=
  [ .literal (.list (r.methods.map Value.str)),
    .literal (.str r.path),
    r.handler,
    .literal (.map r.defaults),
    .literal (match r.domain with
      | some d => .str d
      | none => .null) ]

/-- the statement that builds a router by a constructor and adds every route -/
def toNode (t : RouteTable) (constructor : String) : Node :=
  .statement (.named constructor) [] (t.routes.map fun r => .mk "add" (addArgs r))

end RouteTable
end ServiceGraph
