import ServiceGraph.Extension.Basic
import ServiceGraph.Live.Router
import ServiceGraph.Node.Reading

/-!
# The extension of middleware and routes

The block names middleware, the content of anchors, root routes, groups of routes, and the
configuration of groups that others create. Registration contributes all of it to the pipeline
`http.middleware` and to the route collections; at boot both are put into their final order and
become the definitions `http.middleware` and `http.router`.

* `Http.schema`: the block;
* `Http.routeOf`, `Http.middlewareChange`: one route and one middleware entry of the block;
* `Http.register`, `Http.boot`: the two callbacks;
* `Http.extension`.
-/

namespace ServiceGraph.Http

def name : String := "http"

/-- the pipeline of middleware, and the definition it becomes -/
def middleware : String := "http.middleware"

def router : String := "http.router"

def schema : Schema :=
  [ ("router", (Schema.Field.ofShape .string).withDefault (.str Router.typeName)),
    ("middleware", (Schema.Field.ofShape .list).withDefault (.list [])),
    ("anchors", (Schema.Field.ofShape .map).withDefault (.map [])),
    ("routes", (Schema.Field.ofShape .list).withDefault (.list [])),
    ("groups", (Schema.Field.ofShape .map).withDefault (.map [])),
    ("configure", (Schema.Field.ofShape .map).withDefault (.map [])) ]

/-- the strings among the items of a list -/
def texts (v : Value) : List String := v.items.filterMap Value.text?

def listField (v : Value) (key : String) : List Value :=
  ((v.field? key).map Value.items).getD []

def mapField (v : Value) (key : String) : OrderedMap Value :=
  ((v.field? key).map Value.entries).getD []

def routeOf (v : Value) : Except ExtensionError Route :=
  match v.textField? "path" with
  | none => .error (.custom "route needs a string 'path'")
  | some path =>
    match v.field? "handler" with
    | none => .error (.custom ("route '" ++ path ++ "' needs a 'handler'"))
    | some handler =>
      let r := Route.forPath path (Node.ofValue handler)
      let r := match (v.field? "methods").bind Value.items? with
        | some methods => r.withMethods (methods.filterMap Value.text?)
        | none => r
      .ok { r with defaults := mapField v "defaults" }

/-- what a middleware entry contributes: an anchor, an entry under a key, or a plain entry -/
def middlewareChange (v : Value) : Except ExtensionError PipelineChange :=
  match v.textField? "anchor" with
  | some name => .ok (.anchor name)
  | none =>
    match v.textField? "key" with
    | some key =>
      match v.field? "service" with
      | some service => .ok (.appendKeyed key (Node.ofValue service))
      | none => .error (.custom ("keyed middleware '" ++ key ++ "' needs a 'service'"))
    | none => .ok (.append (Node.ofValue v))

def anchorChange (name : String) (v : Value) : Except ExtensionError PipelineChange :=
  match v.items? with
  | some items => .ok (.resolveAnchor name (items.map Node.ofValue))
  | none => .error (.custom ("anchor '" ++ name ++ "' must be a list"))

def groupChange (id : String) (v : Value) : Except ExtensionError RouteChange := do
  let routes ← (listField v "routes").mapM routeOf
  return .create id name (v.textField? "parent") (.ofValue v) routes

variable {σ : Type}

/-- apply a change that had to be read first -/
def contribute (c : Except ExtensionError RegistryChange) : Program σ Unit :=
  match c with
  | .ok c => .apply c
  | .error e => .fail e

/-- put middleware and routes into their final order and define both -/
def boot (constructor : String) : Program σ Unit :=
  .assemble middleware fun nodes => do
    let nodes ← Program.ofChange nodes
    Program.apply (.add (Definition.ofNode middleware (.array nodes)))
    let r ← Program.look
    .flatten r.extensionOrder fun table => do
      let table ← Program.ofChange table
      Program.apply
        (.add ((Definition.ofNode router (table.toNode constructor)).withType "Router"))

def register (config : Value) : Program σ (Program σ Unit) := do
  let constructor := (config.textField? "router").getD Router.typeName
  Program.apply (.pipeline middleware .touch)
  (listField config "middleware").forM fun v =>
    contribute ((middlewareChange v).map (.pipeline middleware))
  (mapField config "anchors").forM fun (name, v) =>
    contribute ((anchorChange name v).map (.pipeline middleware))
  match (listField config "routes").mapM routeOf with
  | .error e => Program.fail e
  | .ok routes => Program.applyAll (routes.map fun r => .routes (.addRoot r))
  (mapField config "groups").forM fun (id, v) =>
    contribute ((groupChange id v).map .routes)
  (mapField config "configure").forM fun (reference, v) =>
    Program.apply (.routes (.configure reference (.ofValue v) (some name)))
  return boot constructor

def extension : Extension σ := ⟨name, [], some schema, register⟩

end ServiceGraph.Http
