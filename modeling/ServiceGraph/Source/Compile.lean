import ServiceGraph.Source.Module
import ServiceGraph.Container.Constructor

/-!
# Compiling a registry

The module of a frozen registry: one method for each definition.

* `CompileError`: why there is no module;
* `Compile.methodNames`: the name of each definition's method, no two alike;
* `Compile.node`: the term of a node, checked against the definitions and, if they are given, the
  constructors;
* `Compile.moduleOf`: the module of a registry. There is none either when a live object in a literal
  holds itself;
* `Compile.compile`: its text.
-/

namespace ServiceGraph

inductive CompileError where
  | notFrozen
  | unknownService (id referencedBy : String)
  | unknownCallable (name service : String)
  | arityMismatch (callable : String) (expected : Arity) (got : Nat) (service : String)
  /-- a live object stands where only data can be written -/
  | unrepresentable (key : String)
  | parameter (e : ParameterError)
deriving DecidableEq, Repr

def CompileError.message : CompileError → String
  | notFrozen => "registry must be frozen before it is compiled"
  | unknownService id referencedBy =>
    "service '" ++ referencedBy ++ "' references unknown service '" ++ id ++ "'"
  | unknownCallable name service =>
    "service '" ++ service ++ "' uses unregistered callable '" ++ name ++ "'"
  | arityMismatch callable expected got service =>
    "service '" ++ service ++ "' calls '" ++ callable ++ "' with " ++ toString got ++
      " arguments, expected " ++ expected.describe
  | unrepresentable key =>
    "'" ++ key ++ "' holds a live service and cannot be compiled into a static table"
  | parameter e => e.message

/-- compiling: an error, or nothing at all when a live object has no end -/
abbrev Compiling (α : Type) := ExceptT CompileError Option α

namespace Compile

def ofExcept {α : Type} (result : Except CompileError α) : Compiling α := some result

/-- something that may have no end -/
def ofUnfolding {α : Type} (result : Option α) : Compiling α := result.map .ok

/-! ## method names -/

def nameChar (c : Char) : Char := if c.isAlphanum then c.toLower else '_'

/-- the name of an id's method before clashes are settled -/
def baseName (id : String) : String :=
  "service_" ++ String.ofList (id.toList.map nameChar)

/-- the names to be tried one after the other: the plain one, then numbered from two on -/
def candidates (base : String) (count : Nat) : List String :=
  base :: (List.range count).map fun n => base ++ "_" ++ toString (n + 2)

/-- a name that is not taken; one more candidate than there are taken names is enough -/
def freshName (taken : List String) (base : String) : String :=
  ((candidates base taken.length).find? (!taken.contains ·)).getD base

def namesFor (taken : List String) : List String → List String
  | [] => []
  | id :: ids =>
    let name := freshName taken (baseName id)
    name :: namesFor (name :: taken) ids

def methodNames (ids : List String) : OrderedMap String := ids.zip (namesFor [] ids)

/-! ## terms -/

/-- what compiling a node depends on -/
structure Context where
  parameters : Parameters
  methods : OrderedMap String
  /-- the arity of each constructor, when constructors are known -/
  arity : Option (String → Option Arity)
  object : ObjectId → Option Term

/-- a constructor exists and takes that many arguments, as far as constructors are known -/
def checkConstructor (c : Context) (name : String) (count : Nat) (service : String) :
    Except CompileError Unit :=
  match c.arity with
  | none => .ok ()
  | some arity =>
    match arity name with
    | none => .error (.unknownCallable name service)
    | some a =>
      if a.accepts count then .ok () else .error (.arityMismatch name a count service)

def reference (c : Context) (service id : String) (optional : Bool) :
    Except CompileError Term :=
  match c.methods.get? id with
  | some method => .ok (.service method)
  | none => if optional then .ok .null else .error (.unknownService id service)

/-- the term of a literal, whose strings are expanded -/
def literal (c : Context) (v : Value) : Compiling Term := do
  let v ← ofExcept ((c.parameters.expand v).mapError .parameter)
  ofUnfolding (Term.ofValueWith c.object v)

/-- the term of a parameter, which must have a value -/
def parameter (c : Context) (key : String) : Except CompileError Term :=
  match c.parameters.get key with
  | .ok _ => .ok (.parameter key)
  | .error e => .error (.parameter e)

mutual

def node (c : Context) (service : String) : Node → Compiling Term
  | .literal v => literal c v
  | .parameter key => ofExcept (parameter c key)
  | .reference id optional => ofExcept (reference c service id optional)
  | .statement callable args calls => do
    let args ← nodes c service args
    let t ← match callable with
      | .named name => do
        ofExcept (checkConstructor c name args.length service)
        pure (.construct name args)
      | .method target method => do
        let target ← node c service target
        pure (.invoke target method args)
      | .array => pure (.list args)
      | .record keys => pure (.map (keys.zip args))
    chain c service t calls

def nodes (c : Context) (service : String) : List Node → Compiling (List Term)
  | [] => pure []
  | n :: ns => return (← node c service n) :: (← nodes c service ns)

/-- call after call, each on what the one before left -/
def chain (c : Context) (service : String) (receiver : Term) :
    List MethodCall → Compiling Term
  | [] => pure receiver
  | .mk method args :: calls => do
    let args ← nodes c service args
    chain c service (.fluent receiver method args) calls

end

def setup (c : Context) (service : String) :
    List MethodCall → Compiling (List (String × List Term))
  | [] => pure []
  | call :: calls => do
    let args ← nodes c service call.args
    return (call.method, args) :: (← setup c service calls)

def method (c : Context) (d : Definition) : Compiling SourceMethod := do
  let root ← node c d.id d.root
  let setup ← setup c d.id d.setup
  return {
    name := (c.methods.get? d.id).getD ""
    id := d.id, shared := d.shared, isPublic := d.isPublic, root, setup }

/-! ## tables -/

/-- a value written as data -/
def static (key : String) (v : Value) : Except CompileError Term :=
  (Term.static key v).mapError .unrepresentable

/-- the parameters, each under its key -/
def table (p : Parameters) : Except CompileError (List (String × Term)) :=
  p.tree.mapM fun (key, v) => return (key, ← static key v)

def group {α : Type} (m : OrderedMap (List α)) (key : String) (a : α) : OrderedMap (List α) :=
  m.insert key ((m.get? key).getD [] ++ [a])

/-- for each tag, in the order of its first use, the definitions that carry it -/
def tagGroups (ds : List Definition) : OrderedMap (List (String × Value)) :=
  (ds.flatMap fun d => d.tags.map fun (tag, attrs) => (tag, d.id, attrs)).foldl
    (fun m (tag, entry) => group m tag entry) []

/-- for each type, in the order of its first use, the definitions that declare it -/
def typeGroups (ds : List Definition) : OrderedMap (List String) :=
  (ds.flatMap fun d => d.types.map fun t => (t, d.id)).foldl (fun m (t, id) => group m t id) []

def tagArms (ds : List Definition) : Except CompileError (List (String × List (String × Term))) :=
  (tagGroups ds).mapM fun (tag, entries) => do
    let entries ← entries.mapM fun (id, attrs) => do
      let attrs ← static tag attrs
      return (id, attrs)
    return (tag, entries)

variable {σ : Type}

def context (r : Registry) (constructors : Option (Constructors σ)) (services : Services σ)
    (h : Heap σ) : Context :=
  { parameters := r.parameters
    methods := methodNames r.ids
    arity := constructors.map fun cs name => (OrderedMap.get? cs name).map Constructor.arity
    object := Term.ofObject services h }

def moduleOf (r : Registry) (constructors : Option (Constructors σ)) (services : Services σ)
    (h : Heap σ) (options : SourceOptions) : Compiling SourceModule := do
  if r.frozen then
    let c := context r constructors services h
    let isPublic := r.definitions.filter (·.isPublic)
    let table ← ofExcept (table r.parameters)
    let methods ← r.definitions.mapM (method c)
    let tags ← ofExcept (tagArms isPublic)
    return { options, table, methods, tags, types := typeGroups isPublic }
  else throw .notFrozen

def compile (r : Registry) (constructors : Option (Constructors σ)) (services : Services σ)
    (h : Heap σ) (options : SourceOptions) : Compiling String := do
  return (← moduleOf r constructors services h options).text

end Compile
end ServiceGraph
