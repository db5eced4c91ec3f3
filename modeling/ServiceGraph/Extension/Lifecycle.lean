import ServiceGraph.Extension.Order

/-!
# The lifecycle of extensions

First every extension registers, then every extension boots, both in the same order.

* `Lifecycle`: the ordered extensions and how far they have come;
* `Lifecycle.resolve`: a lifecycle over ordered extensions;
* `Lifecycle.registerAll`: check the sections, then for each extension normalize its block and run
  its registration;
* `Lifecycle.bootAll`: run what the registrations left to be done, then see that nothing
  configured early is left over.

While a callback runs, the registry knows its extension as the origin of what is added.
-/

namespace ServiceGraph

/-- how far a lifecycle has come; after registration it holds what each extension left to be done
at boot -/
inductive Stage (σ : Type) where
  | resolved
  | registered (boots : List (String × Program σ Unit))
  | booted

def Stage.name {σ : Type} : Stage σ → String
  | resolved => "resolved"
  | registered _ => "registered"
  | booted => "booted"

/-- ordered extensions on their way through both phases -/
structure Lifecycle (σ : Type) where
  extensions : List (Extension σ)
  stage : Stage σ

namespace Lifecycle

variable {σ : Type}

def resolve (extensions : List (Extension σ)) (catalog : Catalog σ) (journal : σ) :
    Except ExtensionError (Lifecycle σ) × σ :=
  let (result, journal) := resolveOrder extensions catalog journal
  (result.map fun extensions => ⟨extensions, .resolved⟩, journal)

def order (l : Lifecycle σ) : List String := l.extensions.map Extension.name

def isBooted (l : Lifecycle σ) : Bool :=
  match l.stage with
  | .booted => true
  | _ => false

def callback {α : Type} (name : String) (phase : Phase) (p : Program σ α) (w : Workshop σ) :
    Except ExtensionError α × Workshop σ :=
  let (result, w) := p.run { w with registry := { w.registry with origin := some name } }
  (result.mapError (.failed name phase),
    { w with registry := { w.registry with origin := none } })

/-- the block of an extension with the defaults of its schema -/
def blockFor (e : Extension σ) (configs : OrderedMap Value) : Except ExtensionError Value :=
  let raw := (configs.get? e.name).getD .null
  match e.schema with
  | some schema => (schema.normalize raw).mapError (.invalidConfig e.name)
  | none => .ok raw

/-- register extensions in order; the first failure ends it -/
def registerEach (configs : OrderedMap Value) :
    List (Extension σ) → Workshop σ →
      Except ExtensionError (List (String × Program σ Unit)) × Workshop σ
  | [], w => (.ok [], w)
  | e :: es, w =>
    match blockFor e configs with
    | .error err => (.error err, w)
    | .ok block =>
      match callback e.name .register (e.register block) w with
      | (.error err, w) => (.error err, w)
      | (.ok boot, w) =>
        let (boots, w) := registerEach configs es w
        (boots.map ((e.name, boot) :: ·), w)

/-- run what is to be done at boot, in order; the first failure ends it -/
def bootEach : List (String × Program σ Unit) → Workshop σ →
    Except ExtensionError Unit × Workshop σ
  | [], w => (.ok (), w)
  | (name, boot) :: rest, w =>
    match callback name .boot boot w with
    | (.error err, w) => (.error err, w)
    | (.ok (), w) => bootEach rest w

/-- the first section that no extension is named after -/
def straySection? (l : Lifecycle σ) (configs : OrderedMap Value) : Option String :=
  configs.keys.find? (!l.order.contains ·)

def registerAll (l : Lifecycle σ) (configs : OrderedMap Value) (w : Workshop σ) :
    Except ExtensionError Unit × Lifecycle σ × Workshop σ :=
  match l.stage with
  | .resolved =>
    match l.straySection? configs with
    | some name => (.error (.unknownSection name), l, w)
    | none =>
      let w := { w with registry := { w.registry with extensionOrder := l.order } }
      match registerEach configs l.extensions w with
      | (.error e, w) => (.error e, l, w)
      | (.ok boots, w) => (.ok (), { l with stage := .registered boots }, w)
  | stage => (.error (.outOfPhase "register" stage.name), l, w)

/-- run the boot of every extension, and see that every group reference was consumed -/
def bootAll (l : Lifecycle σ) (w : Workshop σ) :
    Except ExtensionError Unit × Lifecycle σ × Workshop σ :=
  match l.stage with
  | .registered boots =>
    match bootEach boots w with
    | (.error e, w) => (.error e, l, w)
    | (.ok (), w) =>
      match w.registry.routes.checkConsumed with
      | .error e => (.error (.assembly e), l, w)
      | .ok () => (.ok (), { l with stage := .booted }, w)
  | stage => (.error (.outOfPhase "boot" stage.name), l, w)

end Lifecycle
end ServiceGraph
