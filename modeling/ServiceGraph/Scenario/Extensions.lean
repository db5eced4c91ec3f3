import ServiceGraph.Config.Services
import ServiceGraph.Scenario.Registries

/-!
# Extensions for scenarios

An extension of a scenario runs a script in each phase and keeps a journal.

* `Journal`: what the extensions of a scenario wrote down, in order;
* `Script`: one action of a callback;
* `ScriptedExtension`: an extension with two scripts;
* `ScriptedExtension.toExtension`: the extension that runs them;
* `ScriptedExtension.entry`: its entry in a catalog.
-/

namespace ServiceGraph

/-- what the extensions of a scenario wrote down, in order -/
abbrev Journal := List Reply

def Journal.reply (journal : Journal) : Reply := .list (List.map .event journal)

/-- one action of a callback -/
inductive Script where
  | fail (message : String)
  /-- the configuration block -/
  | config
  /-- define the literal of a field of the block -/
  | addConfig (id key : String)
  /-- set a parameter to a field of the block -/
  | parameterFromConfig (parameter key : String)
  | loadServices
  /-- assemble a pipeline and define its list -/
  | definePipeline (pipeline id : String)
  /-- flatten the routes and define their router -/
  | defineRoutes (id constructor : String)
  | step (s : RegistryStep)

namespace Script

def configField (config : Value) (key : String) : Value :=
  (config.field? key).getD .null

def program (config : Value) : Script → Program Journal Reply
  | fail message => Program.fail (.custom message)
  | .config => pure (.value config)
  | addConfig id key => do
    Program.apply (.add (Definition.ofNode id (.literal (configField config key))))
    return .nothing
  | parameterFromConfig parameter key => do
    Program.apply (.setParameter parameter (configField config key))
    return .nothing
  | loadServices =>
    match Config.serviceDefinitions config with
    | .error e => Program.fail (.load e)
    | .ok definitions => do
      Program.applyAll (definitions.map .add)
      return .nothing
  | definePipeline pipeline id =>
    .assemble pipeline fun nodes => do
      let nodes ← Program.ofChange nodes
      Program.apply (.add (Definition.ofNode id (.array nodes)))
      return .nothing
  | defineRoutes id constructor => do
    let r ← Program.look
    .flatten r.extensionOrder fun table => do
      let table ← Program.ofChange table
      Program.apply (.add (Definition.ofNode id (table.toNode constructor)))
      return .list (table.routes.map .route)
  | step s => s.program

def note (entry : Reply) : Program Journal Unit := .note (· ++ [entry]) (pure ())

/-- run actions in order and note what they give back -/
def runAll (config : Value) : List Script → Program Journal Unit
  | [] => pure ()
  | s :: rest => do
    let reply ← s.program config
    if reply.isNothing then runAll config rest
    else do
      note reply
      runAll config rest

end Script

/-- an extension with a script for each phase -/
structure ScriptedExtension where
  name : String
  dependencies : List Dependency
  schema : Option Schema
  register : List Script
  boot : List Script

namespace ScriptedExtension

def phase (e : ScriptedExtension) (p : Phase) (config : Value) (scripts : List Script) :
    Program Journal Unit := do
  Script.note (Reply.texts [p.name, e.name])
  Script.runAll config scripts

def toExtension (e : ScriptedExtension) : Extension Journal :=
  { name := e.name
    dependencies := e.dependencies
    schema := e.schema
    register := fun config => do
      e.phase .register config e.register
      return e.phase .boot .null e.boot }

/-- the constructor of an extension in a catalog, under a key. It notes its arguments, and refuses
when a refusal is given. -/
def entry (key : String) (refusal : Option String) (e : Extension Journal) :
    Value → Journal → Except ExtensionError (Extension Journal) × Journal :=
  fun args journal =>
    let journal := journal ++ [.list [.text "construct", .text key, .value args]]
    match refusal with
    | some message => (.error (.custom message), journal)
    | none => (.ok e, journal)

end ScriptedExtension
end ServiceGraph
