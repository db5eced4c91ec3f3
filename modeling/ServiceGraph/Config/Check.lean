import ServiceGraph.Config.Services
import ServiceGraph.Parameters.Expansion

/-!
# Checking a configuration

What is wrong with a configuration, found without assembling it.

* `ConfigProblem`: a section without extension, a broken declaration, a reference to an undeclared
  service, or parameters that do not expand;
* `AppConfig.problems`: all problems, in this order.
-/

namespace ServiceGraph

/-- what is wrong with a configuration -/
inductive ConfigProblem where
  | unknownSection (name : String)
  | services (e : LoadError)
  | unknownReference (service reference : String)
  | parameters (e : ParameterError)
deriving DecidableEq, Repr

def ConfigProblem.message : ConfigProblem → String
  | unknownSection name => "unknown section '" ++ name ++ "'"
  | services e => e.message
  | unknownReference service reference =>
    "service '" ++ service ++ "' references unknown service '" ++ reference ++ "'"
  | parameters e => "parameters: " ++ e.message

namespace AppConfig

def declared (c : AppConfig) : Except LoadError (List Definition) :=
  match c.sections.get? "services" with
  | some block => Config.serviceDefinitions block
  | none => .ok []

/-- the references of definitions to ids outside of them -/
def strayReferences (definitions : List Definition) : List ConfigProblem :=
  let ids := definitions.map Definition.id
  definitions.flatMap fun d =>
    (d.required.filter (!ids.contains ·)).map (.unknownReference d.id)

def problems (c : AppConfig) (known : List String) : List ConfigProblem :=
  (c.sections.keys.filter (!known.contains ·)).map .unknownSection ++
  (match c.declared with
    | .ok definitions => strayReferences definitions
    | .error e => [.services e]) ++
  (match (Parameters.ofTree c.parameters).resolve with
    | .ok _ => []
    | .error e => [.parameters e])

end AppConfig
end ServiceGraph
