import ServiceGraph.Config.Services
import ServiceGraph.Extension.Basic

/-!
# The extension of declared services

* `DeclaredServices.extension`: adds the definitions that its block declares.
-/

namespace ServiceGraph.DeclaredServices

def name : String := "services"

def register {σ : Type} (config : Value) : Program σ (Program σ Unit) :=
  match Config.serviceDefinitions config with
  | .error e => .fail (.load e)
  | .ok definitions => do
    Program.applyAll (definitions.map .add)
    return pure ()

def extension {σ : Type} : Extension σ := ⟨name, [], none, register⟩

end ServiceGraph.DeclaredServices
