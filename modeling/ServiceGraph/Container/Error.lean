import ServiceGraph.Registry.Basic

/-!
# Failures while building services

* `Arity`: how many arguments a constructor takes;
* `ContainerError`: what stops the building of a service;
* `ContainerError.ofRegistry`: a refusal of the registry as a failure of the container.
-/

namespace ServiceGraph

inductive Arity where
  | any
  | exactly (n : Nat)
  | range (low high : Nat)
deriving DecidableEq, Repr

namespace Arity

def accepts : Arity → Nat → Bool
  | any, _ => true
  | exactly k, n => n == k
  | range low high, n => low ≤ n && n ≤ high

def describe : Arity → String
  | any => "any number of"
  | exactly k => toString k
  | range low high => toString low ++ "..=" ++ toString high

end Arity

/-- what stops the building of a service -/
inductive ContainerError where
  | unknownService (id : String)
  /-- building the first id needs the first id again -/
  | circularDependency (path : List String)
  | ambiguousCapability (typeName : String) (ids : List String)
  | missingCapability (typeName : String)
  | unknownCallable (name : String)
  | arityMismatch (callable : String) (expected : Arity) (got : Nat)
  | unknownMethod (typeName method : String)
  | notAService (method found : String)
  /-- a method is called on an object that is in the middle of a call -/
  | reentrantCall (method : String)
  | invalidArgument (callable message : String)
  | parameter (e : ParameterError)
deriving DecidableEq, Repr

namespace ContainerError

def message : ContainerError → String
  | unknownService id => "service '" ++ id ++ "' not found"
  | circularDependency path => "circular dependency: " ++ " -> ".intercalate path
  | ambiguousCapability typeName ids =>
    "multiple services of type '" ++ typeName ++ "' found: " ++ ", ".intercalate ids
  | missingCapability typeName => "no service of type '" ++ typeName ++ "' found"
  | unknownCallable name => "callable '" ++ name ++ "' is not registered"
  | arityMismatch callable expected got =>
    "callable '" ++ callable ++ "' expects " ++ expected.describe ++ " arguments, got " ++
      toString got
  | unknownMethod typeName method => "'" ++ typeName ++ "' has no method '" ++ method ++ "'"
  | notAService method found => "cannot call '" ++ method ++ "' on a " ++ found ++ " value"
  | reentrantCall method =>
    "'" ++ method ++ "' re-entered an object that is already being called"
  | invalidArgument callable message =>
    "invalid argument for '" ++ callable ++ "': " ++ message
  | parameter e => e.message

def ofRegistry : RegistryError → ContainerError
  | .unknownService id => unknownService id
  | .ambiguousCapability typeName ids => ambiguousCapability typeName ids
  | .missingCapability typeName => missingCapability typeName
  | .parameter e => parameter e
  | .duplicateService id => invalidArgument "registry" (RegistryError.duplicateService id).message
  | .frozen action => invalidArgument "registry" (RegistryError.frozen action).message

end ContainerError
end ServiceGraph
