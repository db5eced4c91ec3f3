import ServiceGraph.Scenario.Reply

/-!
# Labels of errors

* `Fault.label`: what sort of fault it is, apart from the things it happened to. The label of an
  error that wraps another one goes on with the label of that one.
-/

namespace ServiceGraph

def ParameterError.label : ParameterError → String
  | .unknown _ => "UnknownParameter"
  | .cycle _ => "ParameterCycle"
  | .nonScalar .. => "NonScalarInterpolation"

def AssemblyError.label : AssemblyError → String
  | .alreadyAssembled _ => "AlreadyAssembled"
  | .unresolvedAnchor .. => "UnresolvedAnchor"
  | .unreferencedAnchor .. => "UnreferencedAnchor"
  | .unconsumedGroup .. => "UnconsumedGroupReference"
  | .duplicateCollection _ => "DuplicateCollection"
  | .unknownParent .. => "UnknownParent"
  | .collectionCycle _ => "CollectionCycle"

def SchemaError.label : SchemaError → String
  | .missing _ => "Missing"
  | .wrongType .. => "WrongType"
  | .belowMin .. => "BelowMin"
  | .aboveMax .. => "AboveMax"
  | .notAChoice .. => "NotAChoice"
  | .unknownKey _ => "UnknownKey"
  | .notAMap _ => "NotAMap"

def RegistryError.label : RegistryError → String
  | .duplicateService _ => "DuplicateService"
  | .unknownService _ => "UnknownService"
  | .frozen _ => "Frozen"
  | .ambiguousCapability .. => "AmbiguousCapability"
  | .missingCapability _ => "MissingCapability"
  | .parameter e => "Parameter/" ++ e.label

def ContainerError.label : ContainerError → String
  | .unknownService _ => "UnknownService"
  | .circularDependency _ => "CircularDependency"
  | .ambiguousCapability .. => "AmbiguousCapability"
  | .missingCapability _ => "MissingCapability"
  | .unknownCallable _ => "UnknownCallable"
  | .arityMismatch .. => "ArityMismatch"
  | .unknownMethod .. => "UnknownMethod"
  | .notAService .. => "NotAService"
  | .reentrantCall _ => "ReentrantCall"
  | .invalidArgument .. => "InvalidArgument"
  | .parameter e => "Parameter/" ++ e.label

def LoadError.label : LoadError → String
  | .io .. => "Io"
  | .yaml _ => "Yaml"
  | .pattern _ => "Glob"
  | .includeCycle _ => "IncludeCycle"
  | .invalidService .. => "InvalidService"

def ExtensionError.label : ExtensionError → String
  | .cyclicDependency _ => "CyclicExtensionDependency"
  | .missing .. => "MissingExtension"
  | .duplicate _ => "DuplicateExtension"
  | .invalidConfig _ e => "InvalidConfig/" ++ e.label
  | .unknownSection _ => "UnknownSection"
  | .outOfPhase .. => "OutOfPhase"
  | .failed _ _ e => "Failed/" ++ e.label
  | .registry e => "Registry/" ++ e.label
  | .assembly e => "Pipeline/" ++ e.label
  | .load e => "Load/" ++ e.label
  | .custom _ => "Custom"

def TemplateError.label : TemplateError → String
  | .invalidToken .. => "InvalidToken"
  | .missing _ => "MissingFragment"
  | .listInSlot _ => "ListInScalarSlot"
  | .scalarInSplice _ => "ScalarInListSlot"

def CompileError.label : CompileError → String
  | .notFrozen => "NotFrozen"
  | .unknownService .. => "UnknownService"
  | .unknownCallable .. => "UnknownCallable"
  | .arityMismatch .. => "ArityMismatch"
  | .unrepresentable _ => "UnrepresentableStatic"
  | .parameter e => "Parameter/" ++ e.label

def CacheError.label : CacheError → String
  | .unreadable .. => "Io"
  | .unwritable .. => "StaleArtifactWriteFailure"
  | .invalidManifest _ => "InvalidManifest"

def KernelError.label : KernelError → String
  | .load e => "Load/" ++ e.label
  | .extension e => "Extension/" ++ e.label
  | .registry e => "Registry/" ++ e.label
  | .container e => "Container/" ++ e.label
  | .compile e => "Compile/" ++ e.label
  | .cache e => "Cache/" ++ e.label

def Fault.label : Fault → String
  | .parameter e => "Parameter/" ++ e.label
  | .assembly e => "Pipeline/" ++ e.label
  | .schema e => "Schema/" ++ e.label
  | .registry e => "Registry/" ++ e.label
  | .container e => "Container/" ++ e.label
  | .load e => "Load/" ++ e.label
  | .extension e => "Extension/" ++ e.label
  | .template e => "Template/" ++ e.label
  | .compile e => "Compile/" ++ e.label
  | .cache e => "Cache/" ++ e.label
  | .kernel e => "Kernel/" ++ e.label

end ServiceGraph
