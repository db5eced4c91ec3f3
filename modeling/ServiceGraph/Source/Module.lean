import ServiceGraph.Source.Term
import ServiceGraph.Digest.Text

/-!
# Generated modules

A generated module defines a container whose services are methods.

* `SourceModule`: the methods, the table of parameters, and what the container answers to lookups;
* `SourceModule.body`: the text of the module;
* `SourceModule.text`: the same with a header that names the generator and the digest of the body;
* `Source.digestLine?`: the digest that a header names.
-/

namespace ServiceGraph

/-- how the generated module names things -/
structure SourceOptions where
  library : String
  container : String
deriving DecidableEq, Repr

def SourceOptions.standard : SourceOptions := ⟨"::kiln", "CompiledContainer"⟩

structure SourceMethod where
  name : String
  id : String
  /-- the service is kept in a cell after it is built -/
  shared : Bool
  isPublic : Bool
  root : Term
  /-- method and arguments of each call on the finished service -/
  setup : List (String × List Term)

structure SourceModule where
  options : SourceOptions
  /-- the parameters, as a map -/
  table : List (String × Term)
  methods : List SourceMethod
  /-- for each tag the public ids that carry it, with their attributes -/
  tags : List (String × List (String × Term))
  /-- for each type the public ids that declare it -/
  types : List (String × List String)

namespace Source

/-- the program that writes modules, with its version -/
def generator : String := "kiln 0.3.0"

def setupText (library : String) (call : String × List Term) : String :=
  "        " ++ Term.callText "value.invoke" call.1 (Term.renderAll library call.2) ++ ";\n"

def methodText (library : String) (m : SourceMethod) : String :=
  let cell := "self.cell_" ++ m.name
  "    fn " ++ m.name ++ "(&self) -> Result<" ++ library ++ "::Value, " ++ library ++
    "::ContainerError> \x7b\n" ++
  (if m.shared then
    "        if let Some(value) = " ++ cell ++ ".get() \x7b\n" ++
    "            return Ok(value.clone());\n" ++
    "        \x7d\n"
  else "") ++
  "        let _guard = self.stack.enter(" ++ Text.quoted m.id ++ ")?;\n" ++
  "        let value = " ++ m.root.render library ++ ";\n" ++
  String.join (m.setup.map (setupText library)) ++
  (if m.shared then "        let _ = " ++ cell ++ ".set(value.clone());\n" else "") ++
  "        Ok(value)\n" ++
  "    \x7d\n"

def tagText (library : String) (arm : String × List (String × Term)) : String :=
  let pairs := arm.2.map fun (id, attrs) =>
    "(" ++ Text.quoted id ++ ".to_string(), " ++ attrs.render library ++ ")"
  "            " ++ Text.quoted arm.1 ++ " => vec![" ++ Term.commas pairs ++ "],\n"

def typeText (arm : String × List String) : String :=
  let ids := arm.2.map fun id => Text.quoted id ++ ".to_string()"
  "            " ++ Text.quoted arm.1 ++ " => vec![" ++ Term.commas ids ++ "],\n"

def getText (m : SourceMethod) : String :=
  "            " ++ Text.quoted m.id ++ " => self." ++ m.name ++ "(),\n"

end Source

namespace SourceModule

open Source

/-- the methods whose services are kept -/
def cells (m : SourceModule) : List String :=
  (m.methods.filter (·.shared)).map SourceMethod.name

def surface (m : SourceModule) : List SourceMethod := m.methods.filter (·.isPublic)

def typeText (m : SourceModule) : String :=
  let library := m.options.library
  "pub struct " ++ m.options.container ++ " \x7b\n" ++
  "    factories: " ++ library ++ "::Factories,\n" ++
  "    parameters: " ++ library ++ "::Parameters,\n" ++
  "    stack: " ++ library ++ "::ResolutionStack,\n" ++
  String.join (m.cells.map fun cell =>
    "    cell_" ++ cell ++ ": ::std::cell::OnceCell<" ++ library ++ "::Value>,\n") ++
  "\x7d\n\n"

def methodsText (m : SourceModule) : String :=
  let library := m.options.library
  "impl " ++ m.options.container ++ " \x7b\n" ++
  "    pub fn new(factories: " ++ library ++ "::Factories) -> Self \x7b\n" ++
  "        Self \x7b\n" ++
  "            factories,\n" ++
  "            parameters: " ++ library ++
    "::Parameters::from_resolved(Self::parameter_table()),\n" ++
  "            stack: " ++ library ++ "::ResolutionStack::new(),\n" ++
  String.join (m.cells.map fun cell =>
    "            cell_" ++ cell ++ ": ::std::cell::OnceCell::new(),\n") ++
  "        \x7d\n    \x7d\n\n" ++
  "    fn parameter_table() -> " ++ library ++ "::Value \x7b\n" ++
  "        " ++ (Term.map m.table).render library ++ "\n" ++
  "    \x7d\n" ++
  String.join (m.methods.map fun method => "\n" ++ methodText library method) ++
  "\x7d\n\n"

def hasText (m : SourceModule) : String :=
  if m.surface = [] then "        let _ = id;\n        false\n"
  else
    "        matches!(id, " ++
      " | ".intercalate (m.surface.map fun method => Text.quoted method.id) ++ ")\n"

def lookupText (m : SourceModule) : String :=
  let library := m.options.library
  "impl " ++ library ++ "::Lookup for " ++ m.options.container ++ " \x7b\n" ++
  "    fn get(&self, id: &str) -> Result<" ++ library ++ "::Value, " ++ library ++
    "::ContainerError> \x7b\n" ++
  "        match id \x7b\n" ++
  String.join (m.surface.map getText) ++
  "            _ => Err(" ++ library ++
    "::ContainerError::UnknownService \x7b id: id.to_string() \x7d),\n" ++
  "        \x7d\n    \x7d\n\n" ++
  "    fn has(&self, id: &str) -> bool \x7b\n" ++
  m.hasText ++
  "    \x7d\n\n" ++
  "    fn tagged(&self, tag: &str) -> Vec<(String, " ++ library ++ "::Value)> \x7b\n" ++
  "        match tag \x7b\n" ++
  String.join (m.tags.map (tagText library)) ++
  "            _ => Vec::new(),\n        \x7d\n    \x7d\n\n" ++
  "    fn ids_by_type(&self, type_name: &str) -> Vec<String> \x7b\n" ++
  "        match type_name \x7b\n" ++
  String.join (m.types.map Source.typeText) ++
  "            _ => Vec::new(),\n        \x7d\n    \x7d\n\n" ++
  "    fn parameter(&self, key: &str) -> Result<" ++ library ++ "::Value, " ++ library ++
    "::ContainerError> \x7b\n" ++
  "        Ok(self.parameters.get(key)?)\n    \x7d\n\x7d\n"

/-- the text of the module without its header -/
def body (m : SourceModule) : String := m.typeText ++ m.methodsText ++ m.lookupText

def withHeader (body : String) : String :=
  "// @generated by " ++ generator ++ ". Do not edit.\n// digest: " ++ Digest.ofText body ++
    "\n\n" ++ body

def text (m : SourceModule) : String := withHeader m.body

end SourceModule

namespace Source

def dropFront? : List Char → List Char → Option (List Char)
  | [], rest => some rest
  | c :: cs, d :: ds => if c = d then dropFront? cs ds else none
  | _ :: _, [] => none

/-- a line whose end was read: a carriage return before the end belongs to it -/
def endLine : List Char → List Char
  | '\r' :: line => line.reverse
  | line => line.reverse

/-- the lines of a text without their ends, continuing a line that is held last character first; a
last empty line does not count -/
def linesFrom (line : List Char) : List Char → List (List Char)
  | [] => if line = [] then [] else [line.reverse]
  | c :: rest =>
    if c = '\n' then endLine line :: linesFrom [] rest else linesFrom (c :: line) rest

/-- the digest that one of the first three lines of a module names -/
def digestLine? (source : String) : Option String :=
  ((linesFrom [] source.toList).take 3).findSome? fun line =>
    (dropFront? "// digest: ".toList line).map String.ofList

end Source
end ServiceGraph
