import ServiceGraph.Command.Arguments
import ServiceGraph.Config.Check
import ServiceGraph.Extension.Builtin
import ServiceGraph.Kernel.Cached
import ServiceGraph.Value.Json

/-!
# Carrying out a command

A command works on a tree of files and writes texts. It knows the built-in extensions and no
constructors, so that names of constructors are not checked.

* `Output`: what a command writes, and why it fails;
* `Command.run`: a command carried out;
* `Definition.describe`, `Definition.toJson`: a definition on one line, and as data.
-/

namespace ServiceGraph

/-- what a command writes -/
structure Output where
  /-- the result -/
  told : String
  /-- the remarks beside it -/
  warned : String
  error : Option String
deriving DecidableEq, Repr

namespace Output

def ofText (text : String) : Output := ⟨text, "", none⟩

def failed (error : String) : Output := ⟨"", "", some error⟩

def ofExcept : Except String String → Output
  | .ok text => ofText text
  | .error error => failed error

end Output

namespace Definition

/-- a definition on one line -/
def describe (d : Definition) : String :=
  let flags := (if d.shared then "shared" else "factory") ::
    if d.isPublic then [] else ["private"]
  let list (label : String) (names : List String) : String :=
    if names = [] then "" else " " ++ label ++ ": " ++ ", ".intercalate names
  d.id ++ " [" ++ ", ".intercalate flags ++ "]" ++ list "types" d.types ++
    list "tags" (OrderedMap.keys d.tags) ++
    match d.origin with
    | some origin => " (from " ++ origin ++ ")"
    | none => ""

/-- what others can see of a definition, as data; attributes that are no data are null -/
def toJson (d : Definition) : Value :=
  .map [
    ("id", .str d.id), ("shared", .bool d.shared), ("public", .bool d.isPublic),
    ("types", .list (d.types.map .str)),
    ("tags", .map (d.tags.map fun t => (t.1, if t.2.objects = [] then t.2 else .null))),
    ("origin", (d.origin.map Value.str).getD .null)]

end Definition

namespace Command

def starter : String :=
  "parameters:\n  app:\n    name: my-app\n\nincludes: []\n\n" ++
  "services:\n  greeter:\n    create: Greeter\n    arguments: [\"%app.name%\"]\n"

def noServices : Services Empty where
  typeName s := nomatch s
  exported s := nomatch s
  call _ _ s := nomatch s

/-- an application over a loaded configuration, with the built-in extensions that it needs -/
def kernel (c : AppConfig) : Kernel Unit Empty :=
  { files := []
    configs := [c]
    parameters := []
    extensions := Builtin.forSections c.sections.keys
    catalog := Builtin.catalog
    constructors := none }

def kernelFor (f : Files) (file : String) : Except String (Kernel Unit Empty) :=
  ((AppConfig.load f file).mapError LoadError.message).map kernel

def assemble (f : Files) (file : String) : Except String Registry := do
  let k ← kernelFor f file
  (k.assemble f ()).1.mapError KernelError.message

def lines (ls : List String) : String := String.join (ls.map (· ++ "\n"))

def runInit (directory : String) (f : Files) : Output × Files :=
  let file := Path.join directory usualFile
  if f.exists? file then (.failed (file ++ " already exists"), f)
  else
    match f.makeDirectories (Path.ofText directory) with
    | (.error fault, f) =>
      (.failed ("cannot create " ++ directory ++ ": " ++ fault.message), f)
    | (.ok (), f) =>
      match f.write file (Digest.bytes starter) with
      | .error fault => (.failed ("cannot write " ++ file ++ ": " ++ fault.message), f)
      | .ok f =>
        (.ofText (lines ["Initialized kiln project at " ++ directory, "  Created: " ++ file]), f)

def runValidate (file : String) (f : Files) : Output :=
  match AppConfig.load f file with
  | .error e => .failed e.message
  | .ok c =>
    match c.problems Builtin.names with
    | [] => .ofExcept do
      let r ← assemble f file
      return lines ["OK: " ++ file ++ " (" ++ toString r.definitions.length ++ " services, " ++
        toString c.sources.length ++ " files)"]
    | problems =>
      { told := ""
        warned := lines (problems.map fun p => "  ERROR: " ++ p.message)
        error := some (toString problems.length ++ " validation error(s)") }

def runServices (file : String) (tag : Option String) (json : Bool) (f : Files) : Output :=
  .ofExcept do
    let r ← assemble f file
    let selected := r.definitions.filter fun d => tag.all d.tagged
    if json then return lines [(Value.list (selected.map Definition.toJson)).json ""]
    else return lines (selected.map Definition.describe ++ ["",
      toString selected.length ++ " of " ++ toString r.definitions.length ++ " services"])

def compiledOutput (directory : String) : Compiled Empty → Output
  | .reused path => .ofText (lines ["Fresh: " ++ path])
  | .written path => .ofText (lines ["Compiled: " ++ path])
  | .interpreted _ =>
    ⟨"", lines ["warning: artifact could not be written to " ++ directory], none⟩

def runCompile (file : String) (cache : Option String) (force : Bool) (f : Files) :
    Output × Files :=
  match kernelFor f file, cache with
  | .error e, _ => (.failed e, f)
  | .ok k, none =>
    match (k.compile noServices .empty f ()).1 with
    | some source => (.ofExcept (source.mapError KernelError.message), f)
    | none => (.ofText "", f)
  | .ok k, some directory =>
    match k.compileInto ⟨directory⟩ (!force) noServices .empty f () with
    | (some (.ok compiled), f, _) => (compiledOutput directory compiled, f)
    | (some (.error e), f, _) => (.failed e.message, f)
    | (none, f, _) => (.ofText "", f)

def runCommands (file : String) (f : Files) : Output :=
  .ofExcept do
    let k ← kernelFor f file
    let c ← (k.container noServices f ()).1.mapError KernelError.message
    return lines c.lookup.commands

def run (f : Files) : Command → Output × Files
  | init directory => runInit directory f
  | validate file => (runValidate file f, f)
  | services file tag json => (runServices file tag json f, f)
  | compile file cache force => runCompile file cache force f
  | commands file => (runCommands file f, f)

end Command
end ServiceGraph
