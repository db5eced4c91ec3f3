/-!
# The arguments of the command line

* `Command`: what the program is asked to do;
* `Form`, `Given.read?`: the options that a command knows, and the ones that arguments give;
* `Command.ofArguments?`: the command that arguments name.

An option is written `--name value`, `--name=value`, `-n value`, `-nvalue` or `-n=value`, and is
given at most once. A value of its own must not look like an option. After `--` everything is an
operand.
-/

namespace ServiceGraph

/-- what the program is asked to do -/
inductive Command where
  | init (directory : String)
  | validate (file : String)
  | services (file : String) (tag : Option String) (json : Bool)
  | compile (file : String) (cache : Option String) (force : Bool)
  | commands (file : String)
deriving DecidableEq, Repr

/-- what a command knows besides its name -/
structure Form where
  /-- the options that take a value: their names, and their letters if they have one -/
  valued : List (String × Option Char)
  flags : List String
  operand : Bool

/-- what the arguments of a command give -/
structure Given where
  values : List (String × String)
  flags : List String
  operands : List String

namespace Given

def empty : Given := ⟨[], [], []⟩

def value? (g : Given) (option : String) : Option String := g.values.lookup option

/-- one more value; an option is given at most once -/
def addValue? (g : Given) (option value : String) : Option Given :=
  if (g.value? option).isSome then none
  else some { g with values := g.values ++ [(option, value)] }

/-- one more flag; a flag is given at most once -/
def addFlag? (g : Given) (flag : String) : Option Given :=
  if g.flags.contains flag then none else some { g with flags := g.flags ++ [flag] }

def addOperand (g : Given) (operand : String) : Given :=
  { g with operands := g.operands ++ [operand] }

inductive Word where
  | ending
  /-- a flag, or an option whose value may be attached -/
  | named (name : String) (attached : Option String)
  | letter (letter : Char) (attached : Option String)
  | operand (text : String)

/-- what is attached to the letter of an option; an equals sign in front does not count -/
def attachedTo : List Char → Option String
  | [] => none
  | '=' :: rest => some (String.ofList rest)
  | rest => some (String.ofList rest)

def word (argument : String) : Word :=
  match argument.toList with
  | ['-', '-'] => .ending
  | '-' :: '-' :: rest =>
    .named (String.ofList (rest.takeWhile (· ≠ '=')))
      ((rest.dropWhile (· ≠ '=')).tail?.map String.ofList)
  | '-' :: c :: rest => .letter c (attachedTo rest)
  | _ => .operand argument

/-- the option that a word names, and its attached value -/
def option? (f : Form) : Word → Option (String × Option String)
  | .named name attached =>
    if f.valued.any (·.1 = name) then some (name, attached) else none
  | .letter c attached =>
    (f.valued.find? (·.2 = some c)).map fun o => (o.1, attached)
  | _ => none

def read? (f : Form) : List String → Given → Option Given
  | [], g => some g
  | argument :: rest, g =>
    match word argument with
    | .ending => some { g with operands := g.operands ++ rest }
    | .operand text => read? f rest (g.addOperand text)
    | w =>
      match option? f w, w with
      | some (option, some value), _ => do read? f rest (← g.addValue? option value)
      | some (option, none), _ =>
        match rest with
        | [] => none
        | value :: rest =>
          match word value with
          | .operand value => do read? f rest (← g.addValue? option value)
          | _ => none
      | none, .named flag none =>
        if f.flags.contains flag then do read? f rest (← g.addFlag? flag) else none
      | _, _ => none

/-- a value that is a path, which must not be empty, or what stands for a missing one -/
def path? (g : Given) (option missing : String) : Option String :=
  match g.value? option with
  | some path => if path = "" then none else some path
  | none => some missing

end Given

namespace Command

def usualFile : String := "kiln.yaml"

def fileOption : String × Option Char := ("file", some 'f')

/-- the arguments of a command; only operands that the command knows are left -/
def given? (f : Form) (arguments : List String) : Option Given := do
  let g ← Given.read? f arguments .empty
  if g.operands.length ≤ (if f.operand then 1 else 0) then return g else failure

def ofArguments? : List String → Option Command
  | "init" :: arguments => do
    let g ← given? ⟨[], [], true⟩ arguments
    match g.operands with
    | [] => return init "."
    | directory :: _ => if directory = "" then failure else return init directory
  | "validate" :: arguments => do
    let g ← given? ⟨[fileOption], [], false⟩ arguments
    return validate (← g.path? "file" usualFile)
  | "services" :: arguments => do
    let g ← given? ⟨[fileOption, ("tag", some 't')], ["json"], false⟩ arguments
    return services (← g.path? "file" usualFile) (g.value? "tag") (g.flags.contains "json")
  | "compile" :: arguments => do
    let g ← given? ⟨[fileOption, ("cache-dir", none)], ["force"], false⟩ arguments
    let file ← g.path? "file" usualFile
    let force := g.flags.contains "force"
    match g.value? "cache-dir" with
    | some directory =>
      if directory = "" then failure else return compile file (some directory) force
    | none => if force then failure else return compile file none false
  | "commands" :: arguments => do
    let g ← given? ⟨[fileOption], [], false⟩ arguments
    return commands (← g.path? "file" usualFile)
  | _ => none

end Command
end ServiceGraph
