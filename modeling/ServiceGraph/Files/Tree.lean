import ServiceGraph.Files.Fault
import ServiceGraph.Files.Path

/-!
# A tree of files

* `Place`: where a file or directory is; `Entry`: what is there;
* `Files`: what is at each place, and the directory from which relative paths start;
* `Files.locate`: the place that a path names; every name on the way has to be that of a
  directory;
* `Files.read`, `Files.readText`, `Files.exists`: looking at files;
* `Files.write`, `Files.makeDirectory`, `Files.makeDirectories`, `Files.replace`, `Files.remove`:
  changes;
* `Files.listing`: the files below the current directory.
-/

namespace ServiceGraph

/-- a place in the tree: the names on the way to it, the innermost first -/
abbrev Place := List String

def Place.path (p : Place) : String := "/" ++ "/".intercalate p.reverse

inductive Entry where
  | file (content : List UInt8)
  | directory
deriving DecidableEq

/-- a tree of files; its root is always a directory -/
structure Files where
  entries : List (Place × Entry)
  here : Place

namespace Files

/-! ## places -/

def entry? (f : Files) (p : Place) : Option Entry :=
  if p = [] then some .directory else f.entries.lookup p

def put (f : Files) (p : Place) (e : Entry) : Files :=
  { f with entries := (p, e) :: f.entries.filter (·.1 ≠ p) }

def drop (f : Files) (p : Place) : Files :=
  { f with entries := f.entries.filter (·.1 ≠ p) }

/-- empty but for the current directory and those around it -/
def emptyAt (here : Place) : Files :=
  ⟨directories here, here⟩
where
  /-- a place and those around it as directories -/
  directories : Place → List (Place × Entry)
    | [] => []
    | name :: around => (name :: around, .directory) :: directories around

def expectDirectory (f : Files) (p : Place) : Except FileFault Unit :=
  match f.entry? p with
  | some .directory => .ok ()
  | some (.file _) => .error .notADirectory
  | none => .error .notFound

/-- follow names from a place; what is at the last one is not looked at -/
def walk (f : Files) : Place → List String → Except FileFault Place
  | p, [] => .ok p
  | p, name :: rest => do
    f.expectDirectory p
    f.walk (if name = "." then p else if name = ".." then p.tail else name :: p) rest

def start (f : Files) (p : Path) : Place := if p.rooted then [] else f.here

/-- the place that a path names; something has to be there -/
def locate (f : Files) (path : String) : Except FileFault Place := do
  let p := Path.ofText path
  if p.names = [] ∧ ¬ p.rooted then throw .notFound
  let place ← f.walk (f.start p) p.names
  match f.entry? place with
  | none => throw .notFound
  | some (.file _) => if p.closed then throw .notADirectory else return place
  | some .directory => return place

/-- the place at which a path would put something; none when its last name is made of dots or
missing, so that it can only mean a directory that is there -/
def goal (f : Files) (p : Path) : Except FileFault (Option Place) :=
  match p.names.getLast? with
  | none => if p.rooted then .ok none else .error .notFound
  | some last => do
    let around ← f.walk (f.start p) p.names.dropLast
    f.expectDirectory around
    return if Path.isDots last then none else some (last :: around)

/-! ## looking -/

def exists? (f : Files) (path : String) : Bool := (f.locate path).isOk

def isDirectory (f : Files) (path : String) : Bool :=
  match f.locate path with
  | .ok place => f.entry? place = some .directory
  | .error _ => false

def read (f : Files) (path : String) : Except FileFault (List UInt8) := do
  match f.entry? (← f.locate path) with
  | some (.file content) => return content
  | _ => throw .isADirectory

def textOf (content : List UInt8) : Except FileFault String :=
  match String.fromUTF8? ⟨content.toArray⟩ with
  | some text => .ok text
  | none => .error .notText

def readText (f : Files) (path : String) : Except FileFault String := do
  textOf (← f.read path)

/-- what is below a place, each with the names on the way to it -/
def below (f : Files) (p : Place) : List (List String × Entry) :=
  f.entries.filterMap fun (q, e) =>
    if q.length > p.length ∧ q.drop (q.length - p.length) = p
    then some ((q.take (q.length - p.length)).reverse, e) else none

def listing (f : Files) : List String :=
  let files := (f.below f.here).filter (·.2 ≠ .directory)
  (files.map fun e => "/".intercalate e.1).mergeSort (· ≤ ·)

/-! ## changing -/

def makeDirectory (f : Files) (p : Path) : Except FileFault Files := do
  match ← f.goal p with
  | none => throw .alreadyExists
  | some place =>
    if (f.entry? place).isSome then throw .alreadyExists else return f.put place .directory

/-- a path and the paths of the directories around it, the outermost last -/
def around (p : Path) : List Path :=
  go p p.steps.dropLast.reverse
where
  /-- the path, and those that the reversed names give -/
  go (p : Path) : List String → List Path
    | [] => [p]
    | name :: names =>
      p :: go { p with names := (name :: names).reverse, closed := false } names

/-- make a directory at the first path, after those at the others when they are missing -/
def makeEach (f : Files) : List Path → Except FileFault Unit × Files
  | [] => (.ok (), f)
  | p :: around =>
    match f.makeDirectory p with
    | .ok f => (.ok (), f)
    | .error .notFound =>
      match f.makeEach around with
      | (.ok (), f) => settle f p (f.makeDirectory p)
      | (.error e, f) => (.error e, f)
    | .error e => settle f p (.error e)
where
  /-- a directory that is there is as good as one that is made -/
  settle (f : Files) (p : Path) : Except FileFault Files → Except FileFault Unit × Files
    | .ok f => (.ok (), f)
    | .error e =>
      match f.walk (f.start p) p.names with
      | .ok place =>
        if f.entry? place = some .directory then (.ok (), f) else (.error e, f)
      | .error _ => (.error e, f)

/-- make a directory and those around it; an empty path names the current one -/
def makeDirectories (f : Files) (p : Path) : Except FileFault Unit × Files :=
  if p.names = [] then (.ok (), f) else f.makeEach (around p)

/-- write a file, whatever was in it -/
def write (f : Files) (path : String) (content : List UInt8) : Except FileFault Files := do
  let p := Path.ofText path
  match ← f.goal p with
  | none => throw .isADirectory
  | some place =>
    if p.closed ∨ f.entry? place = some .directory then throw .isADirectory
    else return f.put place (.file content)

/-- bring a file into being at once, with the directories around it: it is written beside its
place and then moved there -/
def replace (f : Files) (path : String) (content : List UInt8) : Except FileFault Unit × Files :=
  let p := Path.ofText path
  let (made, f) := match p.parent? with
    | some around => f.makeDirectories around
    | none => (.ok (), f)
  match made with
  | .error e => (.error e, f)
  | .ok () =>
    match f.goal p with
    | .error e => (.error e, f)
    | .ok none => (.error .busy, f)
    | .ok (some place) =>
      if p.closed then (.error .notADirectory, f)
      else if f.entry? place = some .directory then (.error .isADirectory, f)
      else (.ok (), f.put place (.file content))

def remove (f : Files) (path : String) : Except FileFault Files := do
  let place ← f.locate path
  if f.entry? place = some .directory then throw .isADirectory else return f.drop place

end Files
end ServiceGraph
