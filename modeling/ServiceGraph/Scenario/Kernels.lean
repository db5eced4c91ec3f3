import ServiceGraph.Command.Run
import ServiceGraph.Scenario.Caches
import ServiceGraph.Scenario.Containers
import ServiceGraph.Scenario.Extensions

/-!
# Scenarios of whole applications

* `KernelGoal`: what is made of a kernel, and the steps on it;
* `CachedStep`: a step with a cache of compiled artifacts;
* `CommandStep`: a command or a change of files.

The key of an artifact depends on where the files are. Scenarios show `<key1>`, `<key2>` and so on
for the keys in the order in which they come up.
-/

namespace ServiceGraph

/-! ## kernels -/

/-- what is made of a kernel, and the steps on it -/
inductive KernelGoal where
  | assemble (steps : Option (List RegistryStep))
  | container (steps : List ContainerStep)
  | compile

namespace KernelGoal

/-- steps on the assembled registry, or a dump of it -/
def registryReply (h : Heap SampleObject) (steps : Option (List RegistryStep)) (r : Registry) :
    Reply :=
  match steps with
  | some steps => Answer.together (Answer.each (RegistryStep.answer h) steps r)
  | none => RegistryStep.dumped r

/-- what comes of a kernel, and the journal of its extensions; nothing when a live object has no
end -/
def reach (k : Kernel Journal SampleObject) (f : Files) (h : Heap SampleObject) :
    KernelGoal → Option (Except KernelError Reply) × Journal
  | assemble steps =>
    let (r, journal) := k.assemble f []
    (some (r.map (registryReply h steps)), journal)
  | container steps =>
    let (c, journal) := k.container Sample.services f []
    (some (c.map fun c => Answer.together (ContainerStep.run c h steps)), journal)
  | compile =>
    let (source, journal) := k.compile Sample.services h f []
    (source.map (·.map .text), journal)

def answer? (k : Kernel Journal SampleObject) (f : Files) (h : Heap SampleObject)
    (goal : KernelGoal) : Option Answer :=
  match goal.reach k f h with
  | (none, _) => none
  | (some (.ok r), journal) =>
    some (.of h (.ok (.record [("log", Journal.reply journal), ("result", r)])))
  | (some (.error e), journal) => some ⟨.error (.kernel e), some journal, h⟩

end KernelGoal

/-! ## keys -/

/-- the keys of artifacts in the order in which they came up -/
abbrev KnownKeys := List String

namespace KnownKeys

/-- the key in the path of an artifact: sixteen characters before the ending -/
def keyOf (path : String) : String :=
  String.ofList ((path.toList.reverse.drop ".rs".length).take 16).reverse

def learn (keys : KnownKeys) (path : String) : KnownKeys :=
  if keys.contains (keyOf path) then keys else keys ++ [keyOf path]

/-- a text with a name in place of every key -/
def hide (keys : KnownKeys) (text : String) : String :=
  (keys.zipIdx 1).foldl (fun text (key, n) => text.replace key ("<key" ++ toString n ++ ">")) text

def listing (keys : KnownKeys) (f : Files) : Reply :=
  Reply.texts ((f.listing.map keys.hide).mergeSort (· ≤ ·))

end KnownKeys

/-! ## compiling with a cache -/

inductive CachedStep where
  /-- compile a kernel; the steps are those on a container that takes the place of an artifact -/
  | run (k : Kernel Journal SampleObject) (reuse : Bool) (steps : List ContainerStep)
  | refused (e : LoadError)
  | tamper (text : String)
  | discard
  | manifest
  | list
  | file (s : FileStep)

namespace CachedStep

structure State where
  files : Files
  heap : Heap SampleObject
  latest : Option String
  keys : KnownKeys

def runReply (kind : String) (f : Files) (keys : KnownKeys) (path : String)
    (journal : Journal) : Reply :=
  let digest := (f.readText path).toOption.bind Source.digestLine?
  .record [
    ("kind", .text kind), ("path", .text (keys.hide path)), ("log", Journal.reply journal),
    ("digest", Reply.optional .text digest)]

def finish (result : Option (Except KernelError (Compiled SampleObject))) (journal : Journal)
    (steps : List ContainerStep) (state : State) : Answer × State :=
  let noted (kind path : String) : Answer × State :=
    let state := { state with latest := some path, keys := state.keys.learn path }
    (.of state.heap (.ok (runReply kind state.files state.keys path journal)), state)
  match result with
  | none => (.of state.heap (.ok .nothing), state)
  | some (.error e) => (⟨.error (.kernel e), some journal, state.heap⟩, state)
  | some (.ok (.reused path)) => noted "Reused" path
  | some (.ok (.written path)) => noted "Written" path
  | some (.ok (.interpreted c)) =>
    let answers := ContainerStep.run c state.heap steps
    let heap := (answers.getLast?.map Answer.heap).getD state.heap
    (.of heap (.ok (.record [
      ("kind", .text "Interpreted"), ("path", .nothing), ("log", Journal.reply journal),
      ("steps", Answer.together answers)])), { state with heap })

/-- the parts of a manifest that do not depend on where the files are -/
def manifestReply (m : Manifest) : Reply :=
  .record [
    ("extensions", Reply.texts m.extensions), ("generator", .text m.generator),
    ("schema", .text m.schema), ("resources", CacheStep.resourcesReply m)]

def perform (a : Artifacts) (s : CachedStep) (state : State) : Answer × State :=
  let told (r : Reply) : Answer := .of state.heap (.ok r)
  let changed (s : String → FileStep) : Answer × State :=
    (told .nothing, match state.latest with
      | some path => { state with files := (s path).perform state.files }
      | none => state)
  match s with
  | run k reuse steps =>
    let (result, files, journal) :=
      k.compileInto a reuse Sample.services state.heap state.files []
    finish result journal steps { state with files }
  | refused e => (.of state.heap (.error (.load e)), state)
  | tamper text => changed (.write · (Digest.bytes text))
  | discard => changed .remove
  | manifest =>
    let found := state.latest.bind fun path =>
      (a.loadManifest state.files (KnownKeys.keyOf path)).toOption.join
    (told (Reply.optional manifestReply found), state)
  | list => (told (state.keys.listing state.files), state)
  | file s => (told .nothing, { state with files := s.perform state.files })

end CachedStep

/-! ## commands -/

inductive CommandStep where
  /-- nothing when the arguments name no command -/
  | run (c : Option Command)
  | file (s : FileStep)

namespace CommandStep

def artifactIn? (told : String) : Option String :=
  let line := (told.toList.takeWhile (· ≠ '\n'))
  ["Compiled: ", "Fresh: "].findSome? fun label =>
    if label.toList.isPrefixOf line then some (String.ofList (line.drop label.length)) else none

def outputReply (keys : KnownKeys) (o : Output) : Reply :=
  let text (s : String) : Reply := .text (keys.hide s)
  .record [
    ("stdout", text o.told), ("stderr", text o.warned), ("error", Reply.optional text o.error)]

/-- carry steps out; nothing stands for arguments that name no command. The files at the end come
last. -/
def performAll : List CommandStep → Files → KnownKeys → List (Option Reply) × Reply
  | [], f, keys => ([], keys.listing f)
  | .file s :: rest, f, keys =>
    let (replies, listing) := performAll rest (s.perform f) keys
    (some .nothing :: replies, listing)
  | .run none :: rest, f, keys =>
    let (replies, listing) := performAll rest f keys
    (none :: replies, listing)
  | .run (some c) :: rest, f, keys =>
    let (o, f) := c.run f
    let keys := ((artifactIn? o.told).map keys.learn).getD keys
    let (replies, listing) := performAll rest f keys
    (some (outputReply keys o) :: replies, listing)

end CommandStep
end ServiceGraph
