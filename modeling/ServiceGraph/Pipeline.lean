import ServiceGraph.Node.Basic

/-!
# Ordered pipelines with anchors

Several extensions contribute to one ordered list. An anchor claims a position before its content
is known; the content is supplied apart and takes the place of the anchor's first occurrence.

* `Pipeline`: the entries in order, and what is known of each anchor;
* `Pipeline.append`, `appendKeyed`, `anchor`, `resolveAnchor`: contributions;
* `Pipeline.assemble`: the final order, once. It fails when an anchor has content but no place, or
  a place but no content;
* `AssemblyError`: what stops the assembly of pipelines and of route collections.
-/

namespace ServiceGraph

/-- what stops the assembly of a pipeline or of the route collections -/
inductive AssemblyError where
  | alreadyAssembled (name : String)
  | unresolvedAnchor (pipeline anchor : String)
  | unreferencedAnchor (pipeline anchor : String)
  /-- a configured group was never created -/
  | unconsumedGroup (group : String) (origin : Option String)
  | duplicateCollection (id : String)
  | unknownParent (id parent : String)
  | collectionCycle (id : String)
deriving DecidableEq, Repr

namespace AssemblyError

def message : AssemblyError → String
  | alreadyAssembled name => "'" ++ name ++ "' has already been assembled"
  | unresolvedAnchor pipeline anchor =>
    "anchor '" ++ anchor ++ "' in pipeline '" ++ pipeline ++
      "' was referenced but never resolved"
  | unreferencedAnchor pipeline anchor =>
    "anchor '" ++ anchor ++ "' in pipeline '" ++ pipeline ++
      "' was resolved but never referenced"
  | unconsumedGroup group origin =>
    let source := match origin with
      | some o => " (from '" ++ o ++ "')"
      | none => ""
    "configuration for '@" ++ group ++ "'" ++ source ++
      " was never consumed: no collection '" ++ group ++ "' was created"
  | duplicateCollection id => "route collection '" ++ id ++ "' is already defined"
  | unknownParent id parent =>
    "route collection '" ++ id ++ "' names unknown parent '" ++ parent ++ "'"
  | collectionCycle id => "route collections form a cycle through '" ++ id ++ "'"

variable {α β : Type} {b : β}

theorem bind_eq_ok_iff {x : Except AssemblyError α} {f : α → Except AssemblyError β} :
    (x >>= f) = .ok b ↔ ∃ v, x = .ok v ∧ f v = .ok b := by
  cases x with
  | error e => exact ⟨nofun, nofun⟩
  | ok v => simp [bind, Except.bind]

theorem check_eq_ok_iff {check : Except AssemblyError Unit} {rest : Except AssemblyError β} :
    (check >>= fun _ => rest) = .ok b ↔ check = .ok () ∧ rest = .ok b := by
  rw [bind_eq_ok_iff]
  exact ⟨fun ⟨_, h⟩ => h, fun h => ⟨(), h⟩⟩

theorem map_eq_ok_iff {x : Except AssemblyError α} {f : α → β} :
    x.map f = .ok b ↔ ∃ v, x = .ok v ∧ f v = b := by
  cases x <;> simp [Except.map]

/-- an error that a check does not raise comes after it -/
theorem check_eq_error_iff {check : Except AssemblyError Unit} {rest : Except AssemblyError β}
    {e : AssemblyError} (h : check ≠ .error e) :
    (check >>= fun _ => rest) = .error e ↔ check = .ok () ∧ rest = .error e := by
  cases check with
  | error e' => exact ⟨fun heq => absurd (congrArg _ (Except.error.inj heq)) h, nofun⟩
  | ok u => exact ⟨fun heq => ⟨rfl, heq⟩, fun heq => heq.2⟩

end AssemblyError

namespace Pipeline

/-- how far an anchor has come -/
inductive AnchorState where
  | pending
  | resolved
  | flushed
deriving DecidableEq, Repr

structure Anchor where
  content : Option (List Node)
  state : AnchorState
deriving DecidableEq

inductive Entry where
  | item (key : Option String) (node : Node)
  | anchor (name : String)
deriving DecidableEq

end Pipeline

/-- an ordered list of contributions -/
structure Pipeline where
  name : String
  entries : List Pipeline.Entry
  anchors : OrderedMap Pipeline.Anchor
  assembled : Bool
deriving DecidableEq

namespace Pipeline

def empty (name : String) : Pipeline := ⟨name, [], [], false⟩

def size (p : Pipeline) : Nat := p.entries.length

/-- nothing is accepted once the pipeline is assembled -/
def ensureOpen (p : Pipeline) : Except AssemblyError Unit :=
  if p.assembled then .error (.alreadyAssembled p.name) else .ok ()

def append (p : Pipeline) (node : Node) : Except AssemblyError Pipeline := do
  p.ensureOpen
  return { p with entries := p.entries ++ [.item none node] }

/-- put a node where a key stands, or at the end when it is new -/
def placeKeyed (key : String) (node : Node) : List Entry → List Entry
  | [] => [.item (some key) node]
  | .item k old :: rest =>
    if k = some key then .item k node :: rest else .item k old :: placeKeyed key node rest
  | .anchor name :: rest => .anchor name :: placeKeyed key node rest

/-- add an entry under a key; an earlier entry with the key is replaced in place -/
def appendKeyed (p : Pipeline) (key : String) (node : Node) : Except AssemblyError Pipeline := do
  p.ensureOpen
  return { p with entries := placeKeyed key node p.entries }

/-- what is known of an anchor; of a new one, nothing -/
def anchorOf (p : Pipeline) (name : String) : Anchor :=
  (p.anchors.get? name).getD ⟨none, .pending⟩

/-- claim the position at the end for an anchor -/
def anchor (p : Pipeline) (name : String) : Except AssemblyError Pipeline := do
  p.ensureOpen
  return { p with
    entries := p.entries ++ [.anchor name]
    anchors := p.anchors.insert name (p.anchorOf name) }

/-- supply or replace the content of an anchor -/
def resolveAnchor (p : Pipeline) (name : String) (content : List Node) :
    Except AssemblyError Pipeline := do
  p.ensureOpen
  return { p with anchors := p.anchors.insert name ⟨some content, .resolved⟩ }

def stateOf? (p : Pipeline) (name : String) : Option AnchorState :=
  (p.anchors.get? name).map Anchor.state

/-- an entry claims a position for the anchor -/
def references (p : Pipeline) (name : String) : Bool :=
  p.entries.contains (.anchor name)

/-- the first anchor that has content and no position -/
def unreferenced? (p : Pipeline) : Option String :=
  (p.anchors.find? fun a => a.2.content.isSome && !p.references a.1).map Prod.fst

/-- the nodes in order; `done` holds the anchors that already gave their content -/
def spliced (p : Pipeline) (done : List String) : List Entry → Except AssemblyError (List Node)
  | [] => .ok []
  | .item _ node :: rest => return node :: (← spliced p done rest)
  | .anchor name :: rest =>
    if done.contains name then spliced p done rest
    else match (p.anchorOf name).content with
      | none => .error (.unresolvedAnchor p.name name)
      | some content => return content ++ (← spliced p (name :: done) rest)

/-- the final order, and the pipeline that accepts nothing more -/
def assemble (p : Pipeline) : Except AssemblyError (List Node × Pipeline) := do
  p.ensureOpen
  match p.unreferenced? with
  | some name => .error (.unreferencedAnchor p.name name)
  | none =>
    let nodes ← p.spliced [] p.entries
    return (nodes, { p with
      anchors := p.anchors.map fun a => (a.1, { a.2 with state := .flushed })
      assembled := true })

end Pipeline
end ServiceGraph
