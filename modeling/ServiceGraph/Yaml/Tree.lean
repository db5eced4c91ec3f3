import ServiceGraph.OrderedMap
import ServiceGraph.Yaml.Token.Stream

/-!
# The tree of a document

* `Tree`: scalars, lists and maps as written, with their tags; an alias names the node it stands
  for by a number;
* `Document`: the root of a text, and the nodes that aliases stand for;
* `Document.ofTokens?`: the tree that tokens write. A text holds at most one document.

An anchor takes as its number how many names have been given before it. A name given anew takes a
new number, which the next new name takes as well; the number then stands for the later node.
-/

namespace ServiceGraph.Yaml

inductive Tree where
  /-- the root of a text without document -/
  | void
  | reference (number : Nat)
  | scalar (text : String) (style : Style) (tag : Option String)
  | list (items : List Tree) (tag : Option String)
  | map (entries : List (Tree × Tree)) (tag : Option String)
deriving Repr

/-- a node with an anchor: its number, and where in the document it begins -/
structure Anchored where
  number : Nat
  position : Nat
  tree : Tree

structure Document where
  root : Tree
  /-- the nodes with anchors, in the order of their ends -/
  anchored : List Anchored
  /-- the number of marks: one for a scalar or an alias, two for a list or a map -/
  marks : Nat

namespace Document

/-- the node that an alias with a number stands for: the one that begins last -/
def target? (d : Document) (number : Nat) : Option Tree :=
  let found := d.anchored.filter (·.number = number)
  (found.foldl (fun (best : Option Anchored) a =>
    match best with
    | some b => if b.position < a.position then some a else some b
    | none => some a) none).map Anchored.tree

end Document

namespace Tree

structure Building where
  tokens : List Token
  /-- the numbers of the names given so far -/
  names : OrderedMap Nat
  anchored : List Anchored
  marks : Nat
  handles : OrderedMap String

abbrev Build (α : Type) := StateT Building Option α

def peek : Build (Option Token) := return (← get).tokens.head?

def advance : Build Unit := modify fun b => { b with tokens := b.tokens.drop 1 }

def sees (ts : List Token) : Build Bool := return (← peek).any ts.contains

/-- pass a token that must come next -/
def expect (t : Token) : Build Unit := do
  if (← peek) = some t then advance else failure

def count (n : Nat) : Build Unit := modify fun b => { b with marks := b.marks + n }

/-- an empty scalar where a node is left out -/
def emptyScalar : Build Tree := do
  count 1
  return .scalar "" .plain none

/-- the anchor and the tag in front of a node, each at most once and in any order -/
def properties : Build (Option String × Option (String × String)) := do
  match ← peek with
  | some (.anchor name) =>
    advance
    match ← peek with
    | some (.tag handle suffix) =>
      advance
      return (some name, some (handle, suffix))
    | _ => return (some name, none)
  | some (.tag handle suffix) =>
    advance
    match ← peek with
    | some (.anchor name) =>
      advance
      return (some name, some (handle, suffix))
    | _ => return (none, some (handle, suffix))
  | _ => return (none, none)

def expandTag : Option (String × String) → Build (Option String)
  | none => return none
  | some (handle, suffix) => do
    if handle = "" then return some suffix
    else match (← get).handles.get? handle with
      | some expansion => return some (expansion ++ suffix)
      | none => failure

/-- give a name to the node that begins here: its number and its position -/
def name (anchor : String) : Build (Nat × Nat) := do
  let b ← get
  let number := b.names.length
  set { b with names := b.names.insert anchor number }
  return (number, b.marks)

/-- keep a finished node under the number of its name -/
def keep (place : Option (Nat × Nat)) (t : Tree) : Build Tree := do
  if let some (number, position) := place then
    modify fun b => { b with anchored := b.anchored ++ [⟨number, position, t⟩] }
  return t

/-- the tag of a scalar: a lone exclamation mark is none -/
def scalarTag (tag : Option String) : Option String := tag.filter (· ≠ "!")

mutual

/-- a node. `block` allows blocks, `dashes` a list whose dashes stand below its key. -/
def node (block dashes : Bool) : (room : Nat) → Build Tree
  | 0 => failure
  | room + 1 => do
    if let some (.reference anchor) := ← peek then
      advance
      count 1
      match (← get).names.get? anchor with
      | some number => return .reference number
      | none => failure
    let (anchor, tag) ← properties
    let tag ← expandTag tag
    let place ← anchor.mapM name
    match ← peek with
    | some (.scalar text style) =>
      advance
      count 1
      keep place (.scalar text style (scalarTag tag))
    | some .flowList =>
      advance
      count 2
      keep place (.list (← flowItems true room) tag)
    | some .flowMap =>
      advance
      count 2
      keep place (.map (← flowEntries true room) tag)
    | some .blockList =>
      if block then
        advance
        count 2
        keep place (.list (← blockItems room) tag)
      else bare place anchor tag
    | some .blockMap =>
      if block then
        advance
        count 2
        keep place (.map (← blockEntries room) tag)
      else bare place anchor tag
    | some .blockEntry =>
      if dashes then
        count 2
        keep place (.list (← dashItems room) tag)
      else bare place anchor tag
    | _ => bare place anchor tag
where
  /-- properties without a node are those of an empty scalar -/
  bare (place : Option (Nat × Nat)) (anchor tag : Option String) : Build Tree := do
    if anchor.isSome || tag.isSome then
      count 1
      keep place (.scalar "" .plain tag)
    else failure

def blockItems : (room : Nat) → Build (List Tree)
  | 0 => failure
  | room + 1 => do
    if (← peek) = some .blockEnd then
      advance
      return []
    expect .blockEntry
    let item ←
      if ← sees [.blockEntry, .blockEnd] then emptyScalar else node true false room
    return item :: (← blockItems room)

/-- the items of a list whose dashes stand below its key -/
def dashItems : (room : Nat) → Build (List Tree)
  | 0 => failure
  | room + 1 => do
    if (← peek) = some .blockEntry then
      advance
      let item ←
        if ← sees [.blockEntry, .key, .value, .blockEnd] then emptyScalar
        else node true false room
      return item :: (← dashItems room)
    else return []

def blockEntries : (room : Nat) → Build (List (Tree × Tree))
  | 0 => failure
  | room + 1 => do
    if (← peek) = some .blockEnd then
      advance
      return []
    expect .key
    let key ←
      if ← sees [.key, .value, .blockEnd] then emptyScalar else node true true room
    let value ←
      if ← sees [.value] then do
        advance
        if ← sees [.key, .value, .blockEnd] then emptyScalar else node true true room
      else emptyScalar
    return (key, value) :: (← blockEntries room)

/-- the items of a list in brackets, and its end; a key makes an item a map of one entry -/
def flowItems (first : Bool) : (room : Nat) → Build (List Tree)
  | 0 => failure
  | room + 1 => do
    if ← sees [.flowListEnd] then
      advance
      return []
    if !first then expect .flowEntry
    if ← sees [.flowListEnd] then
      advance
      return []
    let item ←
      if ← sees [.key] then do
        advance
        count 2
        let key ←
          if ← sees [.value, .flowEntry, .flowListEnd] then do
            advance
            emptyScalar
          else node false false room
        let value ←
          if ← sees [.value] then do
            advance
            if ← sees [.flowEntry, .flowListEnd] then emptyScalar else node false false room
          else emptyScalar
        pure (Tree.map [(key, value)] none)
      else node false false room
    return item :: (← flowItems false room)

/-- the entries of a map in braces, and its end; an entry without key mark has no value -/
def flowEntries (first : Bool) : (room : Nat) → Build (List (Tree × Tree))
  | 0 => failure
  | room + 1 => do
    if ← sees [.flowMapEnd] then
      advance
      return []
    if !first then expect .flowEntry
    if ← sees [.flowMapEnd] then
      advance
      return []
    let entry ←
      if ← sees [.key] then do
        advance
        let key ←
          if ← sees [.value, .flowEntry, .flowMapEnd] then emptyScalar
          else node false false room
        let value ←
          if ← sees [.value] then do
            advance
            if ← sees [.flowEntry, .flowMapEnd] then emptyScalar else node false false room
          else emptyScalar
        pure (key, value)
      else do
        let key ← node false false room
        pure (key, ← emptyScalar)
    return entry :: (← flowEntries false room)

end

/-- the directives before a document; at most one states a version, and no handle is defined
twice -/
def directives (versioned : Bool) : (room : Nat) → Build Unit
  | 0 => failure
  | room + 1 => do
    match ← peek with
    | some (.version major minor) =>
      if versioned || major ≠ 1 || (minor ≠ 1 && minor ≠ 2) then failure
      advance
      directives true room
    | some (.tagDirective handle expansion) =>
      let b ← get
      if b.handles.contains handle then failure
      set { b with handles := b.handles ++ [(handle, expansion)] }
      advance
      directives versioned room
    | _ => return ()

def usualHandles : OrderedMap String := [("!", "!"), ("!!", "tag:yaml.org,2002:")]

def documentEnds : (room : Nat) → Build Unit
  | 0 => failure
  | room + 1 => do
    if ← sees [.documentEnd] then
      advance
      documentEnds room
    else return ()

def document (room : Nat) : Build Tree := do
  match ← peek with
  | none =>
    count 1
    return .void
  | some first =>
    let explicit := match first with
      | .version .. | .tagDirective .. | .documentStart => true
      | _ => false
    directives false room
    modify fun b => { b with
      handles := b.handles ++ usualHandles.filter fun h => !b.handles.contains h.1 }
    if explicit then expect .documentStart
    let root ← match ← peek with
      | none | some .documentStart | some .documentEnd | some (.version ..)
      | some (.tagDirective ..) => if explicit then emptyScalar else failure
      | some _ => node true false room
    documentEnds room
    if (← peek).isSome then failure
    return root

end Tree

namespace Document

/-- the document that tokens write; with two steps for a token there is room enough -/
def ofTokens? (tokens : List Token) : Option Document := do
  let room := 2 * tokens.length + 4
  let (root, b) ← (Tree.document room).run ⟨tokens, [], [], 0, []⟩
  return ⟨root, b.anchored, b.marks⟩

def ofText? (text : String) : Option Document := do
  ofTokens? (← Token.ofText? text)

end Document
end ServiceGraph.Yaml
