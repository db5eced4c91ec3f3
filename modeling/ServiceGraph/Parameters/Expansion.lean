import ServiceGraph.Parameters.Basic
import ServiceGraph.Value.Text

/-!
# Expanding references

Inside a string `%key%` stands for the parameter of that key. A string that is one reference takes
the parameter's value; in a longer string the text of a scalar is put in its place. `%%` is a
percent sign, and a percent sign that opens no reference stands for itself. After a dot a key may
hold a reference of its own, `%db.%env%.host%`, whose text becomes part of the key.

* `Reading.reference`: the key after an opening percent sign;
* `Reading.segments`: a string as texts and keys;
* `Value.expandWith look`: a value with every string expanded, `look` answering for the keys;
* `Parameters.lookup p room`: the expanded value of a key, over chains of at most `room` keys;
* `Parameters.get`, `expand`, `expandText`, `resolve`: expansion with room for a chain of as many
  keys as the tree has leaves, and two more.
-/

namespace ServiceGraph

abbrev Expansion (α : Type) := Except ParameterError α

theorem Expansion.bind_eq_ok {α β : Type} {x : Expansion α} {f : α → Expansion β} {b : β}
    (h : (x >>= f) = .ok b) : ∃ a, x = .ok a ∧ f a = .ok b := by
  cases x with
  | error e => cases h
  | ok a => exact ⟨a, rfl, h⟩

theorem Expansion.bind_eq_error {α β : Type} {x : Expansion α} {f : α → Expansion β}
    {e : ParameterError} :
    (x >>= f) = .error e ↔ x = .error e ∨ ∃ a, x = .ok a ∧ f a = .error e := by
  cases x <;> simp [bind, Except.bind]

inductive Segment where
  | text (s : String)
  | reference (key : String)
deriving DecidableEq, Repr

namespace Reading

def keyChar (c : Char) : Bool :=
  c.isAlphanum || c == '_' || c == '.' || c == '-'

/-- the text that a value leaves inside a longer string -/
def spliced (key template : String) (v : Value) : Expansion String :=
  match v.interpolated? with
  | some piece => .ok piece
  | none => .error (.nonScalar key v.kind template)

/-- read a reference after its opening percent sign: its key, and how many characters it takes.
`key` is what was read of the key, last character first; `outer` holds the unfinished keys around
it. Nothing is read when the reference is malformed. -/
def reference (look : String → Expansion Value) (template : String)
    (outer : List (List Char)) (key : List Char) (used : Nat) :
    List Char → Expansion (Option (String × Nat))
  | [] => .ok none
  | c :: rest =>
    if c = '%' then
      match key with
      | [] => .ok none
      | last :: _ =>
        if last = '.' then reference look template (key :: outer) [] (used + 1) rest
        else
          let name := String.ofList key.reverse
          match outer with
          | [] => .ok (some (name, used + 1))
          | around :: outer => do
            let piece ← spliced name template (← look name)
            reference look template outer (piece.toList.reverse ++ around) (used + 1) rest
    else if keyChar c then reference look template outer (c :: key) (used + 1) rest
    else .ok none

/-- a stretch of text, last character first, as a segment unless it is empty -/
def flush (text : List Char) : List Segment :=
  if text = [] then [] else [.text (String.ofList text.reverse)]

/-- cut a string into texts and keys. `skip` characters belong to a reference already read, `text`
is the stretch of text so far, last character first. -/
def segments (look : String → Expansion Value) (template : String)
    (skip : Nat) (text : List Char) : List Char → Expansion (List Segment)
  | [] => .ok (flush text)
  | c :: rest =>
    match skip with
    | skip + 1 => segments look template skip text rest
    | 0 =>
      if c ≠ '%' then segments look template 0 (c :: text) rest
      else if rest.head? = some '%' then segments look template 1 ('%' :: text) rest
      else do
        match ← reference look template [] [] 0 rest with
        | some (key, used) =>
          return flush text ++ .reference key :: (← segments look template used [] rest)
        | none => segments look template 0 ('%' :: text) rest

/-- the texts of all segments, one after the other -/
def spell (look : String → Expansion Value) (template : String) :
    List Segment → Expansion String
  | [] => .ok ""
  | .text s :: rest => return s ++ (← spell look template rest)
  | .reference key :: rest => do
    let piece ← spliced key template (← look key)
    return piece ++ (← spell look template rest)

def interpolate (look : String → Expansion Value) (template : String) : Expansion Value := do
  match ← segments look template 0 [] template.toList with
  | [.reference key] => look key
  | parts => return .str (← spell look template parts)

end Reading

namespace Value

mutual

/-- a value with every string in it expanded -/
def expandWith (look : String → Expansion Value) : Value → Expansion Value
  | str s => if s.toList.contains '%' then Reading.interpolate look s else .ok (str s)
  | list items => return list (← expandItems look items)
  | map entries => return map (← expandEntries look entries)
  | v => .ok v

def expandItems (look : String → Expansion Value) : List Value → Expansion (List Value)
  | [] => .ok []
  | v :: vs => return (← expandWith look v) :: (← expandItems look vs)

def expandEntries (look : String → Expansion Value) :
    List (String × Value) → Expansion (List (String × Value))
  | [] => .ok []
  | (k, v) :: vs => return (k, ← expandWith look v) :: (← expandEntries look vs)

end

end Value

namespace Parameters

/-- the part of a chain of keys that closes it: from the first occurrence of its last key -/
def closing (chain : List String) : List String :=
  match chain.getLast? with
  | some last => chain.dropWhile (· ≠ last)
  | none => []

/-- the expanded value of a key, when at most `room` keys may be passed on the way; `chain` holds
the keys passed before -/
def lookup (p : Parameters) : Nat → List String → String → Expansion Value
  | 0, chain, key => .error (.cycle (closing (chain ++ [key])))
  | room + 1, chain, key =>
    match p.raw? key with
    | none => .error (.unknown key)
    | some v =>
      if p.resolved then .ok v else v.expandWith (lookup p room (chain ++ [key]))

/-- the longest chain of keys that is followed -/
def room (p : Parameters) : Nat := p.leaves + 2

/-- the value of a key where no chain has begun -/
def find (p : Parameters) (key : String) : Expansion Value :=
  p.lookup p.room [] key

theorem find_of_unknown {p : Parameters} {key : String} (hkey : p.raw? key = none) :
    p.find key = .error (.unknown key) := by
  rw [find, room, lookup, hkey]

/-- a resolved tree gives a key its value as it stands -/
theorem find_of_resolved {p : Parameters} (hp : p.resolved = true) {key : String} {v : Value}
    (hv : p.raw? key = some v) : p.find key = .ok v := by
  rw [find, room, lookup, hv]
  exact if_pos hp

/-- a key with the references in it expanded -/
def expandKey (p : Parameters) (key : String) : Expansion String :=
  if key.toList.contains '%' then do
    Reading.spliced key key (← Reading.interpolate p.find key)
  else .ok key

/-- the expanded value of a key, which may hold references itself -/
def get (p : Parameters) (key : String) : Expansion Value := do
  p.find (← p.expandKey key)

def expand (p : Parameters) (v : Value) : Expansion Value :=
  v.expandWith p.find

def expandText (p : Parameters) (template : String) : Expansion Value :=
  Reading.interpolate p.find template

/-- expand every top-level entry; its own key is the first of each chain -/
def resolveEntries (p : Parameters) : OrderedMap Value → Expansion (OrderedMap Value)
  | [] => .ok []
  | (k, v) :: rest => do
    let v ← v.expandWith (p.lookup (p.room - 1) [k])
    return (k, v) :: (← resolveEntries p rest)

def resolve (p : Parameters) : Expansion Parameters :=
  if p.resolved then .ok p else return ⟨← resolveEntries p p.tree, true⟩

end Parameters
end ServiceGraph
