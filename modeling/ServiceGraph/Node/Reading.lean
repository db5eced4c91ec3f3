import ServiceGraph.Node.Basic
import ServiceGraph.Parameters.Expansion

/-!
# Nodes written as values

In a configuration a string may stand for something else: `@id` refers to a service, `@?id` refers
to it if it exists, `@@text` is the string `@text`, and a string `%key%` that is one plain
reference is a parameter.

* `Node.ofText`: the node that a string writes;
* `Node.ofValue`: the node that a value writes. A list or map whose elements are all literals is a
  literal itself, otherwise it is an array or a record (`ofItems_cases`, `ofEntries_cases`).
-/

namespace ServiceGraph.Node

/-- the key of a string that is one plain reference -/
def wholeKey? (s : List Char) : Option String :=
  match s with
  | '%' :: rest =>
    let key := rest.dropLast
    if rest.getLast? = some '%' ∧ key ≠ [] ∧ key.all Reading.keyChar then
      some (String.ofList key)
    else none
  | _ => none

def ofText (s : String) : Node :=
  match s.toList with
  | '@' :: '@' :: rest => literal (.str (String.ofList ('@' :: rest)))
  | '@' :: '?' :: rest => reference (String.ofList rest) true
  | '@' :: c :: rest => reference (String.ofList (c :: rest)) false
  | cs =>
    match wholeKey? cs with
    | some key => parameter key
    | none => literal (.str s)

/-- the list of some nodes: a literal when they all are -/
def ofItems (nodes : List Node) : Node :=
  match nodes.mapM literal? with
  | some items => literal (.list items)
  | none => array nodes

/-- the map of some nodes: a literal when they all are -/
def ofEntries (entries : List (String × Node)) : Node :=
  match entries.mapM fun e => (literal? e.2).map fun v => (e.1, v) with
  | some entries => literal (.map entries)
  | none => record entries

mutual

def ofValue : Value → Node
  | .str s => ofText s
  | .list items => ofItems (ofValues items)
  | .map entries => ofEntries (ofFields entries)
  | v => literal v

def ofValues : List Value → List Node
  | [] => []
  | v :: vs => ofValue v :: ofValues vs

def ofFields : List (String × Value) → List (String × Node)
  | [] => []
  | (k, v) :: vs => (k, ofValue v) :: ofFields vs

end

/-! ## collections of literals -/

def literalEntry (e : String × Value) : String × Node := (e.1, literal e.2)

theorem mapM_eq_some_iff_eq_map {α β : Type} {f : α → Option β} {g : β → α}
    (h : ∀ a b, f a = some b ↔ a = g b) {as : List α} {bs : List β} :
    as.mapM f = some bs ↔ as = bs.map g := by
  induction as generalizing bs with
  | nil => cases bs <;> simp
  | cons a as ih =>
    have hcons : (a :: as).mapM f = some bs ↔
        ∃ b, f a = some b ∧ ∃ rest, as.mapM f = some rest ∧ b :: rest = bs := by
      simp [Option.bind_eq_some_iff]
    rw [hcons]
    cases bs with
    | nil => simp
    | cons b bs => simp [h, ih]

theorem literal?_eq_some_iff {n : Node} {v : Value} : literal? n = some v ↔ n = literal v := by
  cases n <;> simp [literal?]

theorem mapM_literal?_eq_some_iff {nodes : List Node} {vs : List Value} :
    nodes.mapM literal? = some vs ↔ nodes = vs.map literal :=
  mapM_eq_some_iff_eq_map fun _ _ => literal?_eq_some_iff

theorem mapM_entry_eq_some_iff {entries : List (String × Node)} {es : List (String × Value)} :
    (entries.mapM fun e => (literal? e.2).map fun v => (e.1, v)) = some es ↔
      entries = es.map literalEntry := by
  refine mapM_eq_some_iff_eq_map fun ⟨k, n⟩ ⟨l, v⟩ => ?_
  rw [Option.map_eq_some_iff]
  constructor
  · rintro ⟨w, hw, heq⟩
    cases heq
    exact congrArg (Prod.mk k) (literal?_eq_some_iff.mp hw)
  · intro h
    cases h
    exact ⟨v, rfl, rfl⟩

theorem ofItems_literals (vs : List Value) : ofItems (vs.map literal) = literal (.list vs) := by
  rw [ofItems, mapM_literal?_eq_some_iff.mpr rfl]

theorem ofEntries_literals (es : List (String × Value)) :
    ofEntries (es.map literalEntry) = literal (.map es) := by
  rw [ofEntries, mapM_entry_eq_some_iff.mpr rfl]

/-- a list of nodes is one literal when they all are literals, and an array otherwise -/
theorem ofItems_cases (nodes : List Node) :
    (∃ vs, nodes = vs.map literal ∧ ofItems nodes = literal (.list vs)) ∨
      ofItems nodes = array nodes := by
  rw [ofItems]
  split
  case h_1 vs hvs => exact .inl ⟨vs, mapM_literal?_eq_some_iff.mp hvs, rfl⟩
  case h_2 => exact .inr rfl

/-- entries are one literal when their nodes all are literals, and a record otherwise -/
theorem ofEntries_cases (entries : List (String × Node)) :
    (∃ es, entries = es.map literalEntry ∧ ofEntries entries = literal (.map es)) ∨
      ofEntries entries = record entries := by
  rw [ofEntries]
  split
  case h_1 es hes => exact .inl ⟨es, mapM_entry_eq_some_iff.mp hes, rfl⟩
  case h_2 => exact .inr rfl

end ServiceGraph.Node
