import ServiceGraph.Container.Basic
import ServiceGraph.Node.Reading

/-!
# Collections of literals

A list or map in a configuration is a literal when all of its elements are, and a statement that collects
the values of its elements otherwise. The literal is expanded as a whole, the elements of the statement one
after the other. Both come to the same, so that it would be as well to write every collection as a statement.

* `Node.spread`: the node that a value writes when every list is an array and every map a record;
* `Container.prepared`: the work of evaluating a node with the parameters put in, or the error that putting
  them in comes to;
* `Container.prepared_array`, `prepared_record`: collections, by the work on their elements;
* `Container.prepared_ofItems`, `prepared_ofEntries`: whether a collection is collapsed makes no difference;
* `Container.prepared_spread`: nor does it anywhere inside of a value.
-/

namespace ServiceGraph

namespace Node

mutual

/-- the node that a value writes, with an array for every list and a record for every map -/
def spread : Value → Node
  | .str s => ofText s
  | .list items => array (spreadItems items)
  | .map entries => record (spreadEntries entries)
  | v => literal v

def spreadItems : List Value → List Node
  | [] => []
  | v :: vs => spread v :: spreadItems vs

def spreadEntries : List (String × Value) → List (String × Node)
  | [] => []
  | (k, v) :: vs => (k, spread v) :: spreadEntries vs

end

theorem keys_ofFields (entries : List (String × Value)) :
    (ofFields entries).map Prod.fst = entries.map Prod.fst := by
  induction entries with
  | nil => rfl
  | cons e entries ih => rw [ofFields, List.map_cons, List.map_cons, ih]

theorem keys_spreadEntries (entries : List (String × Value)) :
    (spreadEntries entries).map Prod.fst = entries.map Prod.fst := by
  induction entries with
  | nil => rfl
  | cons e entries ih => rw [spreadEntries, List.map_cons, List.map_cons, ih]

theorem substituteAll_literals (p : Parameters) (vs : List Value) :
    substituteAll p (vs.map literal) = List.map literal <$> Value.expandItems p.find vs := by
  induction vs with
  | nil => rfl
  | cons v vs ih =>
    rw [List.map_cons, substituteAll, substitute, ih, Value.expandItems, Parameters.expand]
    cases v.expandWith p.find with
    | error e => rfl
    | ok w => cases Value.expandItems p.find vs <;> rfl

end Node

namespace Value

variable {look : String → Expansion Value}

/-- expanding the values of a map is expanding them as a list -/
theorem expandItems_values (entries : List (String × Value)) :
    expandItems look (entries.map Prod.snd) = List.map Prod.snd <$> expandEntries look entries := by
  induction entries with
  | nil => rfl
  | cons e entries ih =>
    obtain ⟨k, v⟩ := e
    rw [List.map_cons, expandItems, ih, expandEntries]
    cases v.expandWith look with
    | error e => rfl
    | ok w => cases expandEntries look entries <;> rfl

theorem keys_of_expandEntries {entries expanded : List (String × Value)}
    (h : expandEntries look entries = .ok expanded) :
    expanded.map Prod.fst = entries.map Prod.fst := by
  induction entries generalizing expanded with
  | nil =>
    cases h
    rfl
  | cons e entries ih =>
    obtain ⟨k, v⟩ := e
    rw [expandEntries] at h
    obtain ⟨w, -, h⟩ := Expansion.bind_eq_ok h
    obtain ⟨rest, hrest, h⟩ := Expansion.bind_eq_ok h
    cases h
    rw [List.map_cons, List.map_cons, ih hrest]

end Value

namespace Container

variable {σ : Type} (c : Container σ) (resolve : String → Build σ Value) (p : Parameters)

/-- the work of evaluating a node with the parameters put in; an error when they cannot be put in -/
def prepared (n : Node) : Expansion (Build σ Value) :=
  c.evaluate resolve <$> n.substitute p

def preparedAll (ns : List Node) : Expansion (Build σ (List Value)) :=
  c.evaluateAll resolve <$> Node.substituteAll p ns

theorem evaluateAll_literals (vs : List Value) :
    c.evaluateAll resolve (vs.map .literal) = pure vs := by
  induction vs with
  | nil => rfl
  | cons v vs ih =>
    rw [List.map_cons, evaluateAll, evaluate, ih]
    rfl

theorem preparedAll_literals (vs : List Value) :
    c.preparedAll resolve p (vs.map .literal) = pure <$> Value.expandItems p.find vs := by
  rw [preparedAll, Node.substituteAll_literals]
  cases Value.expandItems p.find vs with
  | error e => rfl
  | ok ws => exact congrArg Except.ok (c.evaluateAll_literals resolve ws)

theorem preparedAll_cons (n : Node) (ns : List Node) :
    c.preparedAll resolve p (n :: ns) = (do
      let first ← c.prepared resolve p n
      let rest ← c.preparedAll resolve p ns
      return do return (← first) :: (← rest)) := by
  rw [preparedAll, preparedAll, prepared, Node.substituteAll]
  cases n.substitute p with
  | error e => rfl
  | ok m => cases Node.substituteAll p ns <;> rfl

theorem prepared_literal (v : Value) :
    c.prepared resolve p (.literal v) = pure <$> p.expand v := by
  rw [prepared, Node.substitute]
  cases p.expand v <;> rfl

theorem prepared_array (ns : List Node) :
    c.prepared resolve p (.array ns) = (.list <$> ·) <$> c.preparedAll resolve p ns := by
  rw [prepared, Node.array, Node.substitute, preparedAll]
  cases Node.substituteAll p ns <;> rfl

theorem prepared_record (entries : List (String × Node)) :
    c.prepared resolve p (.record entries) =
      (zipRecord (entries.map Prod.fst) <$> ·) <$>
        c.preparedAll resolve p (entries.map Prod.snd) := by
  rw [prepared, Node.record, Node.substitute, preparedAll]
  cases Node.substituteAll p (entries.map Prod.snd) <;> rfl

theorem prepared_ofItems (ns : List Node) :
    c.prepared resolve p (Node.ofItems ns) = c.prepared resolve p (.array ns) := by
  rcases Node.ofItems_cases ns with ⟨vs, rfl, hliteral⟩ | harray
  · rw [hliteral, prepared_literal, prepared_array, preparedAll_literals, Parameters.expand,
      Value.expandWith]
    cases Value.expandItems p.find vs <;> rfl
  · rw [harray]

theorem prepared_ofEntries {entries : List (String × Node)} (hkeys : OrderedMap.Distinct entries) :
    c.prepared resolve p (Node.ofEntries entries) = c.prepared resolve p (.record entries) := by
  rcases Node.ofEntries_cases entries with ⟨vs, rfl, hliteral⟩ | hrecord
  · have hfst : (vs.map Node.literalEntry).map Prod.fst = vs.map Prod.fst := by
      rw [List.map_map]
      rfl
    have hsnd : (vs.map Node.literalEntry).map Prod.snd = (vs.map Prod.snd).map .literal := by
      rw [List.map_map, List.map_map]
      rfl
    rw [hliteral, prepared_literal, prepared_record, hfst, hsnd, preparedAll_literals,
      Value.expandItems_values, Parameters.expand, Value.expandWith]
    cases hws : Value.expandEntries p.find vs with
    | error e => rfl
    | ok ws =>
      -- expansion keeps the keys, so the record of the values is the map
      have hdistinct : OrderedMap.Distinct ws := by
        unfold OrderedMap.Distinct OrderedMap.keys at hkeys ⊢
        rwa [Value.keys_of_expandEntries hws, ← hfst]
      rw [← Value.keys_of_expandEntries hws]
      exact congrArg (fun v => Except.ok (pure v)) (zipRecord_of_distinct hdistinct).symm
  · rw [hrecord]

mutual

theorem prepared_spread {v : Value} (hv : v.keyed = true) :
    c.prepared resolve p (Node.ofValue v) = c.prepared resolve p (Node.spread v) := by
  cases v with
  | list items =>
    rw [Node.ofValue, Node.spread, prepared_ofItems, prepared_array, prepared_array,
      preparedAll_spread hv]
  | map entries =>
    obtain ⟨hdistinct, hentries⟩ := Bool.and_eq_true_iff.mp hv
    have hkeys : OrderedMap.Distinct (Node.ofFields entries) := by
      unfold OrderedMap.Distinct OrderedMap.keys
      rw [Node.keys_ofFields]
      exact of_decide_eq_true hdistinct
    rw [Node.ofValue, Node.spread, prepared_ofEntries _ _ _ hkeys, prepared_record, prepared_record,
      Node.keys_ofFields, Node.keys_spreadEntries, preparedAll_spreadEntries hentries]
  | null | bool _ | int _ | float _ | str _ | service _ => rfl

theorem preparedAll_spread {vs : List Value} (hvs : Value.keyedItems vs = true) :
    c.preparedAll resolve p (Node.ofValues vs) = c.preparedAll resolve p (Node.spreadItems vs) := by
  cases vs with
  | nil => rfl
  | cons v vs =>
    obtain ⟨hv, hvs⟩ := Bool.and_eq_true_iff.mp hvs
    rw [Node.ofValues, Node.spreadItems, preparedAll_cons, preparedAll_cons, prepared_spread hv,
      preparedAll_spread hvs]

theorem preparedAll_spreadEntries {entries : List (String × Value)}
    (h : Value.keyedEntries entries = true) :
    c.preparedAll resolve p ((Node.ofFields entries).map Prod.snd) =
      c.preparedAll resolve p ((Node.spreadEntries entries).map Prod.snd) := by
  cases entries with
  | nil => rfl
  | cons e entries =>
    cases e with
    | mk k v =>
      obtain ⟨hv, h⟩ := Bool.and_eq_true_iff.mp h
      rw [Node.ofFields, Node.spreadEntries, List.map_cons, List.map_cons, preparedAll_cons,
        preparedAll_cons, prepared_spread hv, preparedAll_spreadEntries h]

end

/-- **Collapsing keeps the meaning.** Take a value whose maps hold each key once. Putting parameters into
its node and into the one with a statement for every collection fails with the same error, or else both
have the same value or error in a container, and leave it in the same state. -/
theorem collapsed_alike {v : Value} (hv : v.keyed = true) :
    (∀ e, (Node.ofValue v).substitute p = .error e ↔ (Node.spread v).substitute p = .error e) ∧
    ∀ n m, (Node.ofValue v).substitute p = .ok n → (Node.spread v).substitute p = .ok m →
      ∀ b, c.evaluate resolve n b = c.evaluate resolve m b := by
  have hsame : c.prepared resolve p (Node.ofValue v) = c.prepared resolve p (Node.spread v) :=
    c.prepared_spread resolve p hv
  unfold prepared at hsame
  cases hn : (Node.ofValue v).substitute p with
  | error e =>
    cases hm : (Node.spread v).substitute p with
    | error e' =>
      rw [hn, hm] at hsame
      cases hsame
      exact ⟨fun _ => Iff.rfl, nofun⟩
    | ok m =>
      rw [hn, hm] at hsame
      cases hsame
  | ok n =>
    cases hm : (Node.spread v).substitute p with
    | error e =>
      rw [hn, hm] at hsame
      cases hsame
    | ok m =>
      rw [hn, hm] at hsame
      have heval : c.evaluate resolve n = c.evaluate resolve m := Except.ok.inj hsame
      refine ⟨fun e => ⟨nofun, nofun⟩, ?_⟩
      rintro _ _ ⟨⟩ ⟨⟩ b
      exact congrFun heval b

def logging : Container Empty where
  registry :=
    { Registry.ofParameters .empty with
      definitions := [.ofNode "log" (.literal (.str "file"))], frozen := true }
  constructors := []
  services := ⟨nofun, nofun, fun _ _ s => nomatch s⟩

/-- a map with a literal list, a parameter, and a list with a reference beside a literal map -/
def mixed : Value :=
  .map
    [ ("tags", .list [.str "a%%", .int 1]), ("port", .str "%port%"),
      ("targets", .list [.str "@log", .map [("level", .str "%level%!")]]) ]

def mixedParameters : Parameters := .ofTree [("port", .int 80), ("level", .str "info")]

theorem mixed_alike :
    mixed.keyed = true ∧
    ∃ n m, (Node.ofValue mixed).substitute mixedParameters = .ok n ∧
      (Node.spread mixed).substitute mixedParameters = .ok m ∧ n ≠ m ∧
      (logging.value n (.ofHeap .empty)).1 =
        .ok (.map
          [ ("tags", .list [.str "a%", .int 1]), ("port", .int 80),
            ("targets", .list [.str "file", .map [("level", .str "info!")]]) ]) ∧
      logging.value n (.ofHeap .empty) = logging.value m (.ofHeap .empty) := by
  have hkeyed : mixed.keyed = true := by decide +kernel
  let literalMap : Node := .literal (.map [("level", .str "info!")])
  let literalList : Node := .literal (.list [.str "a%", .int 1])
  let log : Node := .reference "log" false
  have hn : (Node.ofValue mixed).substitute mixedParameters = .ok (.record
      [ ("tags", literalList), ("port", .literal (.int 80)),
        ("targets", .array [log, literalMap]) ]) := rfl
  have hm : (Node.spread mixed).substitute mixedParameters = .ok (.record
      [ ("tags", .array [.literal (.str "a%"), .literal (.int 1)]), ("port", .literal (.int 80)),
        ("targets", .array [log, .record [("level", .literal (.str "info!"))]]) ]) := rfl
  refine ⟨hkeyed, _, _, hn, hm, by decide +kernel, rfl, ?_⟩
  exact (collapsed_alike logging logging.resolveFresh mixedParameters hkeyed).2 _ _ hn hm _

end Container
end ServiceGraph
