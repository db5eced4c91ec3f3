import ServiceGraph.Proofs.Config.Grouping

/-!
# Two layers along a path

A path is followed through two maps at once, as long as both hold maps on it. When one map is laid over the
other, the path finds what it finds in the lower one if the upper one lacks a key on the way, what it finds in
the upper one if that has a value where not both have maps, and otherwise the two maps laid over each other.

* `Value.Lacking`, `Value.Parting`, `Value.Sharing`: the ways in which a path can end, and
  `Value.lacking_or_parting_or_sharing`: there are no others;
* `Value.walk?_of_sharing`, `Value.walk?_of_lacking`, `Value.walk?_of_parting`: what the path finds then;
* `Value.mergeEntries_self`: a map laid over itself;
* `Value.mergeEntries_along_paths`: the result.
-/

namespace ServiceGraph.Value

variable {base incoming old new : OrderedMap Value} {path : List String} {key : String} {v : Value}

/-! ## paths through one value -/

theorem walk?_append (v : Value) (first rest : List String) :
    v.walk? (first ++ rest) = (v.walk? first).bind (walk? · rest) := by
  induction first generalizing v with
  | nil => rfl
  | cons key first ih =>
    rw [List.cons_append, walk?, walk?]
    cases v.field? key with
    | none => rfl
    | some u => exact ih u

/-- a path to a map begins at a map -/
theorem exists_map_of_walk?_map (h : v.walk? path = some (map old)) : ∃ es, v = map es := by
  by_cases hpath : path = []
  · subst hpath
    exact ⟨old, Option.some.inj h⟩
  · exact exists_map_of_walk? hpath h

theorem keyed_of_walk? {u : Value} (hu : u.keyed = true) (h : u.walk? path = some v) : v.keyed = true := by
  induction path generalizing u with
  | nil =>
    cases h
    exact hu
  | cons key rest ih =>
    obtain ⟨es, rfl⟩ := exists_map_of_walk? (List.cons_ne_nil _ _) h
    rw [walk?_cons, Option.bind_eq_some_iff] at h
    obtain ⟨w, hw, hrest⟩ := h
    exact ih (keyed_of_get? hu hw) hrest

/-! ## paths through two maps -/

/-- both maps hold maps at the end of the path -/
def Sharing (base incoming : OrderedMap Value) (path : List String) (old new : OrderedMap Value) : Prop :=
  (map base).walk? path = some (map old) ∧ (map incoming).walk? path = some (map new)

/-- below maps that both share, the path comes to a key that the incoming map lacks -/
def Lacking (base incoming : OrderedMap Value) (path : List String) : Prop :=
  ∃ shared key rest old new, path = shared ++ key :: rest ∧ Sharing base incoming shared old new ∧
    new.get? key = none

/-- below maps that both share, the path comes to a key at which the incoming map has a value, and this
value is no map or the other one is none or missing -/
def Parting (base incoming : OrderedMap Value) (path : List String) : Prop :=
  ∃ shared key rest old new v, path = shared ++ key :: rest ∧ Sharing base incoming shared old new ∧
    new.get? key = some v ∧ (v.entries? = none ∨ (old.get? key).bind entries? = none)

theorem Sharing.cons (hold : base.get? key = some (map old)) (hnew : incoming.get? key = some (map new))
    {inner outer : OrderedMap Value} (h : Sharing old new path inner outer) :
    Sharing base incoming (key :: path) inner outer := by
  constructor
  · rw [walk?_cons, hold]
    exact h.1
  · rw [walk?_cons, hnew]
    exact h.2

theorem lacking_or_parting_or_sharing (base incoming : OrderedMap Value) (path : List String) :
    Lacking base incoming path ∨ Parting base incoming path ∨
      ∃ old new, Sharing base incoming path old new := by
  induction path generalizing base incoming with
  | nil => exact .inr (.inr ⟨base, incoming, rfl, rfl⟩)
  | cons key rest ih =>
    have hhere : Sharing base incoming [] base incoming := ⟨rfl, rfl⟩
    cases hnew : incoming.get? key with
    | none => exact .inl ⟨[], key, rest, base, incoming, rfl, hhere, hnew⟩
    | some v =>
      rcases entries?_eq_none_or v with hv | ⟨new, rfl⟩
      · exact .inr (.inl ⟨[], key, rest, base, incoming, v, rfl, hhere, hnew, .inl hv⟩)
      · cases hold : (base.get? key).bind entries? with
        | none => exact .inr (.inl ⟨[], key, rest, base, incoming, _, rfl, hhere, hnew, .inr hold⟩)
        | some old =>
          obtain ⟨u, hu, hentries⟩ := Option.bind_eq_some_iff.mp hold
          rcases entries?_eq_none_or u with hleaf | ⟨es, rfl⟩
          · rw [hleaf] at hentries
            cases hentries
          cases hentries
          -- both go on with maps, and the way from there is longer by this key
          rcases ih old new with h | h | ⟨inner, outer, h⟩
          · obtain ⟨shared, other, more, inner, outer, rfl, hshared, hlacks⟩ := h
            exact .inl ⟨key :: shared, other, more, inner, outer, rfl, hshared.cons hu hnew, hlacks⟩
          · obtain ⟨shared, other, more, inner, outer, w, rfl, hshared, hparts⟩ := h
            exact .inr (.inl ⟨key :: shared, other, more, inner, outer, w, rfl, hshared.cons hu hnew, hparts⟩)
          · exact .inr (.inr ⟨inner, outer, h.cons hu hnew⟩)

/-- what both hold as maps is laid over each other -/
theorem walk?_of_sharing (hkeyed : (map incoming).keyed = true) (h : Sharing base incoming path old new) :
    (map (mergeEntries base incoming)).walk? path = some (map (mergeEntries old new)) := by
  induction path generalizing base incoming with
  | nil =>
    obtain ⟨hold, hnew⟩ := h
    cases hold
    cases hnew
    rfl
  | cons key rest ih =>
    obtain ⟨hold, hnew⟩ := h
    rw [walk?_cons, Option.bind_eq_some_iff] at hold hnew
    obtain ⟨u, hu, hold⟩ := hold
    obtain ⟨w, hw, hnew⟩ := hnew
    obtain ⟨inner, rfl⟩ := exists_map_of_walk?_map hold
    obtain ⟨outer, rfl⟩ := exists_map_of_walk?_map hnew
    rw [walk?_cons, get?_mergeEntries (keyed_map_iff.mp hkeyed).1, hw, hu]
    dsimp only
    rw [merged, Option.bind_some]
    exact ih (keyed_of_get? hkeyed hw) ⟨hold, hnew⟩

/-- behind maps that are shared, a path goes on in the one laid over the other -/
theorem walk?_of_sharing_append (hkeyed : (map incoming).keyed = true)
    (h : Sharing base incoming path old new) (key : String) (rest : List String) :
    (map (mergeEntries base incoming)).walk? (path ++ key :: rest) =
      ((mergeEntries old new).get? key).bind (walk? · rest) := by
  rw [walk?_append, walk?_of_sharing hkeyed h, Option.bind_some, walk?_cons]

theorem Sharing.distinct (hkeyed : (map incoming).keyed = true) (h : Sharing base incoming path old new) :
    new.Distinct :=
  (keyed_map_iff.mp (keyed_of_walk? hkeyed h.2)).1

theorem walk?_of_lacking (hkeyed : (map incoming).keyed = true) (h : Lacking base incoming path) :
    (map (mergeEntries base incoming)).walk? path = (map base).walk? path := by
  obtain ⟨shared, key, rest, old, new, rfl, hshared, hlacks⟩ := h
  rw [walk?_of_sharing_append hkeyed hshared, get?_mergeEntries (hshared.distinct hkeyed), hlacks,
    walk?_append, hshared.1, Option.bind_some, walk?_cons]

theorem merged_eq_of_leaf {old : Option Value} (h : v.entries? = none ∨ old.bind entries? = none) :
    merged old v = v := by
  rcases h with h | h
  · exact merged_of_leaf h old
  · rcases entries?_eq_none_or v with hv | ⟨es, rfl⟩
    · exact merged_of_leaf hv old
    · cases old with
      | none => exact merged_none _
      | some u => exact merged_map_of_leaf h es

theorem walk?_of_parting (hkeyed : (map incoming).keyed = true) (h : Parting base incoming path) :
    (map (mergeEntries base incoming)).walk? path = (map incoming).walk? path := by
  obtain ⟨shared, key, rest, old, new, v, rfl, hshared, hv, hends⟩ := h
  have hfound : (map incoming).walk? (shared ++ key :: rest) = v.walk? rest := by
    rw [walk?_append, hshared.2, Option.bind_some, walk?_cons, hv, Option.bind_some]
  rw [walk?_of_sharing_append hkeyed hshared, get?_mergeEntries (hshared.distinct hkeyed), hv, hfound]
  show (some (merged (old.get? key) v)).bind _ = _
  rw [merged_eq_of_leaf hends, Option.bind_some]

/-! ## a map over itself -/

theorem mergeEntries_self (hkeyed : (map base).keyed = true) : mergeEntries base base = base := by
  induction hn : sizeOf base using Nat.strongRecOn generalizing base with
  | ind n ih =>
    have hdistinct := (keyed_map_iff.mp hkeyed).1
    refine hdistinct.eq_of_get? ?_ fun key => ?_
    · have hnone : base.keys.filter (· ∉ base.keys) = [] := List.filter_eq_nil_iff.mpr fun key hkey => by
        simpa using hkey
      rw [keys_mergeEntries hdistinct, hnone, List.append_nil]
    · rw [get?_mergeEntries hdistinct]
      cases hv : base.get? key with
      | none => rfl
      | some v =>
        show some (merged (some v) v) = some v
        rcases entries?_eq_none_or v with hleaf | ⟨es, rfl⟩
        · rw [merged_of_leaf hleaf]
        · have hsmaller : sizeOf es < n := by
            have hlt := List.sizeOf_lt_of_mem (OrderedMap.mem_of_get? hv)
            simp only [Prod.mk.sizeOf_spec, map.sizeOf_spec] at hlt
            omega
          rw [merged, ih _ hsmaller (keyed_of_get? hkeyed hv) rfl]

/-- **One map laid over another, path by path.** A path that comes to a key which the incoming map lacks finds
what it finds in the base. A path that comes to a value of the incoming map where not both have maps finds what
it finds in the incoming map. On any other path both have maps, and so has the result: the keys of the base in
their places, and then the new ones in their order. A map laid over itself stays as it is. -/
theorem mergeEntries_along_paths (hbase : (map base).keyed = true) (hincoming : (map incoming).keyed = true) :
    (∀ path, Lacking base incoming path →
      (map (mergeEntries base incoming)).walk? path = (map base).walk? path) ∧
    (∀ path, Parting base incoming path →
      (map (mergeEntries base incoming)).walk? path = (map incoming).walk? path) ∧
    (∀ path old new, Sharing base incoming path old new →
      (map (mergeEntries base incoming)).walk? path = some (map (mergeEntries old new)) ∧
      (mergeEntries old new).keys = old.keys ++ new.keys.filter (· ∉ old.keys)) ∧
    (∀ path, Lacking base incoming path ∨ Parting base incoming path ∨
      ∃ old new, Sharing base incoming path old new) ∧
    mergeEntries base base = base := by
  refine ⟨fun path => walk?_of_lacking hincoming, fun path => walk?_of_parting hincoming,
    fun path old new h => ⟨walk?_of_sharing hincoming h, ?_⟩,
    lacking_or_parting_or_sharing base incoming, mergeEntries_self hbase⟩
  exact keys_mergeEntries (h.distinct hincoming) old

/-- a map with a map inside, and another one that reaches into it -/
def lowerLayer : OrderedMap Value :=
  [("db", .map [("host", .str "localhost"), ("port", .int 5432)]), ("debug", .bool false), ("log", .map [])]

def upperLayer : OrderedMap Value :=
  [("log", .str "off"), ("cache", .map [("ttl", .int 60)]), ("db", .map [("user", .str "app"), ("port", .int 1)])]

example : mergeEntries lowerLayer upperLayer =
    [("db", .map [("host", .str "localhost"), ("port", .int 1), ("user", .str "app")]), ("debug", .bool false),
      ("log", .str "off"), ("cache", .map [("ttl", .int 60)])] := by decide

theorem upperLayer_along_paths :
    (map lowerLayer).keyed = true ∧ (map upperLayer).keyed = true ∧
    (map (mergeEntries lowerLayer upperLayer)).walk? ["db", "host"] = some (.str "localhost") ∧
    (map (mergeEntries lowerLayer upperLayer)).walk? ["cache", "ttl"] = some (.int 60) ∧
    (map (mergeEntries lowerLayer upperLayer)).walk? ["db"] = some (map (mergeEntries
      [("host", .str "localhost"), ("port", .int 5432)] [("user", .str "app"), ("port", .int 1)])) := by
  have hlower : (map lowerLayer).keyed = true := by decide
  have hupper : (map upperLayer).keyed = true := by decide
  obtain ⟨hlacking, hparting, hsharing, -, -⟩ := mergeEntries_along_paths hlower hupper
  have hdb : Sharing lowerLayer upperLayer ["db"] _ _ := ⟨rfl, rfl⟩
  have hhost : Lacking lowerLayer upperLayer ["db", "host"] :=
    ⟨["db"], "host", [], _, _, rfl, hdb, rfl⟩
  have hcache : Parting lowerLayer upperLayer ["cache", "ttl"] :=
    ⟨[], "cache", ["ttl"], _, _, _, rfl, ⟨rfl, rfl⟩, rfl, .inr rfl⟩
  refine ⟨hlower, hupper, ?_, ?_, (hsharing _ _ _ hdb).1⟩
  · rw [hlacking _ hhost]
    rfl
  · rw [hparting _ hcache]
    rfl

end ServiceGraph.Value
