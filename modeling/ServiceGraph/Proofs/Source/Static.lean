import ServiceGraph.Proofs.Source.Meaning

/-!
# Values in static tables

A static table is written without the container, so what it holds is data alone: a live object in a value is
reported by the keys of the maps around it, and all other values are written as they are everywhere else.

* `Value.places`: the live objects in a value, each with the keys on the way to it;
* `Term.data`: the value that a term without calls stands for;
* `Term.static_of_places_nil`: data has a term, the one it has as a value, and the term stands for it;
* `Term.static_of_places_cons`: the first live object is reported under its dotted key;
* `Compile.exists_static_iff`: the values that tables can hold;
* `Compile.static_exact`: tables fail at the first live object only, and their texts tell values apart.
-/

namespace ServiceGraph

namespace Value

mutual

/-- the live objects in a value, in order, each with the keys of the maps on the way to it -/
def places : Value → List (List String × ObjectId)
  | null | bool _ | int _ | float _ | str _ => []
  | list items => placesOfItems items
  | map entries => placesOfEntries entries
  | service id => [([], id)]

def placesOfItems : List Value → List (List String × ObjectId)
  | [] => []
  | v :: vs => places v ++ placesOfItems vs

def placesOfEntries : List (String × Value) → List (List String × ObjectId)
  | [] => []
  | (k, v) :: es => (places v).map (fun place => (k :: place.1, place.2)) ++ placesOfEntries es

end

mutual

/-- every live object has a place -/
theorem map_snd_places (v : Value) : v.places.map Prod.snd = v.objects := by
  cases v with
  | null | bool _ | int _ | float _ | str _ | service _ => rfl
  | list items => exact map_snd_placesOfItems items
  | map entries => exact map_snd_placesOfEntries entries

theorem map_snd_placesOfItems (vs : List Value) : (placesOfItems vs).map Prod.snd = objectsOfItems vs := by
  cases vs with
  | nil => rfl
  | cons v vs =>
    rw [placesOfItems, objectsOfItems, List.map_append, map_snd_places v, map_snd_placesOfItems vs]

theorem map_snd_placesOfEntries (es : List (String × Value)) :
    (placesOfEntries es).map Prod.snd = objectsOfEntries es := by
  cases es with
  | nil => rfl
  | cons e es =>
    obtain ⟨k, v⟩ := e
    rw [placesOfEntries, objectsOfEntries, List.map_append, List.map_map, ← map_snd_places v,
      map_snd_placesOfEntries es]
    rfl

end

theorem places_eq_nil_iff (v : Value) : v.places = [] ↔ v.objects = [] := by
  rw [← map_snd_places v, List.map_eq_nil_iff]

end Value

namespace Term

mutual

/-- the value that a term without calls stands for -/
def data : Term → Value
  | bool b => .bool b
  | int n => .int n
  | float x => .float x
  | str s => .str s
  | list ts => .list (dataOf ts)
  | map es => .map (dataOfEntries es)
  | _ => .null

def dataOf : List Term → List Value
  | [] => []
  | t :: ts => data t :: dataOf ts

def dataOfEntries : List (String × Term) → List (String × Value)
  | [] => []
  | (k, t) :: es => (k, data t) :: dataOfEntries es

end

mutual

/-- data has the term that it has as a value, and the term stands for it -/
theorem static_of_places_nil (key : String) {v : Value} (hv : v.places = []) :
    ∃ t, static key v = .ok t ∧ t.data = v ∧ ∀ object, ofValueWith object v = some t := by
  cases v with
  | null | bool _ | int _ | float _ | str _ => exact ⟨_, rfl, rfl, fun _ => rfl⟩
  | list items =>
    obtain ⟨ts, hstatic, hdata, hvalue⟩ := staticItems_of_places_nil key hv
    refine ⟨list ts, ?_, congrArg Value.list hdata, fun object => ?_⟩
    · rw [static, hstatic]
      rfl
    · rw [ofValueWith, hvalue object]
      rfl
  | map entries =>
    obtain ⟨es, hstatic, hdata, hvalue⟩ := staticEntries_of_places_nil key hv
    refine ⟨map es, ?_, congrArg Value.map hdata, fun object => ?_⟩
    · rw [static, hstatic]
      rfl
    · rw [ofValueWith, hvalue object]
      rfl
  | service id => exact absurd hv (List.cons_ne_nil _ _)

theorem staticItems_of_places_nil (key : String) {vs : List Value} (hvs : Value.placesOfItems vs = []) :
    ∃ ts, staticItems key vs = .ok ts ∧ dataOf ts = vs ∧ ∀ object, ofItems object vs = some ts := by
  cases vs with
  | nil => exact ⟨[], rfl, rfl, fun _ => rfl⟩
  | cons v vs =>
    obtain ⟨hv, hvs⟩ := List.append_eq_nil_iff.mp hvs
    obtain ⟨t, hstatic, hdata, hvalue⟩ := static_of_places_nil key hv
    obtain ⟨ts, hstatics, hdatas, hvalues⟩ := staticItems_of_places_nil key hvs
    refine ⟨t :: ts, ?_, ?_, fun object => ?_⟩
    · rw [staticItems, hstatic, hstatics]
      rfl
    · rw [dataOf, hdata, hdatas]
    · rw [ofItems, hvalue object, hvalues object]
      rfl

theorem staticEntries_of_places_nil (key : String) {es : List (String × Value)}
    (hes : Value.placesOfEntries es = []) : ∃ ts, staticEntries key es = .ok ts ∧ dataOfEntries ts = es ∧
      ∀ object, ofEntries object es = some ts := by
  cases es with
  | nil => exact ⟨[], rfl, rfl, fun _ => rfl⟩
  | cons e es =>
    obtain ⟨k, v⟩ := e
    obtain ⟨hv, hes⟩ := List.append_eq_nil_iff.mp hes
    obtain ⟨t, hstatic, hdata, hvalue⟩ := static_of_places_nil (key ++ "." ++ k) (List.map_eq_nil_iff.mp hv)
    obtain ⟨ts, hstatics, hdatas, hvalues⟩ := staticEntries_of_places_nil key hes
    refine ⟨(k, t) :: ts, ?_, ?_, fun object => ?_⟩
    · rw [staticEntries, hstatic, hstatics]
      rfl
    · rw [dataOfEntries, hdata, hdatas]
    · rw [ofEntries, hvalue object, hvalues object]
      rfl

end

mutual

/-- the first live object is reported under its dotted key -/
theorem static_of_places_cons (key : String) {v : Value} {place : List String × ObjectId}
    {more : List (List String × ObjectId)} (hv : v.places = place :: more) :
    static key v = .error (".".intercalate (key :: place.1)) := by
  cases v with
  | null | bool _ | int _ | float _ | str _ => cases hv
  | list items => rw [static, staticItems_of_places_cons key hv]; rfl
  | map entries => rw [static, staticEntries_of_places_cons key hv]; rfl
  | service id =>
    obtain ⟨rfl, -⟩ := List.cons.inj hv
    rfl

theorem staticItems_of_places_cons (key : String) {vs : List Value} {place : List String × ObjectId}
    {more : List (List String × ObjectId)} (hvs : Value.placesOfItems vs = place :: more) :
    staticItems key vs = .error (".".intercalate (key :: place.1)) := by
  cases vs with
  | nil => cases hvs
  | cons v vs =>
    rw [staticItems]
    rw [Value.placesOfItems] at hvs
    cases hv : v.places with
    | nil =>
      rw [hv] at hvs
      obtain ⟨t, ht, -⟩ := static_of_places_nil key hv
      rw [ht, staticItems_of_places_cons key hvs]
      rfl
    | cons first others =>
      rw [hv] at hvs
      obtain ⟨rfl, -⟩ := List.cons.inj hvs
      rw [static_of_places_cons key hv]
      rfl

theorem staticEntries_of_places_cons (key : String) {es : List (String × Value)}
    {place : List String × ObjectId} {more : List (List String × ObjectId)}
    (hes : Value.placesOfEntries es = place :: more) :
    staticEntries key es = .error (".".intercalate (key :: place.1)) := by
  cases es with
  | nil => cases hes
  | cons e es =>
    obtain ⟨k, v⟩ := e
    rw [staticEntries]
    rw [Value.placesOfEntries] at hes
    cases hv : v.places with
    | nil =>
      rw [hv] at hes
      obtain ⟨t, ht, -⟩ := static_of_places_nil (key ++ "." ++ k) hv
      rw [ht, staticEntries_of_places_cons key hes]
      rfl
    | cons first others =>
      rw [hv] at hes
      obtain ⟨rfl, -⟩ := List.cons.inj hes
      -- the key of the entry has become the last part of the key of its value
      rw [static_of_places_cons (key ++ "." ++ k) hv]
      rfl

end

end Term

namespace Compile

/-- what is written as data is data, has the term that it has as a value, and the term stands for it -/
theorem data_of_static {key : String} {v : Value} {t : Term} (h : static key v = .ok t) :
    v.places = [] ∧ t.data = v ∧ ∀ object, Term.ofValueWith object v = some t := by
  cases hv : v.places with
  | nil =>
    obtain ⟨u, hstatic, hdata, hvalue⟩ := Term.static_of_places_nil key hv
    rw [static, hstatic] at h
    cases h
    exact ⟨rfl, hdata, hvalue⟩
  | cons place more =>
    rw [static, Term.static_of_places_cons key hv] at h
    cases h

/-- a value is written as data when it holds no live object -/
theorem exists_static_iff (key : String) (v : Value) : (∃ t, static key v = .ok t) ↔ v.objects = [] := by
  rw [← Value.places_eq_nil_iff]
  constructor
  · rintro ⟨t, h⟩
    exact (data_of_static h).1
  · intro hv
    obtain ⟨t, hstatic, -⟩ := Term.static_of_places_nil key hv
    exact ⟨t, by rw [static, hstatic]; rfl⟩

/-- what is not written as data has a first live object, and this is reported -/
theorem static_eq_error_iff {key : String} {v : Value} {e : CompileError} : static key v = .error e ↔
    ∃ place more, v.places = place :: more ∧ e = .unrepresentable (".".intercalate (key :: place.1)) := by
  constructor
  · intro h
    cases hv : v.places with
    | nil =>
      obtain ⟨t, hstatic, -⟩ := Term.static_of_places_nil key hv
      rw [static, hstatic] at h
      cases h
    | cons place more =>
      rw [static, Term.static_of_places_cons key hv] at h
      cases h
      exact ⟨place, more, rfl, rfl⟩
  · rintro ⟨place, more, hv, rfl⟩
    rw [static, Term.static_of_places_cons key hv]
    rfl

/-- **Static tables hold the exact values.** A value fails when a live object is in it, and the dotted key of
the first one is reported. Any other value has the term that it has outside of tables, and two of these
without NaNs whose terms are written alike are equal. -/
theorem static_exact :
    (∀ key v, (∃ e, static key v = .error e) ↔ v.objects ≠ []) ∧
    (∀ key v e, static key v = .error e ↔ ∃ place more, v.places = place :: more ∧
      e = .unrepresentable (".".intercalate (key :: place.1))) ∧
    (∀ key v, v.objects = [] →
      ∃ t, static key v = .ok t ∧ ∀ object, Term.ofValueWith object v = some t) ∧
    ∀ library, Term.IsPath library → ∀ v w : Value, v.Plain → w.Plain → ∀ key key' t u,
      static key v = .ok t → static key' w = .ok u → t.render library = u.render library → v = w := by
  refine ⟨fun key v => ?_, fun key v e => static_eq_error_iff, fun key v hv => ?_, ?_⟩
  · rw [ne_eq, ← Value.places_eq_nil_iff]
    constructor
    · rintro ⟨e, h⟩
      obtain ⟨place, more, hv, -⟩ := static_eq_error_iff.mp h
      exact hv ▸ List.cons_ne_nil _ _
    · intro hv
      obtain ⟨place, more, hv⟩ := List.exists_cons_of_ne_nil hv
      exact ⟨_, static_eq_error_iff.mpr ⟨place, more, hv, rfl⟩⟩
  · obtain ⟨t, ht⟩ := (exists_static_iff key v).mpr hv
    exact ⟨t, ht, (data_of_static ht).2.2⟩
  · intro library hlib v w hv hw key key' t u ht hu htext
    obtain ⟨-, hdata, hvalue⟩ := data_of_static ht
    obtain ⟨-, hdata', hvalue'⟩ := data_of_static hu
    have hterm : t = u := Term.render_inj hlib (Term.legible_ofValueWith hv (hvalue fun _ => none))
      (Term.legible_ofValueWith hw (hvalue' fun _ => none)) htext
    rw [← hdata, ← hdata', hterm]

/-- the least integer and the infinity above it, as entries of a map -/
def extremes : List (String × Value) := [("low", .int Int64.minValue), ("high", .float ⟨0x7ff0000000000000⟩)]

/-- the entries of a map are told apart by their order, and a live object below two of them is reported by
their keys -/
theorem extremes_written :
    Term.IsPath "::kiln" ∧ (Value.map extremes).Plain ∧ (Value.map extremes.reverse).Plain ∧
    (∃ t u, static "up" (.map extremes) = .ok t ∧ static "down" (.map extremes.reverse) = .ok u ∧
      t.render "::kiln" ≠ u.render "::kiln") ∧
    (∃ t, static "up" (.map extremes) = .ok t ∧ static "down" (.map extremes.reverse.reverse) = .ok t ∧
      Value.map extremes = .map extremes.reverse.reverse) ∧
    static "db" (.map [("limits", .map extremes), ("hosts", .list [.null, .map [("on", .service ⟨3⟩)]])]) =
      .error (.unrepresentable "db.hosts.on") := by
  have hlib : Term.IsPath "::kiln" := by decide
  have hinfinite : Binary64.isNaN ⟨0x7ff0000000000000⟩ = false := by decide
  have hup : (Value.map extremes).Plain := ⟨by decide, trivial, hinfinite, trivial⟩
  have hdown : (Value.map extremes.reverse).Plain := ⟨by decide, hinfinite, trivial, trivial⟩
  obtain ⟨-, hfirst, -, hexact⟩ := static_exact
  refine ⟨hlib, hup, hdown, ⟨_, _, rfl, rfl, fun htext => ?_⟩, ⟨_, rfl, rfl, ?_⟩, ?_⟩
  · exact absurd (hexact "::kiln" hlib _ _ hup hdown "up" "down" _ _ rfl rfl htext) (by decide)
  · exact hexact "::kiln" hlib _ _ hup hup "up" "down" _ _ rfl rfl rfl
  · exact (hfirst "db" _ _).mpr ⟨(["hosts", "on"], ⟨3⟩), [], rfl, rfl⟩

end Compile

end ServiceGraph
