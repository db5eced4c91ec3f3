import ServiceGraph.Proofs.Config.Precedence

/-!
# Layers in groups

Laying a configuration over two that are merged already is not always the same as laying the three over
each other in their order. A value that is no map ends the map below it. What is laid over that value
later begins anew; but when the two are merged first, the value is gone before it could end anything.

* `Value.Unbroken`: the middle value ends no map of the first one where the last one begins a map again,
  unless the new map hides all of the old one;
* `Value.mergeEntries_assoc_iff`: only then grouping does not matter;
* `Value.keys_mergeEntries_assoc`: the keys and their order never depend on it;
* `AppConfig.regrouped_iff`: the same for configurations, and for a file that another one includes.
-/

namespace ServiceGraph

namespace Value

variable {a b c base t : OrderedMap Value} {u v w : Value}

/-- known keys keep their places and new ones follow -/
theorem keys_mergeEntries (h : OrderedMap.Distinct t) (base : OrderedMap Value) :
    OrderedMap.keys (mergeEntries base t) =
      base.keys ++ t.keys.filter (· ∉ base.keys) := by
  induction t generalizing base with
  | nil => simp [mergeEntries, OrderedMap.keys]
  | cons e rest ih =>
    obtain ⟨key, value⟩ := e
    obtain ⟨hkey, hrest⟩ := List.nodup_cons.mp h
    have hkeys : OrderedMap.keys ((key, value) :: rest) = key :: OrderedMap.keys rest := rfl
    rw [mergeEntries, ih hrest, OrderedMap.keys_insert, hkeys]
    split
    next hold => rw [List.filter_cons_of_neg (by simpa using hold)]
    next hnew =>
      rw [List.filter_cons_of_pos (by simpa using hnew), List.append_assoc, List.singleton_append]
      congr 2
      refine List.filter_congr fun other hother => ?_
      have hne : other ≠ key := fun heq => hkey (heq ▸ hother)
      simp [hne]

/-- the keys and their order do not depend on the grouping -/
theorem keys_mergeEntries_assoc (hb : b.Distinct) (hc : c.Distinct) (a : OrderedMap Value) :
    OrderedMap.keys (mergeEntries (mergeEntries a b) c) =
      OrderedMap.keys (mergeEntries a (mergeEntries b c)) := by
  rw [keys_mergeEntries hc, keys_mergeEntries hb, keys_mergeEntries (distinct_mergeEntries hb c),
    keys_mergeEntries hc, List.filter_append, List.filter_filter, List.append_assoc]
  congr 2
  refine List.filter_congr fun key _ => ?_
  have hmem : key ∈ a.keys ++ b.keys.filter (· ∉ a.keys) ↔ key ∈ a.keys ∨ key ∈ b.keys := by
    simp only [List.mem_append, List.mem_filter, decide_eq_true_eq]
    tauto
  simp only [hmem, not_or, Bool.decide_and]

/-! ## where grouping matters -/

/-- Where the middle value ends a map of the first one and the last one begins a map again, the new map
is just what it would be if it went on with the old one. -/
def Unbroken (u v w : Value) : Prop :=
  ∀ path old leaf new, u.walk? path = some (map old) → v.walk? path = some leaf → leaf.entries? = none →
    w.walk? path = some (map new) → mergeEntries old new = new

theorem unbroken_map_iff : Unbroken (map a) (map b) (map c) ↔
    ∀ key u v w, a.get? key = some u → b.get? key = some v → c.get? key = some w → Unbroken u v w := by
  constructor
  · intro h key u v w hu hv hw path old leaf new hold hend hleaf hnew
    refine h (key :: path) old leaf new ?_ ?_ hleaf ?_
    · rw [walk?_cons, hu, Option.bind_some, hold]
    · rw [walk?_cons, hv, Option.bind_some, hend]
    · rw [walk?_cons, hw, Option.bind_some, hnew]
  · intro h path old leaf new hold hend hleaf hnew
    cases path with
    | nil =>
      cases hend
      cases hleaf
    | cons key path =>
      rw [walk?_cons, Option.bind_eq_some_iff] at hold hend hnew
      obtain ⟨u, hu, hold⟩ := hold
      obtain ⟨v, hv, hend⟩ := hend
      obtain ⟨w, hw, hnew⟩ := hnew
      exact h key u v w hu hv hw path old leaf new hold hend hleaf hnew

theorem walk?_of_leaf (hleaf : v.entries? = none) {path : List String} (h : v.walk? path = some w) :
    path = [] ∧ w = v := by
  cases path with
  | nil => exact ⟨rfl, (Option.some.inj h).symm⟩
  | cons key rest =>
    obtain ⟨es, rfl⟩ := exists_map_of_walk? (List.cons_ne_nil _ _) h
    cases hleaf

/-- a leaf on top decides alone -/
theorem unbroken_of_leaf (hleaf : w.entries? = none) : Unbroken u v w := by
  intro path old leaf new _ _ _ hnew
  obtain ⟨-, rfl⟩ := walk?_of_leaf hleaf hnew
  cases hleaf

/-- below a leaf there is no map to go on with -/
theorem unbroken_of_leaf_below (hleaf : u.entries? = none) : Unbroken u v w := by
  intro path old leaf new hold _ _ _
  obtain ⟨-, rfl⟩ := walk?_of_leaf hleaf hold
  cases hleaf

/-- a leaf between two maps -/
theorem unbroken_of_leaf_between (hleaf : v.entries? = none) :
    Unbroken (map a) v (map c) ↔ mergeEntries a c = c := by
  constructor
  · intro h
    exact h [] a v c rfl rfl hleaf rfl
  · intro h path old leaf new hold hend _ hnew
    obtain ⟨rfl, -⟩ := walk?_of_leaf hleaf hend
    cases hold
    cases hnew
    exact h

theorem merged_map_of_leaf (hleaf : v.entries? = none) (c : OrderedMap Value) :
    merged (some v) (map c) = map c := by
  cases v with
  | map es => cases hleaf
  | null | bool _ | int _ | float _ | str _ | list _ | service _ =>
    rw [merged]
    rintro _ ⟨⟩

theorem merged_none (v : Value) : merged none v = v := by
  cases v with
  | map es =>
    rw [merged]
    rintro _ ⟨⟩
  | null | bool _ | int _ | float _ | str _ | list _ | service _ => exact merged_of_leaf rfl none

theorem entries?_eq_none_or (v : Value) : v.entries? = none ∨ ∃ es, v = map es := by
  cases v with
  | map es => exact .inr ⟨es, rfl⟩
  | null | bool _ | int _ | float _ | str _ | list _ | service _ => exact .inl rfl

/-- three values at one key; three maps are the case that goes on -/
theorem merged_assoc_iff (hmaps : ∀ a b c, u = map a → v = map b → w = map c →
      (mergeEntries (mergeEntries a b) c = mergeEntries a (mergeEntries b c) ↔ Unbroken u v w)) :
    merged (some (merged (some u) v)) w = merged (some u) (merged (some v) w) ↔ Unbroken u v w := by
  rcases entries?_eq_none_or w with hw | ⟨c, rfl⟩
  · rw [merged_of_leaf hw, merged_of_leaf hw, merged_of_leaf hw]
    exact ⟨fun _ => unbroken_of_leaf hw, fun _ => rfl⟩
  · rcases entries?_eq_none_or v with hv | ⟨b, rfl⟩
    · rw [merged_of_leaf hv, merged_map_of_leaf hv]
      rcases entries?_eq_none_or u with hu | ⟨a, rfl⟩
      · rw [merged_map_of_leaf hu]
        exact ⟨fun _ => unbroken_of_leaf_below hu, fun _ => rfl⟩
      · rw [unbroken_of_leaf_between hv, merged, map.injEq]
        exact eq_comm
    · rcases entries?_eq_none_or u with hu | ⟨a, rfl⟩
      · rw [merged_map_of_leaf hu, merged, merged_map_of_leaf hu]
        exact ⟨fun _ => unbroken_of_leaf_below hu, fun _ => rfl⟩
      · rw [← hmaps a b c rfl rfl rfl, merged, merged, merged, merged, map.injEq]

/-- **Where grouping matters.** Two layers can be merged before they are laid over a third one, or be laid
over it one after the other. This comes to the same if, and only if, the middle layer ends no map that
the last one begins again. -/
theorem mergeEntries_assoc_iff (ha : (map a).keyed = true) (hb : (map b).keyed = true)
    (hc : (map c).keyed = true) :
    mergeEntries (mergeEntries a b) c = mergeEntries a (mergeEntries b c) ↔
      Unbroken (map a) (map b) (map c) := by
  -- both sides have their keys in one order, so they are compared key by key; under a key of all three
  -- maps stand three smaller ones, hence the induction on the size of the last
  induction hn : sizeOf c using Nat.strongRecOn generalizing a b c with
  | ind n ih =>
    have hdistinctA := (keyed_map_iff.mp ha).1
    have hdistinctB := (keyed_map_iff.mp hb).1
    have hdistinctC := (keyed_map_iff.mp hc).1
    have hkey : ∀ key, OrderedMap.get? (mergeEntries (mergeEntries a b) c) key =
        OrderedMap.get? (mergeEntries a (mergeEntries b c)) key ↔
          ∀ u v w, a.get? key = some u → b.get? key = some v → c.get? key = some w →
            Unbroken u v w := by
      intro key
      rw [get?_mergeEntries hdistinctC, get?_mergeEntries (distinct_mergeEntries hdistinctB c),
        get?_mergeEntries hdistinctC, get?_mergeEntries hdistinctB]
      cases hw : c.get? key with
      | none => exact ⟨fun _ _ _ _ _ _ h => (nomatch h), fun _ => rfl⟩
      | some w =>
        cases hv : b.get? key with
        | none =>
          dsimp only
          rw [merged_none]
          exact ⟨fun _ _ _ _ _ h => (nomatch h), fun _ => rfl⟩
        | some v =>
          dsimp only
          cases hu : a.get? key with
          | none =>
            rw [merged_none, merged_none]
            exact ⟨fun _ _ _ _ h => (nomatch h), fun _ => rfl⟩
          | some u =>
            rw [Option.some.injEq, merged_assoc_iff]
            · constructor
              · rintro h _ _ _ ⟨⟩ ⟨⟩ ⟨⟩
                exact h
              · exact fun h => h u v w rfl rfl rfl
            · rintro a' b' c' rfl rfl rfl
              have hsmaller : sizeOf c' < n := by
                have hlt := List.sizeOf_lt_of_mem (OrderedMap.mem_of_get? hw)
                simp only [Prod.mk.sizeOf_spec, map.sizeOf_spec] at hlt
                omega
              exact ih _ hsmaller (keyed_of_get? ha hu) (keyed_of_get? hb hv) (keyed_of_get? hc hw) rfl
    rw [unbroken_map_iff]
    constructor
    · intro h key
      exact (hkey key).mp (by rw [h])
    · intro h
      refine OrderedMap.Distinct.eq_of_get? ?_ (keys_mergeEntries_assoc hdistinctB hdistinctC a)
        fun key => (hkey key).mpr (h key)
      exact distinct_mergeEntries hdistinctA _

end Value

namespace AppConfig

variable {a b c : AppConfig}

/-- no map of the configuration, at any depth, has a key twice -/
structure DeeplyKeyed (c : AppConfig) : Prop where
  parameters : (Value.map c.parameters).keyed = true
  sections : (Value.map c.sections).keyed = true

/-- neither among the parameters nor among the sections the middle configuration ends a map of the first
one that the last one begins again -/
structure Unbroken (a b c : AppConfig) : Prop where
  parameters : Value.Unbroken (.map a.parameters) (.map b.parameters) (.map c.parameters)
  sections : Value.Unbroken (.map a.sections) (.map b.sections) (.map c.sections)

theorem merge_assoc_iff (ha : a.DeeplyKeyed) (hb : b.DeeplyKeyed) (hc : c.DeeplyKeyed) :
    (a.merge b).merge c = a.merge (b.merge c) ↔ Unbroken a b c := by
  have hparameters := Value.mergeEntries_assoc_iff ha.parameters hb.parameters hc.parameters
  have hsections := Value.mergeEntries_assoc_iff ha.sections hb.sections hc.sections
  have hsources := List.append_assoc a.sources b.sources c.sources
  constructor
  · intro h
    exact ⟨hparameters.mp (congrArg AppConfig.parameters h), hsections.mp (congrArg AppConfig.sections h)⟩
  · intro h
    have h₁ := hparameters.mpr h.parameters
    have h₂ := hsections.mpr h.sections
    simp only [merge, h₁, h₂, hsources]

/-- a configuration that includes one file, laid over another one -/
theorem merge_including {s : ConfigFiles} {opening : List String} {path file : String} {loaded own : AppConfig}
    (hl : s.Loads opening path loaded file own [b]) (hb : b.DeeplyKeyed) (a : AppConfig) :
    a.merge loaded = a.merge (b.merge { own with sources := own.sources ++ [file] }) := by
  have hparameters := Value.mergeEntries_nil (Value.keyed_map_iff.mp hb.parameters).1
  have hsections := Value.mergeEntries_nil (Value.keyed_map_iff.mp hb.sections).1
  rw [hl.result]
  simp only [mergeAll, List.foldl_cons, List.foldl_nil, merge, empty, hparameters, hsections,
    List.nil_append]

/-- **Grouping of layers.** The sources and the keys of the top level, with their order, do not depend on
the grouping. All the rest does not if, and only if, the middle layer ends no map of the first one that
the last one begins again; what it has ended comes back when it is merged with the last one first. Only
then a file may as well be included by the one that would be listed after it. -/
theorem regrouped_iff (ha : a.DeeplyKeyed) (hb : b.DeeplyKeyed) (hc : c.DeeplyKeyed) :
    ((a.merge b).merge c).sources = (a.merge (b.merge c)).sources ∧
      ((a.merge b).merge c).parameters.keys = (a.merge (b.merge c)).parameters.keys ∧
      ((a.merge b).merge c).sections.keys = (a.merge (b.merge c)).sections.keys ∧
      ((a.merge b).merge c = a.merge (b.merge c) ↔ Unbroken a b c) ∧
      ∀ (s : ConfigFiles) (opening : List String) (path file : String) (loaded own : AppConfig),
        s.Loads opening path loaded file own [b] → c = { own with sources := own.sources ++ [file] } →
          ((a.merge b).merge c = a.merge loaded ↔ Unbroken a b c) := by
  have hgroup := merge_assoc_iff ha hb hc
  refine ⟨List.append_assoc .., ?_, ?_, hgroup, ?_⟩
  · exact Value.keys_mergeEntries_assoc (Value.keyed_map_iff.mp hb.parameters).1
      (Value.keyed_map_iff.mp hc.parameters).1 a.parameters
  · exact Value.keys_mergeEntries_assoc (Value.keyed_map_iff.mp hb.sections).1
      (Value.keyed_map_iff.mp hc.sections).1 a.sections
  · rintro s opening path file loaded own hl rfl
    rw [merge_including hl hb a]
    exact hgroup

/-- three layers of parameters; what is a map in one of them is none in the next -/
def lowLayer : AppConfig := ⟨[("p", .int 1), ("q", .map [("k", .int 1)])], [], [], ["/low.yaml"]⟩

def midLayer : AppConfig :=
  ⟨[("q", .map [("z", .int 0)]), ("p", .map [("x", .int 1)])], [], [], ["/mid.yaml"]⟩

def topLayer : AppConfig := ⟨[("p", .map [("y", .int 2)]), ("q", .int 3)], [], [], ["/top.yaml"]⟩

theorem topLayer_regrouped :
    ((lowLayer.merge midLayer).merge topLayer).sources =
        (lowLayer.merge (midLayer.merge topLayer)).sources ∧
      ((lowLayer.merge midLayer).merge topLayer).parameters.keys =
        (lowLayer.merge (midLayer.merge topLayer)).parameters.keys ∧
      ((lowLayer.merge midLayer).merge topLayer).sections.keys =
        (lowLayer.merge (midLayer.merge topLayer)).sections.keys ∧
      ((lowLayer.merge midLayer).merge topLayer = lowLayer.merge (midLayer.merge topLayer) ↔
        Unbroken lowLayer midLayer topLayer) ∧
      ∀ (s : ConfigFiles) (opening : List String) (path file : String) (loaded own : AppConfig),
        s.Loads opening path loaded file own [midLayer] →
          topLayer = { own with sources := own.sources ++ [file] } →
          ((lowLayer.merge midLayer).merge topLayer = lowLayer.merge loaded ↔
            Unbroken lowLayer midLayer topLayer) :=
  regrouped_iff ⟨rfl, rfl⟩ ⟨rfl, rfl⟩ ⟨rfl, rfl⟩

/-- a middle layer that ends a map, and a last one that begins it again -/
theorem ended_map_revives : ¬ ∀ a b c : AppConfig, a.DeeplyKeyed → b.DeeplyKeyed → c.DeeplyKeyed →
    (a.merge b).merge c = a.merge (b.merge c) := by
  intro h
  have hsame := h ⟨[("p", .map [("k", .int 1)])], [], [], []⟩ ⟨[("p", .int 0)], [], [], []⟩
    ⟨[("p", .map [("y", .int 2)])], [], [], []⟩ ⟨rfl, rfl⟩ ⟨rfl, rfl⟩ ⟨rfl, rfl⟩
  exact absurd hsame (by decide)

end AppConfig
end ServiceGraph
