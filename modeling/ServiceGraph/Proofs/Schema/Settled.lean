import ServiceGraph.Proofs.Schema.Conforms

/-!
# Normalizing once is enough

What normalizing leaves is left alone when it is normalized again.

* `Schema.Keyed`: a schema names each of its fields once, at every level;
* `Schema.effective?_settled`: what a normalized block has for a field is what the check made of the
  value before;
* `Schema.normalize_idempotent`: the result for every schema and every value.
-/

namespace ServiceGraph.Schema

variable {schema : Schema} {entries pairs : OrderedMap Value} {path : String} {raw out : Value}

/-- a schema names each of its fields once, and so do the schemas within it -/
inductive Keyed : Schema → Prop
  | block (schema : Schema) (hnames : OrderedMap.Distinct schema)
      (hinner : ∀ p ∈ schema, ∀ inner, p.2.inner? = some inner → Keyed inner) : Keyed schema

/-! ## the fields with values, as a map -/

theorem keys_effective_sublist :
    (OrderedMap.keys (effective schema entries)).Sublist (OrderedMap.keys schema) := by
  induction schema with
  | nil => exact List.Sublist.slnil
  | cons p schema ih =>
    cases hv : effective? entries p with
    | none =>
      rw [effective_cons_of_none hv]
      exact ih.cons p.1
    | some v =>
      rw [effective_cons_of_some hv]
      exact ih.cons_cons p.1

theorem get?_effective {p : String × Field} (hnames : OrderedMap.Distinct schema) (hp : p ∈ schema) :
    OrderedMap.get? (effective schema entries) p.1 = (effective? entries p).map (p.2, ·) := by
  cases hv : effective? entries p with
  | some v =>
    have hdistinct : OrderedMap.Distinct (effective schema entries) :=
      hnames.sublist keys_effective_sublist
    exact hdistinct.get?_of_mem (mem_effective.mpr ⟨hp, hv⟩)
  | none =>
    refine OrderedMap.get?_eq_none_iff.mpr fun hkey => ?_
    obtain ⟨⟨name, field, v⟩, he, hname⟩ := List.mem_map.mp hkey
    obtain ⟨hmem, hsome⟩ := mem_effective.mp he
    cases hname
    -- both fields have the same name
    cases (hnames.get?_of_mem hp).symm.trans (hnames.get?_of_mem hmem)
    cases hv.symm.trans hsome

/-- what a normalized block has for a field -/
theorem effective?_settled {p : String × Field} (hnames : OrderedMap.Distinct schema)
    (hp : p ∈ schema) (h : checkFields path schema entries = .ok pairs) :
    Option.Rel (fun v w => checkField (under path p.1) p.2 v = .ok w)
      (effective? entries p) (effective? pairs p) := by
  have hrel := OrderedMap.get?_rel (R := fun name (e : Field × Value) w =>
    checkField (under path name) e.1 e.2 = .ok w) (checkFields_eq_ok_iff.mp h).2 p.1
  rw [get?_effective hnames hp] at hrel
  have hpairs : effective? pairs p = (OrderedMap.get? pairs p.1).or p.2.default := rfl
  rw [hpairs]
  generalize OrderedMap.get? pairs p.1 = w? at hrel
  cases hv : effective? entries p with
  | none =>
    rw [hv] at hrel
    cases hrel
    rw [Option.none_or, (Option.or_eq_none_iff.mp hv).2]
    exact .none
  | some v =>
    rw [hv] at hrel
    cases hrel with
    | some hw => exact .some hw

theorem keys_of_checkFields (h : checkFields path schema entries = .ok pairs) :
    OrderedMap.keys pairs = OrderedMap.keys (effective schema entries) :=
  (map_eq_of_forall₂ (checkFields_eq_ok_iff.mp h).2 fun _ _ hq => hq.1.symm).symm

/-! ## the result -/

/-- **Normalizing twice is normalizing once**, with the same keys in the same order at every level. -/
theorem normalize_idempotent (hkeyed : Keyed schema) (h : schema.normalize raw = .ok out) :
    schema.normalize out = .ok out := by
  induction hkeyed generalizing raw out with
  | block schema hnames hinner ih =>
    obtain ⟨-, hout⟩ := normalize_eq_ok_iff.mp h
    obtain ⟨hstray, pairs, hpairs, rfl⟩ := checkInner_eq_ok_iff.mp hout
    refine normalize_eq_ok_iff.mpr ⟨.inr ⟨pairs, rfl⟩, checkInner_eq_ok_iff.mpr ⟨?_, pairs, ?_, rfl⟩⟩
    · rw [strayKey?_eq_none_iff, Value.entries, Value.entries?, Option.getD_some,
        keys_of_checkFields hpairs]
      exact fun key hkey => keys_effective_sublist.subset hkey
    · refine checkFields_of_rel (fun p hp => effective?_settled hnames hp hpairs) ?_ hpairs
      intro p hp v v' w hv' hw
      cases hv'.symm.trans hw
      cases hfield : p.2.inner? with
      | none =>
        obtain ⟨hfits, rfl⟩ := (checkField_of_plain hfield).mp hw
        exact (checkField_of_plain hfield).mpr ⟨hfits, rfl⟩
      | some inner =>
        rw [checkField_eq_normalize hfield] at hw ⊢
        exact ih p hp inner hfield hw

theorem keyed_caching : Keyed caching := by
  refine .block _ (by decide) fun p hp inner hinner => ?_
  simp only [caching, List.mem_cons, List.not_mem_nil, or_false] at hp
  rcases hp with rfl | rfl <;> cases hinner

theorem keyed_serving : Keyed serving := by
  refine .block _ (by decide) fun p hp inner hinner => ?_
  simp only [serving, List.mem_cons, List.not_mem_nil, or_false] at hp
  rcases hp with rfl | rfl | rfl | rfl <;> cases hinner
  exact keyed_caching

/-- a server whose cache is null gets a cache that is off -/
theorem uncached_idempotent :
    Keyed serving ∧ ∃ out,
      serving.normalize (.map [("cache", .null), ("host", .str "h")]) = .ok out ∧
        out.field? "cache" = some (.map [("enabled", .bool false)]) ∧
        serving.normalize out = .ok out := by
  have hout : serving.normalize (.map [("cache", .null), ("host", .str "h")]) =
      .ok (.map [("port", .int 8080), ("host", .str "h"), ("mode", .str "prod"),
        ("cache", .map [("enabled", .bool false)])]) := by decide
  exact ⟨keyed_serving, _, hout, by decide, normalize_idempotent keyed_serving hout⟩

end ServiceGraph.Schema
