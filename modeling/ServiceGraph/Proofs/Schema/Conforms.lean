import ServiceGraph.Proofs.Outcomes
import ServiceGraph.Schema

/-!
# Blocks that satisfy a schema

Normalizing succeeds for exactly the blocks that satisfy their schema, and fills in the defaults.

* `Schema.effective?`, `Schema.effective`: what a block gives for the fields of a schema, or has by default;
* `Field.Fits`: the shape, the bounds and the choices of one field;
* `Schema.Conforms`, `Field.Admits`: the rules, with the schemas of inner maps;
* `Field.inner_induction`: induction over a field and the fields of its own schema;
* `Field.Settles`: what becomes of an effective value; `checkFields_eq_ok_iff` says it of all fields, and
  `checkField_path` that the path matters in errors only;
* `Schema.Reorders`: the same block with its keys in another order, at every level;
* `Schema.normalize_exact`: the result for every schema and every value.
-/

namespace ServiceGraph

namespace Schema

/-! ## rules -/

/-- what a block gives for a field, or the default that stands for it -/
def effective? (entries : OrderedMap Value) (p : String × Field) : Option Value :=
  (entries.get? p.1).or p.2.default

/-- the fields that are given or have a default, in the order of the schema, with their values -/
def effective (schema : Schema) (entries : OrderedMap Value) : List (String × Field × Value) :=
  schema.filterMap fun p => (effective? entries p).map (p.1, p.2, ·)

namespace Field

/-- the schema of a map that has its own -/
def inner? : Field → Option Schema
  | mk .map _ _ _ _ _ fields => fields
  | _ => none

/-- a value has the shape of a field and keeps to its bounds or choices -/
def Fits : Field → Value → Prop
  | mk .any .., _ => True
  | mk .string _ _ _ _ choices _, .str s => choices = [] ∨ s ∈ choices
  | mk .int _ _ min max _ _, .int n => (∀ m ∈ min, m ≤ n) ∧ ∀ m ∈ max, n ≤ m
  | mk .bool .., .bool _ => True
  | mk .list .., .list _ => True
  | mk .map .., .map _ => True
  | _, _ => False

/-- induction over a field and the fields of its own schema -/
theorem inner_induction {motive : Field → Prop}
    (step : ∀ f : Field, (∀ inner, f.inner? = some inner → ∀ p ∈ inner, motive p.2) → motive f)
    (f : Field) : motive f :=
  step f fun inner hinner p hp =>
    have : sizeOf p.2 < sizeOf f := by
      obtain ⟨shape, required, default, min, max, choices, fields⟩ := f
      cases shape <;> simp only [inner?, reduceCtorEq] at hinner
      subst hinner
      obtain ⟨name, field⟩ := p
      have hlt := List.sizeOf_lt_of_mem hp
      simp only [mk.sizeOf_spec, Prod.mk.sizeOf_spec, Option.some.sizeOf_spec] at hlt ⊢
      omega
    inner_induction step p.2
termination_by sizeOf f

end Field

/-- a value that counts as a block; null is an empty one -/
def IsBlock (v : Value) : Prop := v = .null ∨ ∃ entries, v = .map entries

mutual

/-- a field takes a value -/
inductive Field.Admits : Field → Value → Prop
  | plain (f : Field) (v : Value) (hinner : f.inner? = none) (hfits : f.Fits v) : Field.Admits f v
  | inner (f : Field) (v : Value) (schema : Schema) (hinner : f.inner? = some schema)
      (hconforms : Conforms schema v) : Field.Admits f v

/-- a block satisfies a schema -/
inductive Conforms : Schema → Value → Prop
  | block (schema : Schema) (v : Value) (hblock : IsBlock v)
      (hknown : ∀ key ∈ OrderedMap.keys v.entries, key ∈ OrderedMap.keys schema)
      (hrequired : ∀ p ∈ schema, p.2.required = true → (effective? v.entries p).isSome)
      (hadmits : ∀ p ∈ schema, ∀ w, effective? v.entries p = some w → Field.Admits p.2 w) :
      Conforms schema v

end

/-! ## one level -/

variable {schema : Schema} {entries entries' pairs : OrderedMap Value} {path : String} {f : Field}
  {v v' w raw out : Value}

theorem mem_effective {e : String × Field × Value} :
    e ∈ effective schema entries ↔
      (e.1, e.2.1) ∈ schema ∧ effective? entries (e.1, e.2.1) = some e.2.2 := by
  obtain ⟨name, field, v⟩ := e
  rw [effective, List.mem_filterMap]
  constructor
  · rintro ⟨p, hp, hv⟩
    obtain ⟨w, hw, he⟩ := Option.map_eq_some_iff.mp hv
    cases he
    exact ⟨hp, hw⟩
  · rintro ⟨hp, hv⟩
    exact ⟨(name, field), hp, Option.map_eq_some_iff.mpr ⟨v, hv, rfl⟩⟩

theorem strayKey?_eq_none_iff :
    strayKey? schema entries = none ↔ ∀ key ∈ entries.keys, key ∈ OrderedMap.keys schema := by
  rw [strayKey?, List.find?_eq_none]
  refine forall₂_congr fun key _ => ?_
  rw [Bool.not_eq_true, Bool.not_eq_false', OrderedMap.contains_eq_true_iff]

theorem effective_cons_of_some {p : String × Field} (h : effective? entries p = some v) :
    effective (p :: schema) entries = (p.1, p.2, v) :: effective schema entries := by
  rw [effective, List.filterMap_cons, h]
  rfl

theorem effective_cons_of_none {p : String × Field} (h : effective? entries p = none) :
    effective (p :: schema) entries = effective schema entries := by
  rw [effective, List.filterMap_cons, h]
  rfl

/-- a field that is given or has a default is checked -/
theorem checkFields_cons_of_some {p : String × Field} (h : effective? entries p = some v) :
    checkFields path (p :: schema) entries = .ok pairs ↔
      ∃ w rest, checkField (under path p.1) p.2 v = .ok w ∧
        checkFields path schema entries = .ok rest ∧ pairs = (p.1, w) :: rest := by
  obtain ⟨name, field⟩ := p
  rw [effective?] at h
  rw [checkFields, checkNamed, h]
  dsimp only
  cases checkField (under path name) field v with
  | error e => exact ⟨nofun, fun ⟨_, _, hw, _⟩ => nomatch hw⟩
  | ok w =>
    rw [show Except.map (fun v => some (name, v)) (Except.ok (ε := SchemaError) w) =
      .ok (some (name, w)) from rfl, Except.map_eq_ok_iff]
    constructor
    · rintro ⟨rest, hrest, rfl⟩
      exact ⟨w, rest, rfl, hrest, rfl⟩
    · rintro ⟨w', rest, hw, hrest, rfl⟩
      cases hw
      exact ⟨rest, hrest, rfl⟩

/-- a field that is absent must be optional -/
theorem checkFields_cons_of_none {p : String × Field} (h : effective? entries p = none) :
    checkFields path (p :: schema) entries = .ok pairs ↔
      p.2.required = false ∧ checkFields path schema entries = .ok pairs := by
  obtain ⟨name, field⟩ := p
  rw [effective?] at h
  rw [checkFields, checkNamed, h]
  dsimp only
  cases field.required with
  | true => exact ⟨nofun, nofun⟩
  | false =>
    rw [if_neg Bool.false_ne_true, Except.map_eq_ok_iff]
    constructor
    · rintro ⟨rest, hrest, rfl⟩
      exact ⟨rfl, hrest⟩
    · exact fun h => ⟨pairs, h.2, rfl⟩

/-- the fields of a block, one by one: what is required is there, and what is there is accepted -/
theorem checkFields_eq_ok_iff :
    checkFields path schema entries = .ok pairs ↔
      (∀ p ∈ schema, p.2.required = true → (effective? entries p).isSome) ∧
        List.Forall₂ (fun e q => q.1 = e.1 ∧ checkField (under path e.1) e.2.1 e.2.2 = .ok q.2)
          (effective schema entries) pairs := by
  induction schema generalizing pairs with
  | nil =>
    rw [checkFields, effective, List.filterMap_nil, List.forall₂_nil_left_iff]
    exact ⟨fun h => ⟨nofun, (Except.ok.inj h).symm⟩, fun h => h.2 ▸ rfl⟩
  | cons p schema ih =>
    rw [List.forall_mem_cons]
    cases heffective : effective? entries p with
    | none =>
      rw [checkFields_cons_of_none heffective, effective_cons_of_none heffective, ih]
      simp only [Option.isSome_none, Bool.false_eq_true, imp_false, Bool.not_eq_true, and_assoc]
    | some v =>
      rw [checkFields_cons_of_some heffective, effective_cons_of_some heffective,
        List.forall₂_cons_left_iff]
      constructor
      · rintro ⟨w, rest, hw, hrest, rfl⟩
        obtain ⟨hrequired, hpairs⟩ := ih.mp hrest
        exact ⟨⟨fun _ => rfl, hrequired⟩, (p.1, w), rest, ⟨rfl, hw⟩, hpairs, rfl⟩
      · rintro ⟨⟨-, hrequired⟩, ⟨name, w⟩, rest, ⟨hname, hw⟩, hpairs, rfl⟩
        cases hname
        exact ⟨w, rest, hw, ih.mpr ⟨hrequired, hpairs⟩, rfl⟩

/-- blocks that give related values for each field, where the checks do not tell them apart -/
theorem checkFields_of_rel {R : String × Field → Value → Value → Prop}
    (hvalues : ∀ p ∈ schema, Option.Rel (R p) (effective? entries p) (effective? entries' p))
    (hfields : ∀ p ∈ schema, ∀ v v' w, R p v v' → checkField (under path p.1) p.2 v = .ok w →
      checkField (under path p.1) p.2 v' = .ok w)
    (h : checkFields path schema entries = .ok pairs) :
    checkFields path schema entries' = .ok pairs := by
  induction schema generalizing pairs with
  | nil => exact h
  | cons p schema ih =>
    obtain ⟨hvalue, hvalues⟩ := List.forall_mem_cons.mp hvalues
    obtain ⟨hfield, hfields⟩ := List.forall_mem_cons.mp hfields
    generalize hv : effective? entries p = v?, hv' : effective? entries' p = v?' at hvalue
    cases hvalue with
    | none =>
      obtain ⟨hoptional, hrest⟩ := (checkFields_cons_of_none hv).mp h
      exact (checkFields_cons_of_none hv').mpr ⟨hoptional, ih hvalues hfields hrest⟩
    | @some v v' hrelated =>
      obtain ⟨w, rest, hw, hrest, rfl⟩ := (checkFields_cons_of_some hv).mp h
      exact (checkFields_cons_of_some hv').mpr
        ⟨w, rest, hfield v v' w hrelated hw, ih hvalues hfields hrest, rfl⟩

/-- the pairs of a block against the fields of its schema -/
theorem checkInner_eq_ok_iff :
    checkInner path (some schema) entries = some (.ok w) ↔
      strayKey? schema entries = none ∧
        ∃ pairs, checkFields path schema entries = .ok pairs ∧ Value.map pairs = w := by
  rw [checkInner]
  cases strayKey? schema entries with
  | some key => exact ⟨nofun, nofun⟩
  | none =>
    dsimp only
    rw [Option.some_inj, Except.map_eq_ok_iff]
    exact ⟨fun h => ⟨rfl, h⟩, fun h => h.2⟩

/-- a value against a field, by the shape of the field -/
theorem checkField_mk {shape : Shape} {required : Bool} {default : Option Value}
    {min max : Option Int64} {choices : List String} {fields : Option (List (String × Field))} :
    checkField path (.mk shape required default min max choices fields) v =
      match shape, v with
      | .any, v => .ok v
      | .string, .str s => checkChoice path choices s
      | .int, .int n => checkBounds path min max n
      | .bool, .bool b => .ok (.bool b)
      | .list, .list items => .ok (.list items)
      | .map, .map entries => (checkInner path fields entries).getD (.ok (.map entries))
      | .map, .null => (checkInner path fields []).getD (.error (.wrongType path .map "null"))
      | shape, v => .error (.wrongType path shape v.kind) := by
  cases shape <;> cases v <;> rfl

/-- a block within a block -/
theorem checkField_of_inner (hinner : f.inner? = some schema) :
    checkField path f v = .ok w ↔
      IsBlock v ∧ checkInner path (some schema) v.entries = some (.ok w) := by
  obtain ⟨shape, required, default, min, max, choices, fields⟩ := f
  cases shape <;> simp only [Field.inner?, reduceCtorEq] at hinner
  subst hinner
  cases v <;> simp only [checkField_mk, checkInner, Option.getD_some, Option.some_inj, IsBlock, reduceCtorEq,
    Value.entries, Value.entries?, Option.getD_none, exists_false, false_or, false_and, Value.map.injEq,
    exists_eq', true_and, true_or]

theorem checkChoice_eq_ok_iff {choices : List String} {s : String} :
    checkChoice path choices s = .ok w ↔ (choices = [] ∨ s ∈ choices) ∧ w = .str s := by
  rw [checkChoice]
  by_cases h : choices = [] ∨ s ∈ choices
  · have hnot : ¬ (choices ≠ [] ∧ ¬ choices.contains s) := by
      rwa [List.contains_iff_mem, not_and_or, not_not, not_not]
    rw [if_neg hnot, Except.ok.injEq, eq_comm]
    exact ⟨fun hw => ⟨h, hw⟩, fun hw => hw.2⟩
  · have hmem : choices ≠ [] ∧ ¬ choices.contains s := by
      rwa [List.contains_iff_mem, ← not_or]
    rw [if_pos hmem]
    exact ⟨nofun, fun hw => absurd hw.1 h⟩

theorem checkBounds_eq_ok_iff {min max : Option Int64} {n : Int64} :
    checkBounds path min max n = .ok w ↔
      ((∀ m ∈ min, m ≤ n) ∧ ∀ m ∈ max, n ≤ m) ∧ w = .int n := by
  have hmin : min.filter (n < ·) = none ↔ ∀ m ∈ min, m ≤ n := by
    simp only [Option.filter_eq_none_iff, decide_eq_true_eq, Int64.not_lt, Option.mem_def]
  have hmax : max.filter (· < n) = none ↔ ∀ m ∈ max, n ≤ m := by
    simp only [Option.filter_eq_none_iff, decide_eq_true_eq, Int64.not_lt, Option.mem_def]
  rw [checkBounds, ← hmin, ← hmax]
  cases min.filter (n < ·) with
  | some m => exact ⟨nofun, nofun⟩
  | none =>
    cases max.filter (· < n) with
    | some m => exact ⟨nofun, nofun⟩
    | none =>
      rw [Except.ok.injEq, eq_comm]
      exact ⟨fun hw => ⟨⟨rfl, rfl⟩, hw⟩, fun hw => hw.2⟩

/-- a value without a schema of its own -/
theorem checkField_of_plain (hinner : f.inner? = none) :
    checkField path f v = .ok w ↔ f.Fits v ∧ w = v := by
  obtain ⟨shape, required, default, min, max, choices, fields⟩ := f
  cases shape with
  | any => simp [checkField_mk, Field.Fits, eq_comm]
  | string => cases v <;> simp [checkField_mk, Field.Fits, checkChoice_eq_ok_iff]
  | int => cases v <;> simp [checkField_mk, Field.Fits, checkBounds_eq_ok_iff]
  | bool => cases v <;> simp [checkField_mk, Field.Fits, eq_comm]
  | list => cases v <;> simp [checkField_mk, Field.Fits, eq_comm]
  | map =>
    rw [Field.inner?] at hinner
    subst hinner
    cases v <;> simp [checkField_mk, Field.Fits, checkInner, eq_comm]

theorem given_eq_ok_iff : given v = .ok entries ↔ IsBlock v ∧ v.entries = entries := by
  cases v <;> simp [given, IsBlock, Value.entries, Value.entries?]

/-- the top level is a block below the empty path -/
theorem normalize_of_given (h : given raw = .ok entries) :
    some (schema.normalize raw) = checkInner "" (some schema) entries := by
  rw [normalize, h, checkInner]
  cases hstray : strayKey? schema entries with
  | some key =>
    simp only [bind, Except.bind, hstray]
    rfl
  | none =>
    simp only [bind, Except.bind, hstray]
    cases checkFields "" schema entries <;> rfl

theorem normalize_eq_ok_iff :
    schema.normalize raw = .ok out ↔
      IsBlock raw ∧ checkInner "" (some schema) raw.entries = some (.ok out) := by
  cases hgiven : given raw with
  | error e =>
    rw [normalize, hgiven]
    refine ⟨nofun, fun h => ?_⟩
    cases hgiven.symm.trans (given_eq_ok_iff.mpr ⟨h.1, rfl⟩)
  | ok entries =>
    obtain ⟨hblock, rfl⟩ := given_eq_ok_iff.mp hgiven
    rw [← normalize_of_given hgiven, Option.some_inj, and_iff_right hblock]

/-! ## all levels -/

/-- where a field stands matters in errors only -/
theorem checkField_path (path path' : String) (h : checkField path f v = .ok w) :
    checkField path' f v = .ok w := by
  induction f using Field.inner_induction generalizing path path' v w with
  | step f ih =>
    cases hinner : f.inner? with
    | none => exact (checkField_of_plain hinner).mpr ((checkField_of_plain hinner).mp h)
    | some schema =>
      rw [checkField_of_inner hinner, checkInner_eq_ok_iff] at h ⊢
      obtain ⟨hblock, hstray, pairs, hpairs, rfl⟩ := h
      obtain ⟨hrequired, hpairs⟩ := checkFields_eq_ok_iff.mp hpairs
      have hmem : ∀ e ∈ effective schema v.entries, (e.1, e.2.1) ∈ schema :=
        fun e he => (mem_effective.mp he).1
      refine ⟨hblock, hstray, pairs, checkFields_eq_ok_iff.mpr ⟨hrequired, ?_⟩, rfl⟩
      refine ((List.forall₂_and_left _ _).mpr ⟨hmem, hpairs⟩).imp fun e q h => ⟨h.2.1, ?_⟩
      exact ih schema hinner _ h.1 _ _ h.2.2

/-- a block within a block is normalized like one at the top level -/
theorem checkField_eq_normalize (hinner : f.inner? = some schema) :
    checkField path f v = .ok w ↔ schema.normalize v = .ok w := by
  rw [normalize_eq_ok_iff, ← checkField_of_inner hinner]
  exact ⟨checkField_path path "", checkField_path "" path⟩

/-- what becomes of the effective value of a field: a block within is normalized, and anything else
stays as it is -/
def Field.Settles (f : Field) (v w : Value) : Prop :=
  match f.inner? with
  | some schema => schema.normalize v = .ok w
  | none => w = v

theorem settles_of_checkField (h : checkField path f v = .ok w) : f.Settles v w := by
  rw [Field.Settles]
  cases hinner : f.inner? with
  | none => exact ((checkField_of_plain hinner).mp h).2
  | some schema => exact (checkField_eq_normalize hinner).mp h

/-- a block is accepted when its fields are -/
theorem exists_checkInner_iff
    (hfields : ∀ p ∈ schema, ∀ path v, (∃ w, checkField path p.2 v = .ok w) ↔ p.2.Admits v) :
    (∃ w, IsBlock v ∧ checkInner path (some schema) v.entries = some (.ok w)) ↔
      Conforms schema v := by
  have heach : (∀ e ∈ effective schema v.entries,
        ∃ q : String × Value, q.1 = e.1 ∧ checkField (under path e.1) e.2.1 e.2.2 = .ok q.2) ↔
      ∀ p ∈ schema, ∀ w, effective? v.entries p = some w → p.2.Admits w := by
    constructor
    · intro h p hp w hw
      obtain ⟨q, -, hq⟩ := h (p.1, p.2, w) (mem_effective.mpr ⟨hp, hw⟩)
      exact (hfields p hp _ w).mp ⟨_, hq⟩
    · intro h e he
      obtain ⟨hp, hv⟩ := mem_effective.mp he
      obtain ⟨w, hw⟩ := (hfields _ hp (under path e.1) e.2.2).mpr (h _ hp _ hv)
      exact ⟨(e.1, w), rfl, hw⟩
  constructor
  · rintro ⟨w, hblock, hw⟩
    obtain ⟨hstray, pairs, hpairs, -⟩ := checkInner_eq_ok_iff.mp hw
    obtain ⟨hrequired, hpairs⟩ := checkFields_eq_ok_iff.mp hpairs
    exact .block schema v hblock (strayKey?_eq_none_iff.mp hstray) hrequired
      (heach.mp (exists_forall₂_iff.mp ⟨pairs, hpairs⟩))
  · rintro ⟨_, _, hblock, hknown, hrequired, hadmits⟩
    obtain ⟨pairs, hpairs⟩ := exists_forall₂_iff.mpr (heach.mpr hadmits)
    exact ⟨.map pairs, hblock, checkInner_eq_ok_iff.mpr ⟨strayKey?_eq_none_iff.mpr hknown, pairs,
      checkFields_eq_ok_iff.mpr ⟨hrequired, hpairs⟩, rfl⟩⟩

/-- a field takes the values that its rules admit -/
theorem exists_checkField_iff (path : String) (f : Field) (v : Value) :
    (∃ w, checkField path f v = .ok w) ↔ f.Admits v := by
  induction f using Field.inner_induction generalizing path v with
  | step f ih =>
    cases hinner : f.inner? with
    | none =>
      simp only [checkField_of_plain hinner, exists_eq_right]
      refine ⟨.plain f v hinner, fun h => ?_⟩
      cases h with
      | plain _ _ _ hfits => exact hfits
      | inner _ _ schema hother => cases hinner.symm.trans hother
    | some schema =>
      have hfields := fun p hp path v => ih schema hinner p hp path v
      simp only [checkField_of_inner hinner, exists_checkInner_iff hfields]
      refine ⟨.inner f v schema hinner, fun h => ?_⟩
      cases h with
      | plain _ _ hother => cases hinner.symm.trans hother
      | inner _ _ _ hother hconforms =>
        cases hinner.symm.trans hother
        exact hconforms

/-- a block is normalized when it satisfies the schema -/
theorem exists_normalize_iff :
    (∃ out, schema.normalize raw = .ok out) ↔ Conforms schema raw := by
  simp only [normalize_eq_ok_iff]
  exact exists_checkInner_iff fun p _ path v => exists_checkField_iff path p.2 v

/-! ## the order of keys -/

mutual

/-- two values of a field are the same, or blocks that differ in the order of their keys -/
inductive Field.Reorders : Field → Value → Value → Prop
  | same (f : Field) (v : Value) : Field.Reorders f v v
  | inner (f : Field) (v v' : Value) (schema : Schema) (hinner : f.inner? = some schema)
      (hreorders : Reorders schema v v') : Field.Reorders f v v'

/-- two blocks have the same keys in whatever order, and so do the blocks within them -/
inductive Reorders : Schema → Value → Value → Prop
  | block (schema : Schema) (entries entries' : OrderedMap Value)
      (hkeys : ∀ key, key ∈ entries'.keys ↔ key ∈ entries.keys)
      (hvalues : ∀ p ∈ schema, ∀ v v', entries.get? p.1 = some v → entries'.get? p.1 = some v' →
        Field.Reorders p.2 v v') : Reorders schema (.map entries) (.map entries')

end

/-- a block whose pairs are written in another order -/
theorem Reorders.of_perm (hperm : entries.Perm entries') (hdistinct : OrderedMap.Distinct entries) :
    Reorders schema (.map entries) (.map entries') := by
  have hdistinct' : OrderedMap.Distinct entries' := (hperm.map Prod.fst).nodup_iff.mp hdistinct
  refine .block schema entries entries' (fun key => (hperm.map Prod.fst).mem_iff.symm)
    fun p _ v v' hv hv' => ?_
  have hsame := hdistinct'.get?_of_mem (hperm.mem_iff.mp (OrderedMap.mem_of_get? hv))
  cases hv'.symm.trans hsame
  exact .same p.2 v

/-- what a reordered block has for a field -/
theorem effective?_reorders {p : String × Field}
    (hkeys : ∀ key, key ∈ entries'.keys ↔ key ∈ entries.keys)
    (hvalues : ∀ v v', entries.get? p.1 = some v → entries'.get? p.1 = some v' →
      p.2.Reorders v v') :
    Option.Rel p.2.Reorders (effective? entries p) (effective? entries' p) := by
  rw [effective?, effective?]
  cases hv : entries.get? p.1 with
  | none =>
    have hv' : entries'.get? p.1 = none :=
      OrderedMap.get?_eq_none_iff.mpr fun h => OrderedMap.get?_eq_none_iff.mp hv ((hkeys _).mp h)
    rw [hv', Option.none_or]
    cases p.2.default with
    | none => exact .none
    | some d => exact .some (.same p.2 d)
  | some v =>
    obtain ⟨v', hv'⟩ :=
      OrderedMap.exists_get?_of_mem_keys ((hkeys _).mpr (OrderedMap.mem_keys_of_get? hv))
    rw [hv', Option.some_or, Option.some_or]
    exact .some (hvalues v v' hv hv')

/-- the order of keys does not matter to a block, when it matters to none of its fields -/
theorem checkInner_reorders
    (hfields : ∀ p ∈ schema, ∀ path v v' w, p.2.Reorders v v' →
      checkField path p.2 v = .ok w → checkField path p.2 v' = .ok w)
    (hreorders : Reorders schema v v')
    (h : IsBlock v ∧ checkInner path (some schema) v.entries = some (.ok w)) :
    IsBlock v' ∧ checkInner path (some schema) v'.entries = some (.ok w) := by
  obtain ⟨_, entries, entries', hkeys, hvalues⟩ := hreorders
  obtain ⟨hstray, pairs, hpairs, hw⟩ := checkInner_eq_ok_iff.mp h.2
  refine ⟨.inr ⟨entries', rfl⟩, checkInner_eq_ok_iff.mpr ⟨?_, pairs, ?_, hw⟩⟩
  · rw [strayKey?_eq_none_iff] at hstray ⊢
    exact fun key hkey => hstray key ((hkeys key).mp hkey)
  · exact checkFields_of_rel (fun p hp => effective?_reorders hkeys (hvalues p hp))
      (fun p hp => hfields p hp _) hpairs

/-- the order of keys does not matter to a field -/
theorem checkField_reorders (f : Field) (path : String) (v v' w : Value) (h : f.Reorders v v')
    (hw : checkField path f v = .ok w) : checkField path f v' = .ok w := by
  induction f using Field.inner_induction generalizing path v v' w with
  | step f ih =>
    cases h with
    | same => exact hw
    | inner _ _ _ schema hinner hreorders =>
      rw [checkField_of_inner hinner] at hw ⊢
      exact checkInner_reorders (fun p hp => ih schema hinner p hp) hreorders hw

/-! ## the result -/

/-- **Normalizing a block.** It succeeds for exactly the values that satisfy the schema: null or a map
without keys outside the schema, in which every required field is given or has a default, and every
field admits the value that is given or stands for it. The result has the fields that are given or have a
default, in the order of the schema, each with its value; a block within is normalized itself. The order of
the keys of a block, and of those within it, does not matter. -/
theorem normalize_exact (schema : Schema) (raw : Value) :
    ((∃ out, schema.normalize raw = .ok out) ↔ Conforms schema raw) ∧
      ∀ out, schema.normalize raw = .ok out →
        (∃ pairs, out = .map pairs ∧
          List.Forall₂ (fun e q => q.1 = e.1 ∧ e.2.1.Settles e.2.2 q.2)
            (effective schema raw.entries) pairs) ∧
        ∀ raw', Reorders schema raw raw' → schema.normalize raw' = .ok out := by
  refine ⟨exists_normalize_iff, fun out hout => ?_⟩
  rw [normalize_eq_ok_iff] at hout
  constructor
  · obtain ⟨-, pairs, hpairs, rfl⟩ := checkInner_eq_ok_iff.mp hout.2
    refine ⟨pairs, rfl, (checkFields_eq_ok_iff.mp hpairs).2.imp fun e q hq => ?_⟩
    exact ⟨hq.1, settles_of_checkField hq.2⟩
  · intro raw' hreorders
    rw [normalize_eq_ok_iff]
    exact checkInner_reorders (fun p _ => checkField_reorders p.2) hreorders hout

/-- a cache that may be turned on, and may say how long it keeps things -/
def caching : Schema :=
  [("enabled", (Field.ofShape .bool).withDefault (.bool false)),
    ("ttl", .mk .int false none (some 0) (some 3600) [] none)]

/-- a server with a port, a host that has to be given, a mode and a cache -/
def serving : Schema :=
  [("port", .mk .int false (some (.int 8080)) (some 1) (some 65535) [] none),
    ("host", .mk .string true none none none [] none),
    ("mode", .mk .string false (some (.str "prod")) none none ["dev", "prod"] none),
    ("cache", .mk .map false none none none [] (some caching))]

def cached (cache : OrderedMap Value) : OrderedMap Value :=
  [("cache", .map cache), ("host", .str "h")]

/-- keys in another order, those of the cache as well -/
theorem reorders_cached (cache : OrderedMap Value) (hdistinct : OrderedMap.Distinct cache) :
    Reorders serving (.map (cached cache)) (.map (cached cache.reverse).reverse) := by
  refine .block _ _ _ (fun key => (List.reverse_perm _).map Prod.fst |>.mem_iff)
    fun p hp v v' hv hv' => ?_
  simp only [serving, List.mem_cons, List.not_mem_nil, or_false] at hp
  rcases hp with rfl | rfl | rfl | rfl
  case inl => cases hv
  case inr.inl =>
    cases hv
    cases hv'
    exact .same _ _
  case inr.inr.inl => cases hv
  case inr.inr.inr =>
    cases hv
    cases hv'
    exact .inner _ _ _ caching rfl (.of_perm (List.reverse_perm cache).symm hdistinct)

theorem cached_normalized :
    Conforms serving (.map (cached [("ttl", .int 60), ("enabled", .bool true)])) ∧
      ¬ Conforms serving (.map (cached [("ttl", .int 3601)])) ∧
      serving.normalize (.map (cached [("enabled", .bool true), ("ttl", .int 60)]).reverse) =
        .ok (.map [("port", .int 8080), ("host", .str "h"), ("mode", .str "prod"),
          ("cache", .map [("enabled", .bool true), ("ttl", .int 60)])]) := by
  have hout : serving.normalize (.map (cached [("ttl", .int 60), ("enabled", .bool true)])) =
        .ok (.map [("port", .int 8080), ("host", .str "h"), ("mode", .str "prod"),
          ("cache", .map [("enabled", .bool true), ("ttl", .int 60)])]) := by decide
  have hlong : serving.normalize (.map (cached [("ttl", .int 3601)])) =
      .error (.aboveMax "cache.ttl" 3600 3601) := by decide
  obtain ⟨hiff, hexact⟩ := normalize_exact serving
    (.map (cached [("ttl", .int 60), ("enabled", .bool true)]))
  refine ⟨hiff.mp ⟨_, hout⟩, fun h => ?_, (hexact _ hout).2 _ (reorders_cached _ (by decide))⟩
  obtain ⟨out, hsome⟩ := (normalize_exact serving _).1.mpr h
  cases hlong.symm.trans hsome

end Schema
end ServiceGraph
