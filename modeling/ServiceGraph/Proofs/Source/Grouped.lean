import Mathlib.Data.List.Induction
import ServiceGraph.Proofs.Container.Opening
import ServiceGraph.Proofs.Registry.History
import ServiceGraph.Source.Compile

/-!
# What is told of public services

The compiler walks once over the public definitions and groups what it finds by tags and types. The
container walks over all definitions for each tag and each type, and leaves out what is not public.

* `Compile.get?_grouped`: what a key of a grouped list has, in the order of the list;
* `Compile.get?_tagGroups`, `get?_typeGroups`: the definitions that are grouped under a tag or a type;
* `Registry.Keyed`: no definition, and nothing in a definition, is there twice under one key;
* `Container.tagged_eq`, `idsByType_eq`, `has_iff`: what a container tells, in terms of its registry.
-/

namespace ServiceGraph

namespace Compile

/-! ## groups -/

section
variable {α β : Type}

/-- what has a key, in order -/
def entriesOf (pairs : List (String × α)) (key : String) : List α :=
  (pairs.filter fun p => p.1 = key).map Prod.snd

def nonempty? (l : List α) : Option (List α) := if l.isEmpty then none else some l

def grouped (pairs : List (String × α)) : OrderedMap (List α) :=
  pairs.foldl (fun m p => group m p.1 p.2) []

theorem nonempty?_getD (l : List α) : (nonempty? l).getD [] = l := by
  cases l <;> rfl

/-- what is related to a list, unless that is empty -/
theorem of_rel_nonempty? {R : List α → β → Prop} {l : List α} {o : Option β}
    (h : Option.Rel R (nonempty? l) o) : (o = none ↔ l = []) ∧ ∀ b, o = some b → R l b := by
  cases l with
  | nil =>
    have h : Option.Rel R none o := h
    cases h
    exact ⟨by simp, fun b hb => nomatch hb⟩
  | cons a l =>
    have h : Option.Rel R (some (a :: l)) o := h
    cases h with
    | some hab =>
      refine ⟨by simp, fun b hb => ?_⟩
      cases hb
      exact hab

theorem grouped_append (pairs : List (String × α)) (p : String × α) :
    grouped (pairs ++ [p]) = group (grouped pairs) p.1 p.2 := List.foldl_append ..

theorem grouped_distinct (pairs : List (String × α)) : OrderedMap.Distinct (grouped pairs) := by
  induction pairs using List.reverseRecOn with
  | nil => exact List.nodup_nil
  | append_singleton pairs p ih =>
    rw [grouped_append]
    exact ih.insert p.1 _

/-- a key has what came with it, in order, and there is no key with which nothing came -/
theorem get?_grouped (pairs : List (String × α)) (key : String) :
    (grouped pairs).get? key = nonempty? (entriesOf pairs key) := by
  induction pairs using List.reverseRecOn with
  | nil => rfl
  | append_singleton pairs p ih =>
    obtain ⟨k, a⟩ := p
    rw [grouped_append, group, OrderedMap.get?_insert, entriesOf, List.filter_append,
      List.map_append]
    by_cases hk : k = key
    · subst hk
      rw [if_pos rfl, ih, nonempty?_getD]
      simp [nonempty?, entriesOf]
    · rw [if_neg hk, ih]
      simp [entriesOf, hk]

/-- maps whose pairs are grouped, one after the other -/
theorem get?_grouped_flatMap {xs : List β} {f : β → OrderedMap α}
    (h : ∀ x ∈ xs, OrderedMap.Distinct (f x)) (key : String) :
    (grouped (xs.flatMap f)).get? key = nonempty? (xs.filterMap fun x => (f x).get? key) := by
  rw [get?_grouped, entriesOf, List.filter_flatMap, List.map_flatMap,
    List.filterMap_eq_flatMap_toList]
  refine congrArg nonempty? (List.flatMap_congr fun x hx => ?_)
  rw [(h x hx).filter_key]
  cases (f x).get? key <;> rfl

end

/-! ## tags and types -/

section
variable {ds : List Definition}

theorem tagGroups_distinct (ds : List Definition) : OrderedMap.Distinct (tagGroups ds) :=
  grouped_distinct _

theorem typeGroups_distinct (ds : List Definition) : OrderedMap.Distinct (typeGroups ds) :=
  grouped_distinct _

theorem get?_tagGroups (h : ∀ d ∈ ds, d.tags.Distinct) (tag : String) :
    (tagGroups ds).get? tag =
      nonempty? (ds.filterMap fun d => (d.tags.get? tag).map (d.id, ·)) := by
  have hdistinct : ∀ d ∈ ds, OrderedMap.Distinct (d.tags.map fun p => (p.1, d.id, p.2)) := by
    intro d hd
    unfold OrderedMap.Distinct OrderedMap.keys
    rw [List.map_map]
    exact h d hd
  have hgroups := get?_grouped_flatMap hdistinct tag
  simp only [OrderedMap.get?_map] at hgroups
  exact hgroups

theorem get?_typeGroups (h : ∀ d ∈ ds, d.types.Nodup) (typeName : String) :
    (typeGroups ds).get? typeName =
      nonempty? (ds.filterMap fun d => if d.types.contains typeName then some d.id else none) := by
  have hdistinct : ∀ d ∈ ds, OrderedMap.Distinct (d.types.map (·, d.id)) := by
    intro d hd
    unfold OrderedMap.Distinct OrderedMap.keys
    rw [List.map_map]
    exact (List.map_id d.types).symm ▸ h d hd
  have hgroups := get?_grouped_flatMap hdistinct typeName
  simp only [OrderedMap.get?_const] at hgroups
  exact hgroups

end

end Compile

namespace Registry

/-- no id is there twice, and in no definition a tag or a type -/
structure Keyed (r : Registry) : Prop where
  ids : r.ids.Nodup
  tags : ∀ d ∈ r.definitions, d.tags.Distinct
  types : ∀ d ∈ r.definitions, d.types.Nodup

instance (r : Registry) : Decidable r.Keyed :=
  decidable_of_iff (r.ids.Nodup ∧ (∀ d ∈ r.definitions, d.tags.Distinct) ∧
      ∀ d ∈ r.definitions, d.types.Nodup)
    ⟨fun h => ⟨h.1, h.2.1, h.2.2⟩, fun h => ⟨h.ids, h.tags, h.types⟩⟩

/-- the definitions that may be asked for from outside -/
def surface (r : Registry) : List Definition := r.definitions.filter (·.isPublic)

end Registry

namespace Container

/-! ## what a container tells -/

variable {σ : Type} {c : Container σ}

theorem has_of_mem (hunique : c.registry.ids.Nodup) {d : Definition}
    (hd : d ∈ c.registry.definitions) : c.has d.id = d.isPublic := by
  rw [has, publicDefinition?, Registry.find?_of_mem hunique hd, Option.filter_some]
  cases d.isPublic <;> rfl

theorem has_iff_mem (hunique : c.registry.ids.Nodup) (id : String) :
    c.has id = true ↔ id ∈ c.registry.definitions.filterMap fun d =>
      if d.isPublic then some d.id else none := by
  rw [List.mem_filterMap]
  constructor
  · intro hid
    obtain ⟨d, hd⟩ := Option.isSome_iff_exists.mp hid
    obtain ⟨hfind, hpublic⟩ := Option.filter_eq_some_iff.mp hd
    have hdid : d.id = id := Registry.id_of_find? hfind
    exact ⟨d, Registry.mem_of_find? hfind, by rw [if_pos hpublic, hdid]⟩
  · rintro ⟨d, hd, heq⟩
    split at heq
    · next hpublic =>
      cases heq
      rw [has_of_mem hunique hd, hpublic]
    · cases heq

theorem tagged_eq_filterMap (hunique : c.registry.ids.Nodup) (tag : String) :
    c.tagged tag = c.registry.definitions.filterMap fun d =>
      if d.isPublic then (d.tags.get? tag).map (d.id, ·) else none := by
  rw [tagged, Registry.tagged, List.filter_filterMap]
  refine List.filterMap_congr fun d hd => ?_
  have hhas := has_of_mem hunique hd
  cases d.tags.get? tag with
  | none => simp
  | some attrs => simp [Option.filter_some, hhas]

theorem idsByType_eq_filterMap (hunique : c.registry.ids.Nodup) (typeName : String) :
    c.idsByType typeName = c.registry.definitions.filterMap fun d =>
      if d.isPublic then if d.types.contains typeName then some d.id else none else none := by
  rw [idsByType, Registry.byType, ← List.filterMap_eq_map, List.filterMap_filter,
    List.filter_filterMap]
  refine List.filterMap_congr fun d hd => ?_
  have hhas := has_of_mem hunique hd
  by_cases htype : d.types.contains typeName = true
  · rw [if_pos htype, if_pos htype, Function.comp_apply, Option.filter_some, hhas]
  · rw [if_neg htype, if_neg htype, ite_self]
    rfl

/-- what is read off definitions without looking at root and setup is the same without parameters -/
theorem filterMap_substituteAll {α : Type} {p : Parameters} {view : Definition → Option α}
    (hview : ∀ d root setup, view { d with root, setup } = view d) {ds ds' : List Definition}
    (h : substituteAll p ds = .ok ds') : ds'.filterMap view = ds.filterMap view := by
  induction ds generalizing ds' with
  | nil =>
    cases h
    rfl
  | cons d ds ih =>
    obtain ⟨e, es, he, hes, rfl⟩ := substituteAll_cons h
    obtain ⟨root, setup, -, -, rfl⟩ := Definition.substitute_eq_ok he
    rw [List.filterMap_cons, List.filterMap_cons, hview, ih hes]

section
variable {r : Registry} {cs : Constructors σ} {services : Services σ} (hr : r.frozen = true)
  (hunique : r.ids.Nodup) (hc : ofRegistry r cs services = .ok c)
include hr hunique hc

theorem ids_nodup : c.registry.ids.Nodup := by
  obtain ⟨ds, hds, rfl⟩ := substituteAll_of_ofRegistry hr hc
  show (ds.map Definition.id).Nodup
  rw [substituteAll_ids hds]
  exact hunique

/-- the public definitions with a tag -/
theorem tagged_eq (tag : String) :
    c.tagged tag = r.surface.filterMap fun d => (d.tags.get? tag).map (d.id, ·) := by
  have hids := ids_nodup hr hunique hc
  obtain ⟨ds, hds, rfl⟩ := substituteAll_of_ofRegistry hr hc
  rw [tagged_eq_filterMap hids, filterMap_substituteAll (fun _ _ _ => rfl) hds, Registry.surface,
    List.filterMap_filter]

/-- the public definitions of a type -/
theorem idsByType_eq (typeName : String) :
    c.idsByType typeName = r.surface.filterMap fun d =>
      if d.types.contains typeName then some d.id else none := by
  have hids := ids_nodup hr hunique hc
  obtain ⟨ds, hds, rfl⟩ := substituteAll_of_ofRegistry hr hc
  rw [idsByType_eq_filterMap hids, filterMap_substituteAll (fun _ _ _ => rfl) hds,
    Registry.surface, List.filterMap_filter]

/-- the public ids -/
theorem has_iff (id : String) : c.has id = true ↔ id ∈ r.surface.map Definition.id := by
  have hids := ids_nodup hr hunique hc
  obtain ⟨ds, hds, rfl⟩ := substituteAll_of_ofRegistry hr hc
  rw [has_iff_mem hids, filterMap_substituteAll (fun _ _ _ => rfl) hds, Registry.surface,
    ← List.filterMap_eq_map, List.filterMap_filter]
  rfl

end

end Container
end ServiceGraph
