import ServiceGraph.Config.Check
import ServiceGraph.Proofs.Container.Frame
import ServiceGraph.Proofs.Source.Emitted

/-!
# Declared definitions

A declaration that holds a live object is refused, so that there is none in the tags of what is declared.

* `ServiceDeclaration.clear_tags`: the tags of a declaration refer to no more than the value that writes it;
* `Config.tags_of_serviceDefinitions`: the result for declared definitions;
* `AppConfig.declared_eq`: a configuration without declarations.
-/

namespace ServiceGraph

variable {x : ObjectId}

namespace Config

theorem clear_fields {keys : List String} {v : Value} {fields : OrderedMap Value} (hv : v.Clear x)
    (h : fields? keys v = some fields) : ∀ e ∈ fields, e.2.Clear x := by
  cases v with
  | map entries =>
    rw [fields?] at h
    split at h
    · cases h
      exact Value.clear_map_iff.mp hv
    · cases h
  | list items =>
    rw [fields?] at h
    split at h
    · cases h
      exact fun e he => Value.clear_list_iff.mp hv _ (List.of_mem_zip he).2
    · cases h
  | null | bool _ | int _ | float _ | str _ | service _ => cases h

theorem clear_tags {v : Value} {tags : OrderedMap Value} (hv : v.Clear x) (h : tags? v = some tags) :
    ∀ t ∈ tags, t.2.Clear x := by
  cases v with
  | str name =>
    cases h
    exact List.forall_mem_singleton.mpr List.not_mem_nil
  | map entries =>
    cases h
    exact Value.clear_map_iff.mp hv
  | null | bool _ | int _ | float _ | list _ | service _ => cases h

theorem clear_tagList {v : Value} {tags : List (OrderedMap Value)} (hv : v.Clear x)
    (h : list? tags? v = some tags) : ∀ t ∈ tags.flatten, t.2.Clear x := by
  cases v with
  | list items =>
    have h : items.mapM tags? = some tags := h
    have hread := (List.forall₂_and_left items tags).mpr
      ⟨Value.clear_list_iff.mp hv, Option.mapM_eq_some_iff.mp h⟩
    intro t ht
    obtain ⟨ts, hts, ht⟩ := List.mem_flatten.mp ht
    exact forall_mem_of_forall₂ hread (fun item ts hts => clear_tags hts.1 hts.2) ts hts t ht
  | null | bool _ | int _ | float _ | str _ | map _ | service _ => cases h

end Config

namespace ServiceDeclaration

theorem tags_of_ofFields? {fields : OrderedMap Value} {d : ServiceDeclaration}
    (h : ofFields? fields = some d) :
    ∃ tags, Config.field? fields "tags" (some []) (Config.list? Config.tags?) = some tags ∧
      d.tags = OrderedMap.ofList tags.flatten := by
  rw [ofFields?] at h
  obtain ⟨create, -, h⟩ := Option.bind_eq_some_iff.mp h
  obtain ⟨arguments, -, h⟩ := Option.bind_eq_some_iff.mp h
  obtain ⟨calls, -, h⟩ := Option.bind_eq_some_iff.mp h
  obtain ⟨setup, -, h⟩ := Option.bind_eq_some_iff.mp h
  obtain ⟨types, -, h⟩ := Option.bind_eq_some_iff.mp h
  obtain ⟨tags, htags, h⟩ := Option.bind_eq_some_iff.mp h
  obtain ⟨shared, -, h⟩ := Option.bind_eq_some_iff.mp h
  obtain ⟨isPublic, -, h⟩ := Option.bind_eq_some_iff.mp h
  cases h
  exact ⟨tags, htags, rfl⟩

theorem clear_tags {v : Value} {d : ServiceDeclaration} (hv : v.Clear x) (h : ofValue? v = some d) :
    ∀ t ∈ d.tags, t.2.Clear x := by
  have hfields : (Config.fields? keys v).bind ofFields? = some d → ∀ t ∈ d.tags, t.2.Clear x := by
    intro h
    obtain ⟨fields, hfields, h⟩ := Option.bind_eq_some_iff.mp h
    obtain ⟨tags, htags, hd⟩ := tags_of_ofFields? h
    rw [hd]
    refine OrderedMap.forall_mem_extend (List.forall_mem_nil _) ?_
    rw [Config.field?] at htags
    split at htags
    next w hw =>
      have hw := Config.clear_fields hv hfields _ (OrderedMap.mem_of_get? hw)
      exact Config.clear_tagList hw htags
    next =>
      cases htags
      exact List.forall_mem_nil _
  cases v with
  | str create =>
    cases h
    exact List.forall_mem_nil _
  | null | bool _ | int _ | float _ | list _ | map _ | service _ => exact hfields h

theorem tags_of_toDefinition {d : ServiceDeclaration} {id : String} {definition : Definition}
    (h : d.toDefinition id = .ok definition) : definition.tags = d.tags := by
  rw [toDefinition] at h
  obtain ⟨root, -, h⟩ := Except.bind_eq_ok h
  cases h
  rfl

end ServiceDeclaration

namespace Config

theorem tags_of_serviceDefinition {id : String} {v : Value} {d : Definition}
    (h : serviceDefinition id v = .ok d) : ∀ t ∈ d.tags, t.2.objects = [] := by
  rw [serviceDefinition] at h
  split at h
  next => cases h
  next hobjects =>
    have hv : ∀ x, v.Clear x := fun x => by
      rw [Value.Clear, not_not.mp hobjects]
      exact List.not_mem_nil
    split at h
    next declaration hdeclaration =>
      rw [ServiceDeclaration.tags_of_toDefinition h]
      refine fun t ht => List.eq_nil_iff_forall_not_mem.mpr fun x => ?_
      exact ServiceDeclaration.clear_tags (hv x) hdeclaration t ht
    next => cases h

/-- declared definitions come without live objects in their tags -/
theorem tags_of_serviceDefinitions {v : Value} {ds : List Definition} (h : serviceDefinitions v = .ok ds) :
    ∀ d ∈ ds, ∀ t ∈ d.tags, t.2.objects = [] := by
  cases v with
  | null =>
    cases h
    exact List.forall_mem_nil _
  | map entries =>
    have hpairs := Except.mapM_eq_ok_iff.mp h
    exact forall_mem_of_forall₂ hpairs fun e d hd => tags_of_serviceDefinition hd
  | bool _ | int _ | float _ | str _ | list _ | service _ => cases h

end Config

namespace AppConfig

/-- no section declares what an empty one declares -/
theorem declared_eq (c : AppConfig) :
    c.declared = Config.serviceDefinitions ((c.sections.get? "services").getD .null) := by
  rw [declared]
  cases c.sections.get? "services" <;> rfl

end AppConfig
end ServiceGraph
