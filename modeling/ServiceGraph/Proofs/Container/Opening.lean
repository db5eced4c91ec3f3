import ServiceGraph.Container.Basic
import ServiceGraph.Proofs.Node.Substituted

/-!
# The container of a frozen registry

Opening a container over a frozen registry puts the parameters into the nodes and changes nothing
else.

* `Container.ofRegistry_of_substituteAll`, `substituteAll_of_ofRegistry`: a container opens as far
  as the parameters can be put in;
* `Container.has_eq`: the same ids are defined;
* `Container.find?_substituted`: what is defined for an id came out of the registry.
-/

namespace ServiceGraph

namespace Registry

theorem has_iff_mem_ids {r : Registry} {id : String} : r.has id = true ↔ id ∈ r.ids := by
  unfold has find? ids
  rw [List.find?_isSome, List.mem_map]
  simp

theorem mem_of_find? {r : Registry} {id : String} {d : Definition} (h : r.find? id = some d) :
    d ∈ r.definitions := List.mem_of_find?_eq_some h

theorem id_of_find? {r : Registry} {id : String} {d : Definition} (h : r.find? id = some d) :
    d.id = id := by
  simpa using List.find?_some h

end Registry

theorem Definition.substitute_eq_ok {p : Parameters} {d d' : Definition}
    (h : d.substitute p = .ok d') :
    ∃ root setup, d.root.substitute p = .ok root ∧ Node.substituteCalls p d.setup = .ok setup ∧
      d' = { d with root, setup } := by
  rw [Definition.substitute] at h
  obtain ⟨root, hroot, h⟩ := Expansion.bind_eq_ok h
  obtain ⟨setup, hsetup, h⟩ := Expansion.bind_eq_ok h
  cases h
  exact ⟨root, setup, hroot, hsetup, rfl⟩

namespace Container

variable {σ : Type} {p : Parameters}

theorem substituteAll_cons {d : Definition} {ds ds' : List Definition}
    (h : substituteAll p (d :: ds) = .ok ds') :
    ∃ e es, d.substitute p = .ok e ∧ substituteAll p ds = .ok es ∧ ds' = e :: es := by
  rw [substituteAll] at h
  obtain ⟨e, he, h⟩ := Expansion.bind_eq_ok h
  obtain ⟨es, hes, h⟩ := Expansion.bind_eq_ok h
  cases h
  exact ⟨e, es, he, hes, rfl⟩

/-- parameters can be put into all definitions when they can be put into each -/
theorem substituteAll_of_forall {ds : List Definition}
    (h : ∀ d ∈ ds, ∃ d', d.substitute p = .ok d') : ∃ ds', substituteAll p ds = .ok ds' := by
  induction ds with
  | nil => exact ⟨[], rfl⟩
  | cons d ds ih =>
    obtain ⟨e, he⟩ := h d (List.mem_cons_self ..)
    obtain ⟨es, hes⟩ := ih fun d hd => h d (List.mem_cons_of_mem _ hd)
    exact ⟨e :: es, by rw [substituteAll, he, hes]; rfl⟩

theorem mem_substituteAll {ds ds' : List Definition} (h : substituteAll p ds = .ok ds')
    {d' : Definition} (hd' : d' ∈ ds') : ∃ d ∈ ds, d.substitute p = .ok d' := by
  induction ds generalizing ds' with
  | nil =>
    cases h
    cases hd'
  | cons d ds ih =>
    obtain ⟨e, es, he, hes, rfl⟩ := substituteAll_cons h
    rcases List.mem_cons.mp hd' with rfl | hd'
    · exact ⟨d, List.mem_cons_self .., he⟩
    · obtain ⟨d, hd, hde⟩ := ih hes hd'
      exact ⟨d, List.mem_cons_of_mem _ hd, hde⟩

theorem substituteAll_ids {ds ds' : List Definition} (h : substituteAll p ds = .ok ds') :
    ds'.map Definition.id = ds.map Definition.id := by
  induction ds generalizing ds' with
  | nil =>
    cases h
    rfl
  | cons d ds ih =>
    obtain ⟨e, es, he, hes, rfl⟩ := substituteAll_cons h
    obtain ⟨root, setup, -, -, rfl⟩ := Definition.substitute_eq_ok he
    rw [List.map_cons, List.map_cons, ih hes]

/-! ## opening -/

variable {r : Registry} {cs : Constructors σ} {services : Services σ}

theorem ofRegistry_eq (hr : r.frozen = true) :
    ofRegistry r cs services =
      ((substituteAll r.parameters r.definitions).mapError ContainerError.parameter).map
        fun definitions => ⟨{ r with definitions }, cs, services⟩ := by
  unfold ofRegistry
  rw [show r.freeze = .ok r from if_pos hr]
  rfl

theorem ofRegistry_of_substituteAll (hr : r.frozen = true) {ds : List Definition}
    (h : substituteAll r.parameters r.definitions = .ok ds) :
    ofRegistry r cs services = .ok ⟨{ r with definitions := ds }, cs, services⟩ := by
  rw [ofRegistry_eq hr, h]
  rfl

theorem substituteAll_of_ofRegistry (hr : r.frozen = true) {c : Container σ}
    (h : ofRegistry r cs services = .ok c) :
    ∃ ds, substituteAll r.parameters r.definitions = .ok ds ∧
      c = ⟨{ r with definitions := ds }, cs, services⟩ := by
  rw [ofRegistry_eq hr] at h
  cases hs : substituteAll r.parameters r.definitions with
  | ok ds =>
    rw [hs] at h
    cases h
    exact ⟨ds, rfl, rfl⟩
  | error e =>
    rw [hs] at h
    cases h

/-- the same ids are defined in the container and in its registry -/
theorem has_eq (hr : r.frozen = true) {c : Container σ} (h : ofRegistry r cs services = .ok c)
    (id : String) : c.registry.has id = r.has id := by
  obtain ⟨ds, hds, rfl⟩ := substituteAll_of_ofRegistry hr h
  rw [Bool.eq_iff_iff, Registry.has_iff_mem_ids, Registry.has_iff_mem_ids]
  exact iff_of_eq (congrArg (id ∈ ·) (substituteAll_ids hds))

/-- what is defined for an id is a definition of the registry with its parameters put in -/
theorem find?_substituted (hr : r.frozen = true) {c : Container σ}
    (h : ofRegistry r cs services = .ok c) {id : String} {d' : Definition}
    (hd' : c.registry.find? id = some d') :
    ∃ d ∈ r.definitions, d.substitute r.parameters = .ok d' := by
  obtain ⟨ds, hds, rfl⟩ := substituteAll_of_ofRegistry hr h
  exact mem_substituteAll hds (Registry.mem_of_find? hd')

end Container
end ServiceGraph
