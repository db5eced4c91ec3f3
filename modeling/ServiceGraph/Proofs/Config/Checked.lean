import ServiceGraph.Proofs.Kernel.Assembled
import ServiceGraph.Proofs.Parameters.Resolved
import ServiceGraph.Proofs.Source.Compilable

/-!
# A checked configuration and a registry that compiles

The check of a configuration looks at what it declares. The compiler looks at all definitions, also at those
that an extension contributes, and at parameters in nodes. What one of them passes the other may refuse.

* `AppConfig.Assembles.problems_eq`: all that is left to be wrong when a registry was assembled;
* `Command.problems_of_compiled`: the problems of a configuration whose registry compiles;
* `Command.compiles_iff_of_checked`: what a configuration without problems needs to compile.
-/

namespace ServiceGraph

/-- what is said of a result can be tested when there is one -/
instance Except.decidableExists {ε α : Type} {P : α → Prop} [DecidablePred P] (x : Except ε α) :
    Decidable (∃ a, x = .ok a ∧ P a) :=
  match x with
  | .ok a => decidable_of_iff (P a) ⟨fun h => ⟨a, rfl, h⟩, fun ⟨_, ha, h⟩ => Except.ok.inj ha ▸ h⟩
  | .error _ => isFalse fun ⟨_, h, _⟩ => nomatch h

namespace AppConfig

instance (c : AppConfig) : Decidable c.Keyed :=
  decidable_of_iff (c.parameters.Distinct ∧ c.sections.Distinct)
    ⟨fun h => ⟨h.1, h.2⟩, fun h => ⟨h.parameters, h.sections⟩⟩

variable {c : AppConfig} {r : Registry} {ds others : List Definition}

/-- an id is defined when it is declared or comes with middleware and routes -/
theorem Assembles.mem_ids (h : c.Assembles r ds others) {id : String} :
    id ∈ r.ids ↔ id ∈ ds.map Definition.id ∨ id ∈ c.contributed := by
  rw [Registry.ids, h.definitions, List.map_append, List.map_map, List.map_map, List.mem_append, ← h.ids]
  rfl

/-- no declared id comes with middleware and routes -/
theorem Assembles.not_mem_contributed (h : c.Assembles r ds others) {id : String}
    (hid : id ∈ ds.map Definition.id) : id ∉ c.contributed := by
  have hunique := h.unique
  rw [Registry.ids, h.definitions, List.map_append, List.map_map, List.map_map] at hunique
  have hapart := (List.nodup_append.mp hunique).2.2
  rw [← h.ids]
  exact fun hother => hapart id hid id hother rfl

theorem Assembles.tags (h : c.Assembles r ds others) :
    ∀ d ∈ r.definitions, ∀ t ∈ d.tags, t.2.objects = [] := by
  have hdeclared := h.declared
  rw [c.declared_eq] at hdeclared
  rw [h.definitions, List.forall_mem_append, List.forall_mem_map, List.forall_mem_map]
  refine ⟨Config.tags_of_serviceDefinitions hdeclared, fun d hd => ?_⟩
  rw [Definition.withOrigin, (h.others d hd).2]
  exact List.forall_mem_nil _

/-- when a registry was assembled, only references can be wrong -/
theorem Assembles.problems_eq (h : c.Assembles r ds others) :
    c.problems Builtin.names = strayReferences ds := by
  have hsections : c.sections.keys.filter (!Builtin.names.contains ·) = [] :=
    List.filter_eq_nil_iff.mpr fun key hkey => by
      rw [List.contains_iff_mem.mpr (h.sections key hkey)]
      decide
  rw [problems, hsections, h.declared, h.parameters, List.map_nil, List.nil_append, List.append_nil]

/-- no reference is stray when each needed id is declared -/
theorem strayReferences_eq_nil_iff :
    strayReferences ds = [] ↔ ∀ d ∈ ds, ∀ id ∈ d.required, id ∈ ds.map Definition.id := by
  rw [strayReferences, List.flatMap_eq_nil_iff]
  refine forall₂_congr fun d _ => ?_
  rw [List.map_eq_nil_iff, List.filter_eq_nil_iff]
  refine forall₂_congr fun id _ => ?_
  rw [Bool.not_eq_true, Bool.not_eq_false', List.contains_iff_mem]

/-- the registry compiles without constructors when its parameters hold no live objects, parameters can be put
into each definition, the ids that it needs are defined, and its live objects have terms -/
theorem Assembles.succeeds_compile_iff (h : c.Assembles r ds others) {σ : Type} {services : Services σ}
    {heap : Heap σ} {options : SourceOptions} :
    (Compile.compile r none services heap options).Succeeds ↔
      (∀ e ∈ r.parameters.tree, e.2.objects = []) ∧
      ∀ d ∈ r.definitions, (∃ d', d.substitute r.parameters = .ok d') ∧ (∀ id ∈ d.required, id ∈ r.ids) ∧
        ∀ v ∈ d.literals, ∀ x ∈ v.objects, (Term.ofObject services heap x).isSome = true :=
  Compile.succeeds_compile_of_resolved_iff h.frozen (Parameters.ends_of_resolve rfl h.parameters).2 h.tags

end AppConfig

namespace Command

variable {c : AppConfig} {f : Files} {r : Registry} {σ : Type} {services : Services σ} {h : Heap σ}
  {options : SourceOptions}

/-- **The check knows declared ids only.** When the registry of a configuration is assembled and compiles, the
check still complains about each reference of a declared service to the middleware or the router, which the
configuration has a section for; these are all of its complaints. -/
theorem problems_of_compiled (hc : c.Keyed) (hr : ((kernel c).assemble f ()).1 = .ok r) {text : String}
    (htext : Compile.compile r none services h options = some (.ok text)) :
    ∃ ds, c.declared = .ok ds ∧ c.problems Builtin.names =
      ds.flatMap fun d => (d.required.filter (c.contributed.contains ·)).map (.unknownReference d.id) := by
  obtain ⟨ds, others, hassembles⟩ := assembles_of_kernel hc hr
  refine ⟨ds, hassembles.declared, ?_⟩
  rw [hassembles.problems_eq, AppConfig.strayReferences]
  refine List.flatMap_congr fun d hd => congrArg _ (List.filter_congr fun id hid => ?_)
  have hdefined : id ∈ ds.map Definition.id ∨ id ∈ c.contributed := by
    have hdefinitions : d.withOrigin (some DeclaredServices.name) ∈ r.definitions := by
      rw [hassembles.definitions]
      exact List.mem_append_left _ (List.mem_map_of_mem hd)
    have hcompiles := (hassembles.succeeds_compile_iff.mp ⟨text, htext⟩).2 _ hdefinitions
    exact hassembles.mem_ids.mp (hcompiles.2.1 id hid)
  by_cases hdeclared : id ∈ ds.map Definition.id
  · rw [List.contains_iff_mem.mpr hdeclared, Bool.not_true, eq_comm, ← Bool.not_eq_true,
      List.contains_iff_mem]
    exact hassembles.not_mem_contributed hdeclared
  · rw [List.contains_iff_mem.mpr (hdefined.resolve_left hdeclared), Bool.not_eq_true', ← Bool.not_eq_true,
      List.contains_iff_mem]
    exact hdeclared

/-- a service that needs the router, and an empty section for middleware and routes -/
def warming : AppConfig where
  parameters := []
  includes := []
  sections := [
    ("services", .map [
      ("warmer", .map [("create", .str "Warmer"), ("arguments", .list [.str "@http.router"])])]),
    (Http.name, .map [])]
  sources := ["kiln.yaml"]

theorem warming_compiles : ∃ r, ((kernel warming).assemble ⟨[], []⟩ ()).1 = .ok r ∧
    (Compile.compile r none noServices .empty .standard).Succeeds := by decide +kernel

theorem warming_problems :
    ∃ r text, warming.Keyed ∧ ((kernel warming).assemble ⟨[], []⟩ ()).1 = .ok r ∧
      Compile.compile r none noServices .empty .standard = some (.ok text) ∧
      warming.problems Builtin.names = [.unknownReference "warmer" Http.router] := by
  have hkeyed : warming.Keyed := by decide
  obtain ⟨r, hr, text, htext⟩ := warming_compiles
  obtain ⟨ds, hds, hproblems⟩ := problems_of_compiled hkeyed hr htext
  refine ⟨r, text, hkeyed, hr, htext, hproblems.trans ?_⟩
  cases hds
  decide +kernel

theorem check_raises_false_alarm : ¬ ∀ (c : AppConfig) (f : Files) (r : Registry) (text : String), c.Keyed →
    ((kernel c).assemble f ()).1 = .ok r →
    Compile.compile r none noServices .empty .standard = some (.ok text) → c.problems Builtin.names = [] := by
  intro h
  obtain ⟨r, hr, text, htext⟩ := warming_compiles
  exact absurd (h warming ⟨[], []⟩ r text (by decide) hr htext) (by decide +kernel)

/-- **What the check does not see.** A configuration without problems whose registry is assembled compiles
exactly when there are no live objects among the parameters, parameters can be put into every node, the
references of middleware and routes are defined, and live objects in literals have terms. -/
theorem compiles_iff_of_checked (hc : c.Keyed) (hchecked : c.problems Builtin.names = [])
    (hr : ((kernel c).assemble f ()).1 = .ok r) :
    (∃ text, Compile.compile r none services h options = some (.ok text)) ↔
      (∀ e ∈ r.parameters.tree, e.2.objects = []) ∧
      (∀ d ∈ r.definitions, ∃ d', d.substitute r.parameters = .ok d') ∧
      (∀ d ∈ r.definitions, d.origin = some Http.name → ∀ id ∈ d.required, id ∈ r.ids) ∧
      ∀ d ∈ r.definitions, ∀ v ∈ d.literals, ∀ x ∈ v.objects, (Term.ofObject services h x).isSome = true := by
  obtain ⟨ds, others, hassembles⟩ := assembles_of_kernel hc hr
  rw [hassembles.problems_eq] at hchecked
  have hdeclared := AppConfig.strayReferences_eq_nil_iff.mp hchecked
  -- the references of declared services were checked
  have hrequired : (∀ d ∈ r.definitions, d.origin = some Http.name → ∀ id ∈ d.required, id ∈ r.ids) ↔
      ∀ d ∈ r.definitions, ∀ id ∈ d.required, id ∈ r.ids := by
    refine ⟨fun hothers d hd => ?_, fun hall d hd _ => hall d hd⟩
    have hcases := hd
    rw [hassembles.definitions, List.mem_append, List.mem_map, List.mem_map] at hcases
    rcases hcases with ⟨e, he, rfl⟩ | ⟨e, he, rfl⟩
    · exact fun id hid => hassembles.mem_ids.mpr (.inl (hdeclared e he id hid))
    · refine hothers _ hd ?_
      rw [Definition.withOrigin, (hassembles.others e he).1]
      rfl
  rw [hrequired]
  refine hassembles.succeeds_compile_iff.trans (and_congr_right fun _ => ?_)
  rw [← forall₂_and, ← forall₂_and]

/-- a route that a declared service answers -/
def greeting : AppConfig where
  parameters := []
  includes := []
  sections := [
    ("services", .map [("hello", .str "Hello")]),
    (Http.name, .map [("routes", .list [.map [("path", .str "/"), ("handler", .str "@hello")]])])]
  sources := ["kiln.yaml"]

theorem greeting_compiles : ∃ r, ((kernel greeting).assemble ⟨[], []⟩ ()).1 = .ok r ∧
    (Compile.compile r none noServices .empty .standard).Succeeds ∧
    ∃ d ∈ r.definitions, d.origin = some Http.name ∧ d.required = ["hello"] := by decide +kernel

theorem greeting_defined : ∃ r, greeting.Keyed ∧ greeting.problems Builtin.names = [] ∧
    ((kernel greeting).assemble ⟨[], []⟩ ()).1 = .ok r ∧
    (∃ d ∈ r.definitions, d.origin = some Http.name ∧ d.required = ["hello"]) ∧
    ∀ d ∈ r.definitions, d.origin = some Http.name → ∀ id ∈ d.required, id ∈ r.ids := by
  have hkeyed : greeting.Keyed := by decide
  have hchecked : greeting.problems Builtin.names = [] := by decide +kernel
  obtain ⟨r, hr, hcompiles, hhello⟩ := greeting_compiles
  obtain ⟨-, -, hdefined, -⟩ := (compiles_iff_of_checked hkeyed hchecked hr).mp hcompiles
  exact ⟨r, hkeyed, hchecked, hr, hhello, hdefined⟩

/-- a route that a service answers which nobody declares -/
def haunted : AppConfig where
  parameters := []
  includes := []
  sections := [(Http.name, .map [("routes", .list [.map [("path", .str "/"), ("handler", .str "@ghost")]])])]
  sources := ["kiln.yaml"]

theorem check_misses_reference : ¬ ∀ (c : AppConfig) (f : Files) (r : Registry), c.Keyed →
    c.problems Builtin.names = [] → ((kernel c).assemble f ()).1 = .ok r →
    ∃ text, Compile.compile r none noServices .empty .standard = some (.ok text) := by
  intro h
  have hfails : ∃ r, ((kernel haunted).assemble ⟨[], []⟩ ()).1 = .ok r ∧
      ¬ (Compile.compile r none noServices .empty .standard).Succeeds := by decide +kernel
  obtain ⟨r, hr, hfails⟩ := hfails
  exact hfails (h haunted ⟨[], []⟩ r (by decide) (by decide +kernel) hr)

end Command
end ServiceGraph
