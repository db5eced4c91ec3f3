import ServiceGraph.Command.Run
import ServiceGraph.Proofs.Config.Declared
import ServiceGraph.Proofs.Extension.Contributed
import ServiceGraph.Proofs.Kernel.Reuse
import ServiceGraph.Proofs.Parameters.Layers

/-!
# What the built-in extensions assemble

The registry of a command holds the declared definitions, and behind them those of the middleware and of the
router when there is a section for these.

* `AppConfig.Keyed`: the maps of a configuration have no key twice;
* `Command.load_kernel`: the kernel of a command loads the configuration that it is made of;
* `Kernel.build_eq_ok`: a registry that is built, phase by phase;
* `AppConfig.Assembles`: a registry and the configuration that it comes from;
* `Command.assembles_of_kernel`: the result for the kernel of a command.
-/

namespace ServiceGraph

/-! ## loading -/

/-- no key stands twice among the parameters or among the sections -/
structure AppConfig.Keyed (c : AppConfig) : Prop where
  parameters : c.parameters.Distinct
  sections : c.sections.Distinct

namespace Command

variable {c : AppConfig}

/-- the kernel of a command has its configuration already; what that includes was loaded before -/
theorem load_kernel (hc : c.Keyed) (f : Files) : (kernel c).load f = .ok { c with includes := [] } := by
  have hmerged : AppConfig.empty.merge c = { c with includes := [] } := by
    rw [AppConfig.merge]
    show AppConfig.mk (Value.mergeEntries [] c.parameters) [] (Value.mergeEntries [] c.sections) c.sources = _
    rw [Value.mergeEntries_nil hc.parameters, Value.mergeEntries_nil hc.sections]
  show Except.ok { AppConfig.empty.merge c with
    parameters := ((Parameters.ofTree (AppConfig.empty.merge c).parameters).merge []).tree } = _
  rw [hmerged, Parameters.merge, Value.mergeEntries]
  rfl

theorem resolveOrder_kernel (c : AppConfig) :
    resolveOrder (kernel c).extensions (kernel c).catalog () = (.ok (kernel c).extensions, ()) := by
  show resolveOrder (Builtin.forSections c.sections.keys) Builtin.catalog () = _
  rw [kernel, Builtin.forSections]
  split <;> rfl

theorem assemble_kernel (hc : c.Keyed) (f : Files) :
    (kernel c).assemble f () =
      Kernel.build ⟨Builtin.forSections c.sections.keys, .resolved⟩ { c with includes := [] } () := by
  rw [Kernel.assemble, Kernel.prepare, load_kernel hc, Kernel.lifecycle, Lifecycle.resolve,
    resolveOrder_kernel]
  rfl

end Command

/-! ## building -/

namespace Kernel

variable {σ : Type}

/-- both phases succeed, and then the registry is frozen -/
theorem build_eq_ok {l : Lifecycle σ} {c : AppConfig} {journal : σ} {r : Registry}
    (hstage : l.stage = .resolved) (h : (build l c journal).1 = .ok r) :
    (∀ key ∈ c.sections.keys, key ∈ l.order) ∧
      ∃ boots w w', Lifecycle.registerEach c.sections l.extensions
          (l.opening ⟨Registry.ofParameters (Parameters.ofTree c.parameters), journal⟩) = (.ok boots, w) ∧
        Lifecycle.bootEach boots w = (.ok (), w') ∧ w'.registry.freeze = .ok r := by
  rw [build] at h
  cases hregistered : l.registerAll c.sections
    ⟨Registry.ofParameters (Parameters.ofTree c.parameters), journal⟩ with
  | mk result rest =>
    obtain ⟨l', w⟩ := rest
    rw [hregistered] at h
    cases result with
    | error e => cases h
    | ok u =>
      obtain ⟨hsections, boots, heach, hboots⟩ := Lifecycle.registerAll_eq_ok hstage hregistered
      dsimp only at h
      cases hbooted : l'.bootAll w with
      | mk result rest =>
        obtain ⟨l'', w'⟩ := rest
        rw [hbooted] at h
        cases result with
        | error e => cases h
        | ok u =>
          refine ⟨hsections, boots, w, w', heach, Lifecycle.bootAll_eq_ok hboots hbooted, ?_⟩
          dsimp only at h
          cases hfreeze : w'.registry.freeze with
          | error e =>
            rw [hfreeze] at h
            cases h
          | ok r' =>
            rw [hfreeze] at h
            cases h
            rfl

end Kernel

theorem Registry.freeze_eq_ok {r r' : Registry} (hopen : r.frozen = false) (h : r.freeze = .ok r') :
    ∃ p, r.parameters.resolve = .ok p ∧ r' = { r with parameters := p, frozen := true, origin := none } := by
  rw [freeze, if_neg (by simp [hopen])] at h
  cases hp : r.parameters.resolve with
  | error e =>
    rw [hp] at h
    cases h
  | ok p =>
    rw [hp] at h
    cases h
    exact ⟨p, rfl, rfl⟩

/-! ## assembling -/

namespace AppConfig

/-- the ids that come with a section for middleware and routes -/
def contributed (c : AppConfig) : List String :=
  if c.sections.keys.contains Http.name then [Http.middleware, Http.router] else []

/-- the registry holds the definitions that the configuration declares and, behind them, these others -/
structure Assembles (c : AppConfig) (r : Registry) (ds others : List Definition) : Prop where
  sections : ∀ key ∈ c.sections.keys, key ∈ Builtin.names
  declared : c.declared = .ok ds
  parameters : (Parameters.ofTree c.parameters).resolve = .ok r.parameters
  frozen : r.frozen = true
  unique : r.ids.Nodup
  definitions : r.definitions =
    ds.map (·.withOrigin (some DeclaredServices.name)) ++ others.map (·.withOrigin (some Http.name))
  ids : others.map Definition.id = c.contributed
  others : ∀ d ∈ others, d.origin = none ∧ d.tags = []

end AppConfig

namespace Command

variable {c : AppConfig}

/-- what is declared comes when the declared services register, and nothing comes when they boot -/
theorem appended_of_services {es : List (Extension Unit)} {boots : List (String × Program Unit Unit)}
    {w₀ w w' : Workshop Unit}
    (hregistered : Lifecycle.registerEach c.sections (DeclaredServices.extension :: es) w₀ = (.ok boots, w))
    (hbooted : Lifecycle.bootEach boots w = (.ok (), w')) :
    ∃ ds w₁ w₂ rest, c.declared = .ok ds ∧
      w₀.registry.Appended (ds.map (·.withOrigin (some DeclaredServices.name))) w₁.registry ∧
      Lifecycle.registerEach c.sections es w₁ = (.ok rest, w) ∧
      w.registry.Appended [] w₂.registry ∧ Lifecycle.bootEach rest w₂ = (.ok (), w') := by
  obtain ⟨block, boot, w₁, rest, hblock, hcall, hlater, rfl⟩ := Lifecycle.registerEach_cons hregistered
  obtain ⟨ds, ⟨hds, rfl⟩, hgained⟩ :=
    Lifecycle.callback_appended (DeclaredServices.register_contributes block) hcall
  have hdeclared : c.declared = .ok ds := by
    rw [c.declared_eq, ← hds]
    exact congrArg Config.serviceDefinitions (Except.ok.inj hblock)
  obtain ⟨w₂, hidle, hboots⟩ := Lifecycle.bootEach_cons hbooted
  have hquiet : (Program.done (.ok ()) : Program Unit Unit).Quiet := Program.contributes_done rfl
  obtain ⟨_, rfl, hkept⟩ := Lifecycle.callback_appended hquiet hidle
  exact ⟨ds, w₁, w₂, rest, hdeclared, hgained, hlater, hkept, hboots⟩

/-- nothing comes when middleware and routes register, and their two definitions come when they boot -/
theorem appended_of_http {configs : OrderedMap Value} {boots : List (String × Program Unit Unit)}
    {w₁ w w₂ w' : Workshop Unit}
    (hregistered : Lifecycle.registerEach configs [Http.extension] w₁ = (.ok boots, w))
    (hbooted : Lifecycle.bootEach boots w₂ = (.ok (), w')) :
    w₁.registry.Appended [] w.registry ∧
      ∃ others : List Definition, others.map Definition.id = [Http.middleware, Http.router] ∧
        (∀ d ∈ others, d.origin = none ∧ d.tags = []) ∧
        w₂.registry.Appended (others.map (·.withOrigin (some Http.name))) w'.registry := by
  obtain ⟨block, boot, w₃, rest, -, hcall, hend, rfl⟩ := Lifecycle.registerEach_cons hregistered
  cases hend
  obtain ⟨_, ⟨rfl, constructor, rfl⟩, hkept⟩ :=
    Lifecycle.callback_appended (Http.register_contributes block) hcall
  obtain ⟨w₄, hboot, hend⟩ := Lifecycle.bootEach_cons hbooted
  cases hend
  obtain ⟨others, ⟨hids, hothers⟩, hgained⟩ :=
    Lifecycle.callback_appended (Http.boot_contributes constructor) hboot
  exact ⟨hkept, others, hids, hothers, hgained⟩

/-- both phases of the built-in extensions -/
theorem appended_of_phases {boots : List (String × Program Unit Unit)} {w₀ w w' : Workshop Unit}
    (hregistered : Lifecycle.registerEach c.sections (Builtin.forSections c.sections.keys) w₀ =
      (.ok boots, w))
    (hbooted : Lifecycle.bootEach boots w = (.ok (), w')) :
    ∃ ds others : List Definition, c.declared = .ok ds ∧ others.map Definition.id = c.contributed ∧
      (∀ d ∈ others, d.origin = none ∧ d.tags = []) ∧
      w₀.registry.Appended (ds.map (·.withOrigin (some DeclaredServices.name)) ++
        others.map (·.withOrigin (some Http.name))) w'.registry := by
  rw [Builtin.forSections] at hregistered
  obtain ⟨ds, w₁, w₂, rest, hdeclared, hfirst, hlater, hkept, hboots⟩ :=
    appended_of_services hregistered hbooted
  rw [AppConfig.contributed]
  split at hlater
  next hhttp =>
    obtain ⟨hregister, others, hids, hothers, hboot⟩ := appended_of_http hlater hboots
    refine ⟨ds, others, hdeclared, ?_, hothers, ?_⟩
    · rw [hids, if_pos hhttp]
    · have happended := ((hfirst.trans hregister).trans hkept).trans hboot
      rw [List.append_nil, List.append_nil] at happended
      exact happended
  next hhttp =>
    cases hlater
    cases hboots
    refine ⟨ds, [], hdeclared, ?_, List.forall_mem_nil _, hfirst.trans hkept⟩
    rw [if_neg hhttp]
    rfl

/-- **What a command assembles** from a configuration: the declared definitions in their order, and the
middleware and the router behind them when there is a section for these. -/
theorem assembles_of_kernel (hc : c.Keyed) {f : Files} {r : Registry}
    (h : ((kernel c).assemble f ()).1 = .ok r) : ∃ ds others, c.Assembles r ds others := by
  rw [assemble_kernel hc] at h
  obtain ⟨hsections, boots, w, w', hregistered, hbooted, hfreeze⟩ := Kernel.build_eq_ok rfl h
  obtain ⟨ds, others, hdeclared, hids, hothers, happended⟩ := appended_of_phases hregistered hbooted
  obtain ⟨p, hp, rfl⟩ := Registry.freeze_eq_ok happended.frozen hfreeze
  rw [happended.parameters] at hp
  refine ⟨ds, others, fun key hkey => ?_, hdeclared, hp, rfl, happended.unique List.nodup_nil,
    happended.definitions, hids, hothers⟩
  have hname := hsections key hkey
  rw [Builtin.forSections] at hname
  split at hname
  · exact hname
  · exact List.mem_of_mem_head? (List.mem_singleton.mp hname ▸ rfl)

end Command
end ServiceGraph
