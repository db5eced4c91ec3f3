import ServiceGraph.Extension.Builtin
import ServiceGraph.Extension.Lifecycle
import ServiceGraph.Proofs.Extension.Observed
import ServiceGraph.Proofs.Registry.History

/-!
# What the built-in extensions contribute

The two built-in extensions add definitions and change pipelines and routes; they leave the parameters
alone and change no definition that is there.

* `Registry.Appended`, `Registry.Gained`: a registry that has more definitions than before;
* `Program.Contributes`: a program that ends adds definitions of which something is known;
* `Program.Contributes.bind`, `contributes_add`, `quiet_forM`: its rules;
* `Lifecycle.callback_appended`: a callback puts its extension on what it adds;
* `Lifecycle.registerAll_eq_ok`, `bootAll_eq_ok`, `bootEach_cons`: phases that succeed, taken apart;
* `DeclaredServices.register_contributes`, `Http.register_contributes`, `Http.boot_contributes`: the
  callbacks of the built-in extensions.
-/

namespace ServiceGraph

variable {σ α β : Type}

/-! ## registries -/

/-- the definition as a registry takes it: it keeps an origin of its own -/
def Definition.withOrigin (d : Definition) (origin : Option String) : Definition :=
  { d with origin := d.origin.or origin }

namespace Registry

/-- a registry with these definitions behind those it had; pipelines and routes may be others -/
structure Appended (r : Registry) (ds : List Definition) (r' : Registry) : Prop where
  definitions : r'.definitions = r.definitions ++ ds
  unique : r.ids.Nodup → r'.ids.Nodup
  parameters : r'.parameters = r.parameters
  frozen : r'.frozen = r.frozen

/-- a registry that these definitions were added to while one extension was running -/
structure Gained (r : Registry) (ds : List Definition) (r' : Registry) : Prop
    extends Appended r (ds.map (·.withOrigin r.origin)) r' where
  origin : r'.origin = r.origin

variable {r r' r'' : Registry} {ds ds' : List Definition}

theorem Appended.trans (h : r.Appended ds r') (h' : r'.Appended ds' r'') : r.Appended (ds ++ ds') r'' where
  definitions := by rw [h'.definitions, h.definitions, List.append_assoc]
  unique hunique := h'.unique (h.unique hunique)
  parameters := h'.parameters.trans h.parameters
  frozen := h'.frozen.trans h.frozen

/-- only pipelines and routes are others -/
theorem Gained.of_definitions (hdefinitions : r'.definitions = r.definitions)
    (hparameters : r'.parameters = r.parameters) (horigin : r'.origin = r.origin)
    (hfrozen : r'.frozen = r.frozen) : r.Gained [] r' where
  definitions := by rw [List.map_nil, List.append_nil, hdefinitions]
  unique h := by rwa [ids, hdefinitions]
  parameters := hparameters
  origin := horigin
  frozen := hfrozen

theorem Gained.refl (r : Registry) : r.Gained [] r := .of_definitions rfl rfl rfl rfl

theorem Gained.trans (h : r.Gained ds r') (h' : r'.Gained ds' r'') : r.Gained (ds ++ ds') r'' := by
  have happended := h'.toAppended
  rw [h.origin] at happended
  refine ⟨?_, h'.origin.trans h.origin⟩
  rw [List.map_append]
  exact h.toAppended.trans happended

theorem gained_of_add {d : Definition} (h : r.add d = .ok r') : r.Gained [d] r' := by
  have hstep := step_add r d
  rw [change, h] at hstep
  cases hstep with
  | added _ hopen hnew =>
    refine ⟨⟨rfl, fun hunique => ?_, rfl, rfl⟩, rfl⟩
    have hid : d.id ∉ r.ids := fun hid => Bool.false_ne_true (hnew.symm.trans (has_iff_mem_ids.mpr hid))
    have hids := hunique.concat hid
    rw [List.concat_eq_append] at hids
    rw [ids, List.map_append]
    exact hids
  | elsewhere _ _ hop => cases hop

theorem gained_onPipeline (r : Registry) (name : String)
    (f : Pipeline → Except AssemblyError (α × Pipeline)) : r.Gained [] (r.onPipeline name f).2 := by
  rw [onPipeline]
  cases hwith : r.withPipeline name with
  | error e => exact .refl r
  | ok r' =>
    have hr' : r' = { r with pipelines := r.pipelines.insert name (r.pipelineNamed name) } := by
      rw [withPipeline] at hwith
      rcases r.ensureOpen_cases ("change pipeline '" ++ name ++ "'") with ⟨-, hopen⟩ | ⟨-, hopen⟩
      · rw [hopen] at hwith
        cases hwith
      · rw [hopen] at hwith
        exact (Except.ok.inj hwith).symm
    subst hr'
    dsimp only
    split <;> exact .of_definitions rfl rfl rfl rfl

theorem gained_onRoutes (r : Registry) (f : RouteAssembler → Except AssemblyError (α × RouteAssembler)) :
    r.Gained [] (r.onRoutes f).2 := by
  rw [onRoutes]
  split
  · exact .refl r
  · split <;> exact .of_definitions rfl rfl rfl rfl

end Registry

/-! ## programs -/

namespace Program

theorem run_bind (p : Program σ α) (f : α → Program σ β) (w : Workshop σ) :
    (p.bind f).run w =
      match p.run w with
      | (.ok a, w') => (f a).run w'
      | (.error e, w') => (.error e, w') := by
  induction p generalizing w with
  | done result => cases result <;> rfl
  | view next ih => exact ih w.registry w
  | change c next ih => exact ih _ _
  | assemble pipeline next ih => exact ih _ _
  | flatten order next ih => exact ih _ _
  | note write next ih => exact ih _

/-- when the program ends, its result and the definitions that it has added are so related -/
def Contributes (R : α → List Definition → Prop) (p : Program σ α) : Prop :=
  ∀ w a w', p.run w = (.ok a, w') → ∃ ds, R a ds ∧ w.registry.Gained ds w'.registry

def Quiet (p : Program σ α) : Prop := p.Contributes fun _ ds => ds = []

variable {R : α → List Definition → Prop} {Q : β → List Definition → Prop} {p : Program σ α}
  {f : α → Program σ β}

theorem contributes_done {a : α} (h : R a []) : (done (.ok a) : Program σ α).Contributes R := by
  intro w a w' hrun
  cases hrun
  exact ⟨[], h, .refl _⟩

theorem contributes_fail (R : α → List Definition → Prop) (e : ExtensionError) :
    (fail e : Program σ α).Contributes R := fun _ _ _ hrun => nomatch hrun

theorem Contributes.bind (hp : p.Contributes R)
    (hf : ∀ a ds, R a ds → (f a).Contributes fun b ds' => Q b (ds ++ ds')) : (p.bind f).Contributes Q := by
  intro w b w' hrun
  rw [run_bind] at hrun
  cases hfirst : p.run w with
  | mk result w₁ =>
    rw [hfirst] at hrun
    cases result with
    | error e => cases hrun
    | ok a =>
      obtain ⟨ds, hR, hgained⟩ := hp w a w₁ hfirst
      obtain ⟨ds', hQ, hgained'⟩ := hf a ds hR w₁ b w' hrun
      exact ⟨ds ++ ds', hQ, hgained.trans hgained'⟩

theorem Quiet.bind (hp : p.Quiet) (hf : ∀ a, (f a).Contributes Q) : (p.bind f).Contributes Q := by
  refine Contributes.bind hp fun a ds hds => ?_
  subst hds
  exact hf a

theorem contributes_change {c : RegistryChange} {next : Except ChangeError Unit → Program σ α}
    (hc : ∀ r : Registry, r.Gained [] (r.change c).2) (hnext : ∀ result, (next result).Contributes R) :
    (change c next).Contributes R := by
  intro w a w' hrun
  obtain ⟨ds, hR, hgained⟩ := hnext _ _ a w' hrun
  exact ⟨ds, hR, (hc w.registry).trans hgained⟩

theorem contributes_view {next : Registry → Program σ α} (hnext : ∀ r, (next r).Contributes R) :
    (view next).Contributes R := fun w => hnext w.registry w

theorem contributes_assemble {pipeline : String} {next : Except ChangeError (List Node) → Program σ α}
    (hnext : ∀ result, (next result).Contributes R) : (assemble pipeline next).Contributes R := by
  intro w a w' hrun
  obtain ⟨ds, hR, hgained⟩ := hnext _ _ a w' hrun
  exact ⟨ds, hR, (w.registry.gained_onPipeline pipeline Pipeline.assemble).trans hgained⟩

theorem contributes_flatten {order : List String} {next : Except ChangeError RouteTable → Program σ α}
    (hnext : ∀ result, (next result).Contributes R) : (flatten order next).Contributes R := by
  intro w a w' hrun
  obtain ⟨ds, hR, hgained⟩ := hnext _ _ a w' hrun
  exact ⟨ds, hR, (w.registry.gained_onRoutes fun a => a.flatten order).trans hgained⟩

theorem quiet_ofChange (result : Except ChangeError α) : (ofChange result : Program σ α).Quiet := by
  cases result with
  | ok a => exact contributes_done rfl
  | error e => exact contributes_fail _ _

theorem quiet_pipeline (name : String) (c : PipelineChange) :
    (apply (.pipeline name c) : Program σ Unit).Quiet :=
  contributes_change (fun r => r.gained_onPipeline name _) quiet_ofChange

theorem quiet_routes (c : RouteChange) : (apply (.routes c) : Program σ Unit).Quiet :=
  contributes_change (fun r => r.gained_onRoutes _) quiet_ofChange

/-- one definition is added, or the program ends with an error -/
theorem contributes_add (d : Definition) :
    (apply (.add d) : Program σ Unit).Contributes fun _ ds => ds = [d] := by
  intro w a w' hrun
  have hrun : (ofChange (w.registry.orKeep (w.registry.add d)).1).run
      { w with registry := (w.registry.orKeep (w.registry.add d)).2 } = (.ok a, w') := hrun
  cases hadd : w.registry.add d with
  | error e =>
    rw [hadd] at hrun
    cases hrun
  | ok r =>
    rw [hadd] at hrun
    cases hrun
    exact ⟨[d], rfl, Registry.gained_of_add hadd⟩

theorem contributes_addAll (ds : List Definition) :
    (applyAll (ds.map .add) : Program σ Unit).Contributes fun _ added => added = ds := by
  induction ds with
  | nil => exact contributes_done rfl
  | cons d ds ih =>
    show (bind (apply (.add d)) fun _ => applyAll (ds.map .add)).Contributes _
    refine (contributes_add d).bind fun _ added hadded w a w' hrun => ?_
    obtain ⟨rest, rfl, hgained⟩ := ih w a w' hrun
    exact ⟨rest, by rw [hadded]; rfl, hgained⟩

theorem quiet_applyAll {cs : List RegistryChange} (h : ∀ c ∈ cs, (apply c : Program σ Unit).Quiet) :
    (applyAll cs : Program σ Unit).Quiet := by
  induction cs with
  | nil => exact contributes_done rfl
  | cons c cs ih =>
    obtain ⟨hc, hcs⟩ := List.forall_mem_cons.mp h
    exact Quiet.bind (p := apply c) hc fun _ => ih hcs

theorem quiet_forM {l : List α} {f : α → Program σ Unit} (h : ∀ a ∈ l, (f a).Quiet) :
    (l.forM f : Program σ Unit).Quiet := by
  induction l with
  | nil => exact contributes_done rfl
  | cons a l ih =>
    obtain ⟨ha, hl⟩ := List.forall_mem_cons.mp h
    exact Quiet.bind (p := f a) ha fun _ => ih hl

end Program

/-! ## callbacks -/

namespace Lifecycle

/-- a callback that succeeds: its extension stands as the origin on what it has added -/
theorem callback_appended {R : α → List Definition → Prop} {p : Program σ α} (hp : p.Contributes R)
    {name : String} {phase : Phase} {w w' : Workshop σ} {a : α}
    (h : callback name phase p w = (.ok a, w')) :
    ∃ ds, R a ds ∧ w.registry.Appended (ds.map (·.withOrigin (some name))) w'.registry := by
  rw [callback] at h
  cases hrun : p.run { w with registry := { w.registry with origin := some name } } with
  | mk result w₁ =>
    rw [hrun] at h
    cases result with
    | error e => cases h
    | ok a₁ =>
      cases h
      obtain ⟨ds, hR, hgained⟩ := hp _ _ _ hrun
      exact ⟨ds, hR, hgained.definitions, hgained.unique, hgained.parameters, hgained.frozen⟩

variable {configs : OrderedMap Value} {w w' : Workshop σ}

theorem bootEach_cons {name : String} {boot : Program σ Unit} {rest : List (String × Program σ Unit)}
    (h : bootEach ((name, boot) :: rest) w = (.ok (), w')) :
    ∃ w₁, callback name .boot boot w = (.ok (), w₁) ∧ bootEach rest w₁ = (.ok (), w') := by
  rw [bootEach] at h
  cases hcall : callback name .boot boot w with
  | mk result w₁ =>
    rw [hcall] at h
    cases result with
    | error err => cases h
    | ok u => exact ⟨w₁, rfl, h⟩

/-- every section has an extension, and each extension has registered -/
theorem registerAll_eq_ok {l l' : Lifecycle σ} (hstage : l.stage = .resolved)
    (h : l.registerAll configs w = (.ok (), l', w')) :
    (∀ key ∈ configs.keys, key ∈ l.order) ∧
      ∃ boots, registerEach configs l.extensions (l.opening w) = (.ok boots, w') ∧
        l'.stage = .registered boots := by
  cases hstray : l.straySection? configs with
  | some name =>
    rw [registerAll, hstage] at h
    dsimp only at h
    rw [hstray] at h
    cases h
  | none =>
    refine ⟨fun key hkey => ?_, ?_⟩
    · by_contra hnot
      obtain ⟨name, -, -, hname⟩ := exists_straySection ⟨key, hkey, hnot⟩
      cases hstray.symm.trans hname
    · rw [registerAll_eq w hstage hstray] at h
      cases heach : registerEach configs l.extensions (l.opening w) with
      | mk result w₁ =>
        rw [heach] at h
        cases result with
        | error e => cases h
        | ok boots =>
          cases h
          exact ⟨boots, rfl, rfl⟩

/-- each extension has booted -/
theorem bootAll_eq_ok {l l' : Lifecycle σ} {boots : List (String × Program σ Unit)}
    (hstage : l.stage = .registered boots) (h : l.bootAll w = (.ok (), l', w')) :
    bootEach boots w = (.ok (), w') := by
  rw [bootAll_eq w hstage] at h
  cases heach : bootEach boots w with
  | mk result w₁ =>
    rw [heach] at h
    cases result with
    | error e => cases h
    | ok u =>
      rw [booted] at h
      split at h
      · cases h
      · cases h
        rfl

end Lifecycle

/-! ## declared services -/

/-- what is declared is added, and nothing is left to be done at boot -/
theorem DeclaredServices.register_contributes (config : Value) :
    (register config : Program σ (Program σ Unit)).Contributes fun boot ds =>
      Config.serviceDefinitions config = .ok ds ∧ boot = .done (.ok ()) := by
  rw [register]
  cases hdeclared : Config.serviceDefinitions config with
  | error e => exact Program.contributes_fail _ _
  | ok ds =>
    refine (Program.contributes_addAll ds).bind fun _ added hadded => ?_
    exact Program.contributes_done ⟨by rw [hadded, List.append_nil], rfl⟩

/-! ## middleware and routes -/

namespace Http

/-- registration changes the pipeline and the routes only, and leaves the boot -/
theorem register_contributes (config : Value) :
    (register config : Program σ (Program σ Unit)).Contributes fun program ds =>
      ds = [] ∧ ∃ constructor, program = boot constructor := by
  have hpipeline : ∀ c : Except ExtensionError PipelineChange,
      (contribute (c.map (.pipeline middleware)) : Program σ Unit).Quiet := by
    rintro (e | c)
    · exact Program.contributes_fail _ e
    · exact Program.quiet_pipeline middleware c
  have hroutes : ∀ c : Except ExtensionError RouteChange,
      (contribute (c.map .routes) : Program σ Unit).Quiet := by
    rintro (e | c)
    · exact Program.contributes_fail _ e
    · exact Program.quiet_routes c
  rw [register]
  refine (Program.quiet_pipeline middleware .touch).bind fun _ => ?_
  refine (Program.quiet_forM fun v _ => hpipeline _).bind fun _ => ?_
  refine (Program.quiet_forM fun v _ => hpipeline _).bind fun _ => ?_
  cases (listField config "routes").mapM routeOf with
  | error e => exact Program.contributes_fail _ e
  | ok routes =>
    have hroots : ∀ c ∈ routes.map fun r => RegistryChange.routes (.addRoot r),
        (Program.apply c : Program σ Unit).Quiet :=
      List.forall_mem_map.mpr fun r _ => Program.quiet_routes (.addRoot r)
    refine (Program.quiet_applyAll hroots).bind fun _ => ?_
    refine (Program.quiet_forM fun g _ => hroutes _).bind fun _ => ?_
    refine (Program.quiet_forM fun g _ => Program.quiet_routes _).bind fun _ => ?_
    exact Program.contributes_done ⟨rfl, _, rfl⟩

/-- at boot the middleware and the router are defined, which declare no tags -/
theorem boot_contributes (constructor : String) :
    (boot constructor : Program σ Unit).Contributes fun _ ds =>
      ds.map Definition.id = [middleware, router] ∧ ∀ d ∈ ds, d.origin = none ∧ d.tags = [] := by
  refine Program.contributes_assemble fun nodes => ?_
  refine (Program.quiet_ofChange nodes).bind fun nodes => ?_
  refine (Program.contributes_add _).bind fun _ first hfirst => ?_
  refine Program.contributes_view fun r => ?_
  refine Program.contributes_flatten fun table => ?_
  refine (Program.quiet_ofChange table).bind fun table => ?_
  intro w a w' hrun
  obtain ⟨second, rfl, hgained⟩ := Program.contributes_add _ w a w' hrun
  refine ⟨_, ⟨?_, ?_⟩, hgained⟩
  · rw [hfirst]
    rfl
  · rw [hfirst]
    simp [Definition.withType, Definition.ofNode]

end Http
end ServiceGraph
