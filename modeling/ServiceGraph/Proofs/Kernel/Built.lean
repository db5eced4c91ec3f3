import Mathlib.Data.List.Forall2
import ServiceGraph.Kernel.Basic

/-!
# What the registry depends on

A program of an extension writes in the journal and never reads it, so the registry that comes of a
configuration depends on the names, schemas and registrations of the extensions alone.

* `Workshop.Same`: two outcomes that differ only in the journal;
* `Extension.Alike`: two extensions with the same name that do the same;
* `Kernel.build_alike`: alike extensions build the same registry from the same parameters and sections.
-/

namespace ServiceGraph

variable {σ α : Type}

/-- the outcomes differ only in the journal -/
inductive Workshop.Same : α × Workshop σ → α × Workshop σ → Prop
  | mk (result : α) (registry : Registry) (journal journal' : σ) :
    Same (result, ⟨registry, journal⟩) (result, ⟨registry, journal'⟩)

theorem Program.run_same (p : Program σ α) (r : Registry) (j j' : σ) :
    Workshop.Same (p.run ⟨r, j⟩) (p.run ⟨r, j'⟩) := by
  induction p generalizing r j j' with
  | done result => exact .mk ..
  | view next ih => exact ih r r j j'
  | change c next ih => exact ih _ _ j j'
  | assemble pipeline next ih => exact ih _ _ j j'
  | flatten order next ih => exact ih _ _ j j'
  | note write next ih => exact ih r _ _

/-- the extensions have one name and do the same; what they depend on does not count -/
structure Extension.Alike (e e' : Extension σ) : Prop where
  name : e.name = e'.name
  schema : e.schema = e'.schema
  register : e.register = e'.register

namespace Lifecycle

theorem callback_same (name : String) (phase : Phase) (p : Program σ α) (r : Registry) (j j' : σ) :
    Workshop.Same (callback name phase p ⟨r, j⟩) (callback name phase p ⟨r, j'⟩) := by
  rw [callback, callback]
  dsimp only
  generalize hx : p.run _ = x
  generalize hy : p.run _ = y
  have hrun := p.run_same { r with origin := some name } j j'
  rw [hx, hy] at hrun
  cases hrun
  exact .mk ..

theorem blockFor_alike {e e' : Extension σ} (h : e.Alike e') (configs : OrderedMap Value) :
    blockFor e configs = blockFor e' configs := by
  rw [blockFor, blockFor, h.name, h.schema]

theorem names_alike {es es' : List (Extension σ)} (h : List.Forall₂ Extension.Alike es es') :
    es.map Extension.name = es'.map Extension.name := by
  induction h with
  | nil => rfl
  | cons he hes ih => rw [List.map_cons, List.map_cons, he.name, ih]

theorem registerEach_alike {es es' : List (Extension σ)} (h : List.Forall₂ Extension.Alike es es')
    (configs : OrderedMap Value) (r : Registry) (j j' : σ) :
    Workshop.Same (registerEach configs es ⟨r, j⟩) (registerEach configs es' ⟨r, j'⟩) := by
  induction h generalizing r j j' with
  | nil => exact .mk ..
  | @cons e e' es es' he hes ih =>
    rw [registerEach, registerEach, blockFor_alike he, he.name, he.register]
    cases blockFor e' configs with
    | error err => exact .mk ..
    | ok block =>
      dsimp only
      generalize hx : callback e'.name .register (e'.register block) ⟨r, j⟩ = x
      generalize hy : callback e'.name .register (e'.register block) ⟨r, j'⟩ = y
      have hcall := callback_same e'.name .register (e'.register block) r j j'
      rw [hx, hy] at hcall
      cases hcall with
      | mk result r j j' =>
        cases result with
        | error err => exact .mk ..
        | ok boot =>
          dsimp only
          have hrest := ih r j j'
          generalize registerEach configs es ⟨r, j⟩ = x at hrest ⊢
          generalize registerEach configs es' ⟨r, j'⟩ = y at hrest ⊢
          cases hrest
          exact .mk ..

theorem bootEach_same (boots : List (String × Program σ Unit)) (r : Registry) (j j' : σ) :
    Workshop.Same (bootEach boots ⟨r, j⟩) (bootEach boots ⟨r, j'⟩) := by
  induction boots generalizing r j j' with
  | nil => exact .mk ..
  | cons b rest ih =>
    obtain ⟨name, boot⟩ := b
    rw [bootEach, bootEach]
    have hcall := callback_same name .boot boot r j j'
    generalize callback name .boot boot ⟨r, j⟩ = x at hcall ⊢
    generalize callback name .boot boot ⟨r, j'⟩ = y at hcall ⊢
    cases hcall with
    | mk result r j j' =>
      cases result with
      | error err => exact .mk ..
      | ok u => exact ih r j j'

end Lifecycle

namespace Kernel

variable {es es' : List (Extension σ)} {c c' : AppConfig}

/-- **Alike extensions build the same registry**, whatever stands in the journal, from configurations with
the same parameters and sections. -/
theorem build_alike (h : List.Forall₂ Extension.Alike es es') (hparameters : c.parameters = c'.parameters)
    (hsections : c.sections = c'.sections) (j j' : σ) :
    (build ⟨es, .resolved⟩ c j).1 = (build ⟨es', .resolved⟩ c' j').1 := by
  rw [build, build, hparameters, hsections]
  rw [Lifecycle.registerAll, Lifecycle.registerAll]
  dsimp only
  rw [Lifecycle.straySection?, Lifecycle.straySection?, Lifecycle.order, Lifecycle.order,
    Lifecycle.names_alike h]
  cases c'.sections.keys.find? (!(es'.map Extension.name).contains ·) with
  | some name => rfl
  | none =>
    dsimp only
    have hregistered := Lifecycle.registerEach_alike h c'.sections
      { Registry.ofParameters (Parameters.ofTree c'.parameters) with
        extensionOrder := es'.map Extension.name } j j'
    -- only that the two runs go alike matters from here on
    generalize Lifecycle.registerEach c'.sections es _ = x at hregistered ⊢
    generalize Lifecycle.registerEach c'.sections es' _ = y at hregistered ⊢
    cases hregistered with
    | mk result r j j' =>
      cases result with
      | error e => rfl
      | ok boots =>
        dsimp only
        rw [Lifecycle.bootAll, Lifecycle.bootAll]
        dsimp only
        have hbooted := Lifecycle.bootEach_same boots r j j'
        generalize Lifecycle.bootEach boots ⟨r, j⟩ = x at hbooted ⊢
        generalize Lifecycle.bootEach boots ⟨r, j'⟩ = y at hbooted ⊢
        cases hbooted with
        | mk result r j j' =>
          cases result with
          | error e => rfl
          | ok u =>
            dsimp only
            cases r.routes.checkConsumed with
            | error e => rfl
            | ok u => rfl

end Kernel
end ServiceGraph
