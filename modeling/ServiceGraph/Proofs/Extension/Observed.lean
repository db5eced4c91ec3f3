import ServiceGraph.Extension.Lifecycle
import ServiceGraph.Proofs.Registry.History

/-!
# Observed callbacks

Extensions that write down everything they do to the registry, and how their callbacks end. The registry
sees nothing of it. What they write about a deed is up to the observer.

* `Deed`: an operation on a registry with the one who carries it out, or the end of a callback;
* `Program.observed`, `Extension.observed`, `Lifecycle.observed`: the same callbacks, which log the notes of
  an observer;
* `Registry.turn`: operations one after the other while an extension is running, or none;
* `Passes`: the callbacks of one call, each of which has its turn;
* `Lifecycle.Call`, `Lifecycle.Went`: a call, and what it can do;
* `Lifecycle.perform_observed`: observing changes nothing but the log, and the log is made of notes on what
  the call did;
* `Lifecycle.Round`: a call on a lifecycle and a registry, and `Round.notes` what is noted of it.
-/

namespace ServiceGraph

variable {σ κ α β : Type}

/-- an operation on a registry, carried out by a callback or from outside, or the end of a callback -/
inductive Deed where
  | operation (actor : Option (String × Phase)) (op : RegistryOperation)
      (result : Except ChangeError Unit)
  | ended (name : String) (phase : Phase) (raised : Option ExtensionError)

/-- what an actor has done, by the outcomes of its operations -/
def Deed.ofLog (actor : Option (String × Phase))
    (log : List (RegistryOperation × Except ChangeError Unit)) : List Deed :=
  log.map fun entry => .operation actor entry.1 entry.2

/-! ## observed callbacks -/

/-- the workshop with a log beside its journal -/
def Workshop.logging (w : Workshop σ) (log : List κ) : Workshop (List κ × σ) :=
  ⟨w.registry, (log, w.journal)⟩

namespace Program

def logging (entries : List κ) (next : Program (List κ × σ) α) : Program (List κ × σ) α :=
  .note (fun j => (j.1 ++ entries, j.2)) next

def raised? : Except ExtensionError α → Option ExtensionError
  | .ok _ => none
  | .error e => some e

/-- the same program, which logs what the observer notes of its deeds, and hands on its result with a
change -/
def observed (note : Deed → List κ) (name : String) (phase : Phase) (f : α → β) :
    Program σ α → Program (List κ × σ) β
  | .done result => logging (note (.ended name phase (raised? result))) (.done (result.map f))
  | .view next => .view fun r => (next r).observed note name phase f
  | .change c next => .change c fun r =>
    logging (note (.operation (some (name, phase)) (.change c) r)) ((next r).observed note name phase f)
  | .assemble pipeline next => .assemble pipeline fun r =>
    logging (note (.operation (some (name, phase)) (.assemble pipeline) (r.map fun _ => ())))
      ((next r).observed note name phase f)
  | .flatten order next => .flatten order fun r =>
    logging (note (.operation (some (name, phase)) (.flatten order) (r.map fun _ => ())))
      ((next r).observed note name phase f)
  | .note write next => .note (fun j => (j.1, write j.2)) (next.observed note name phase f)

/-- the deeds of a program are operations that lead to the registry that it leaves, and its end -/
theorem run_observed (note : Deed → List κ) (name : String) (phase : Phase) (f : α → β)
    (p : Program σ α) (w : Workshop σ) (log : List κ) :
    ∃ ops, (p.run w).2.registry = (w.registry.performAll ops).2 ∧
      (p.observed note name phase f).run (w.logging log) = ((p.run w).1.map f, (p.run w).2.logging
        (log ++ (Deed.ofLog (some (name, phase)) (w.registry.performAll ops).1 ++
          [Deed.ended name phase (raised? (p.run w).1)]).flatMap note)) := by
  induction p generalizing w log with
  | done result =>
    refine ⟨[], rfl, ?_⟩
    rw [show Deed.ofLog (some (name, phase)) (w.registry.performAll []).1 = [] from rfl, List.nil_append,
      List.flatMap_singleton]
    rfl
  | view next ih => exact ih w.registry w log
  | change c next ih =>
    obtain ⟨ops, hregistry, hrun⟩ := ih (w.registry.change c).1
      { w with registry := (w.registry.change c).2 }
      (log ++ note (.operation (some (name, phase)) (.change c) (w.registry.change c).1))
    rw [List.append_assoc] at hrun
    exact ⟨.change c :: ops, hregistry, hrun⟩
  | assemble pipeline next ih =>
    obtain ⟨ops, hregistry, hrun⟩ := ih (w.registry.assemblePipeline pipeline).1
      { w with registry := (w.registry.assemblePipeline pipeline).2 }
      (log ++ note (.operation (some (name, phase)) (.assemble pipeline)
        ((w.registry.assemblePipeline pipeline).1.map fun _ => ())))
    rw [List.append_assoc] at hrun
    exact ⟨.assemble pipeline :: ops, hregistry, hrun⟩
  | flatten order next ih =>
    obtain ⟨ops, hregistry, hrun⟩ := ih (w.registry.flattenRoutes order).1
      { w with registry := (w.registry.flattenRoutes order).2 }
      (log ++ note (.operation (some (name, phase)) (.flatten order)
        ((w.registry.flattenRoutes order).1.map fun _ => ())))
    rw [List.append_assoc] at hrun
    exact ⟨.flatten order :: ops, hregistry, hrun⟩
  | note write next ih => exact ih { w with journal := write w.journal } log

end Program

def observedBoot (note : Deed → List κ) (b : String × Program σ Unit) :
    String × Program (List κ × σ) Unit :=
  (b.1, b.2.observed note b.1 .boot id)

/-- the same extension, with both of its callbacks observed -/
def Extension.observed (note : Deed → List κ) (e : Extension σ) : Extension (List κ × σ) where
  name := e.name
  dependencies := e.dependencies
  schema := e.schema
  register block :=
    (e.register block).observed note e.name .register (Program.observed note e.name .boot id)

def Stage.observed (note : Deed → List κ) : Stage σ → Stage (List κ × σ)
  | .resolved => .resolved
  | .registered boots => .registered (boots.map (observedBoot note))
  | .booted => .booted

/-! ## turns -/

/-- operations one after the other while an extension is running, or none; none runs afterwards -/
def Registry.turn (r : Registry) (actor : Option (String × Phase)) (ops : List RegistryOperation) :
    List Deed × Registry :=
  let (log, left) := Registry.performAll { r with origin := actor.map Prod.fst } ops
  (Deed.ofLog actor log, { left with origin := none })

/-- what the callbacks of these extensions do to a registry, up to the first that fails -/
inductive Passes (phase : Phase) :
    List String → Registry → Except ExtensionError Unit → List Deed → Registry → Prop
  | finished (r : Registry) : Passes phase [] r (.ok ()) [] r
  /-- all have booted, and something configured early is left over -/
  | unconsumed (e : AssemblyError) (r : Registry) (hphase : phase = .boot) :
      Passes phase [] r (.error (.assembly e)) [] r
  /-- the callback of an extension whose configuration is refused does not run -/
  | misconfigured (name : String) (names : List String) (e : SchemaError) (r : Registry)
      (hphase : phase = .register) :
      Passes phase (name :: names) r (.error (.invalidConfig name e)) [] r
  | failed (name : String) (names : List String) (ops : List RegistryOperation)
      (e : ExtensionError) (r : Registry) :
      Passes phase (name :: names) r (.error (.failed name phase e))
        ((r.turn (some (name, phase)) ops).1 ++ [.ended name phase (some e)])
        (r.turn (some (name, phase)) ops).2
  | next (name : String) {names : List String} (ops : List RegistryOperation) {r r' : Registry}
      {result : Except ExtensionError Unit} {deeds : List Deed}
      (hrest : Passes phase names (r.turn (some (name, phase)) ops).2 result deeds r') :
      Passes phase (name :: names) r result
        ((r.turn (some (name, phase)) ops).1 ++ [.ended name phase none] ++ deeds) r'

/-- what is left over shows when all have ended -/
theorem Passes.leaving {names : List String} {r r' : Registry} {result : Except ExtensionError Unit}
    {deeds : List Deed} (h : Passes .boot names r result deeds r') (hresult : result = .ok ())
    (e : AssemblyError) : Passes .boot names r (.error (.assembly e)) deeds r' := by
  induction h with
  | finished r => exact .unconsumed e r rfl
  | unconsumed => cases hresult
  | misconfigured => cases hresult
  | failed => cases hresult
  | next name ops _ ih => exact .next name ops (ih hresult)

namespace Lifecycle

def observed (note : Deed → List κ) (l : Lifecycle σ) : Lifecycle (List κ × σ) :=
  ⟨l.extensions.map (Extension.observed note), l.stage.observed note⟩

theorem blockFor_eq_error {e : Extension σ} {configs : OrderedMap Value} {err : ExtensionError}
    (h : blockFor e configs = .error err) : ∃ e', err = .invalidConfig e.name e' := by
  unfold blockFor at h
  cases hschema : e.schema with
  | none =>
    rw [hschema] at h
    cases h
  | some schema =>
    rw [hschema] at h
    dsimp only at h
    cases hnormal : schema.normalize ((configs.get? e.name).getD .null) with
    | ok block =>
      rw [hnormal] at h
      cases h
    | error e' =>
      rw [hnormal] at h
      cases h
      exact ⟨e', rfl⟩

theorem registerEach_cons {configs : OrderedMap Value} {e : Extension σ} {es : List (Extension σ)}
    {w w' : Workshop σ} {boots : List (String × Program σ Unit)}
    (h : registerEach configs (e :: es) w = (.ok boots, w')) :
    ∃ block boot w₁ rest, blockFor e configs = .ok block ∧
      callback e.name .register (e.register block) w = (.ok boot, w₁) ∧
      registerEach configs es w₁ = (.ok rest, w') ∧ boots = (e.name, boot) :: rest := by
  rw [registerEach] at h
  cases hblock : blockFor e configs with
  | error err =>
    rw [hblock] at h
    cases h
  | ok block =>
    rw [hblock] at h
    dsimp only at h
    cases hcall : callback e.name .register (e.register block) w with
    | mk result w₁ =>
      rw [hcall] at h
      cases result with
      | error err => cases h
      | ok boot =>
        dsimp only at h
        cases hrest : registerEach configs es w₁ with
        | mk result w₂ =>
          rw [hrest] at h
          cases result with
          | error err => cases h
          | ok rest =>
            cases h
            exact ⟨block, boot, w₁, rest, rfl, hcall, hrest, rfl⟩

/-- what an extension leaves to be done goes by its name -/
theorem names_of_registerEach {configs : OrderedMap Value} {es : List (Extension σ)}
    {w : Workshop σ} {boots : List (String × Program σ Unit)}
    (h : (registerEach configs es w).1 = .ok boots) :
    boots.map Prod.fst = es.map Extension.name := by
  induction es generalizing w boots with
  | nil =>
    cases h
    rfl
  | cons e es ih =>
    obtain ⟨_, boot, _, rest, -, -, hrest, rfl⟩ := registerEach_cons (Prod.ext h rfl)
    rw [List.map_cons, List.map_cons, ih (congrArg Prod.fst hrest)]

section
variable (note : Deed → List κ)

/-- an observed callback does what it does unobserved; its deeds are its turn and its end -/
theorem callback_observed (name : String) (phase : Phase) (f : α → β) (p : Program σ α)
    (w : Workshop σ) (log : List κ) : ∃ ops left,
      left.registry = (w.registry.turn (some (name, phase)) ops).2 ∧
      ((∃ a, callback name phase p w = (.ok a, left) ∧
          callback name phase (p.observed note name phase f) (w.logging log) = (.ok (f a), left.logging
            (log ++ ((w.registry.turn (some (name, phase)) ops).1 ++
              [Deed.ended name phase none]).flatMap note))) ∨
        ∃ e, callback name phase p w = (.error (.failed name phase e), left) ∧
          callback name phase (p.observed note name phase f) (w.logging log) =
            (.error (.failed name phase e), left.logging
              (log ++ ((w.registry.turn (some (name, phase)) ops).1 ++
                [Deed.ended name phase (some e)]).flatMap note))) := by
  obtain ⟨ops, hregistry, hrun⟩ := p.run_observed note name phase f
    { w with registry := { w.registry with origin := some name } } log
  refine ⟨ops, (callback name phase p w).2, ?_, ?_⟩
  · exact congrArg (fun r => { r with origin := none }) hregistry
  · unfold callback
    dsimp only [Workshop.logging] at hrun ⊢
    rw [hrun]
    generalize p.run _ = out
    obtain ⟨result, left⟩ := out
    cases result with
    | ok a => exact .inl ⟨a, rfl, rfl⟩
    | error e => exact .inr ⟨e, rfl, rfl⟩

theorem blockFor_observed (e : Extension σ) (configs : OrderedMap Value) :
    blockFor (e.observed note) configs = blockFor e configs := rfl

/-- observed extensions register as they do unobserved, one turn after the other -/
theorem registerEach_observed (configs : OrderedMap Value) (es : List (Extension σ)) (w : Workshop σ)
    (log : List κ) : ∃ deeds,
      Passes .register (es.map Extension.name) w.registry
        ((registerEach configs es w).1.map fun _ => ()) deeds (registerEach configs es w).2.registry ∧
      registerEach configs (es.map (Extension.observed note)) (w.logging log) =
        ((registerEach configs es w).1.map (List.map (observedBoot note)),
          (registerEach configs es w).2.logging (log ++ deeds.flatMap note)) := by
  induction es generalizing w log with
  | nil => exact ⟨[], .finished _, by rw [List.flatMap_nil, List.append_nil]; rfl⟩
  | cons e es ih =>
    rw [List.map_cons, List.map_cons, registerEach, registerEach, blockFor_observed]
    cases hblock : blockFor e configs with
    | error err =>
      obtain ⟨e', rfl⟩ := blockFor_eq_error hblock
      exact ⟨[], .misconfigured e.name _ e' _ rfl, by rw [List.flatMap_nil, List.append_nil]; rfl⟩
    | ok block =>
      obtain ⟨ops, left, hleft, ⟨boot, hcall, hobserved⟩ | ⟨err, hcall, hobserved⟩⟩ :=
        callback_observed note e.name .register (Program.observed note e.name .boot id)
          (e.register block) w log
      · obtain ⟨deeds, hpasses, hrest⟩ := ih left
          (log ++ ((w.registry.turn (some (e.name, .register)) ops).1 ++
            [Deed.ended e.name .register none]).flatMap note)
        rw [hleft] at hpasses
        rw [List.append_assoc, ← List.flatMap_append] at hrest
        dsimp only [Extension.observed]
        rw [hcall, hobserved]
        dsimp only
        rw [hrest]
        -- the turn ended well, so the account goes on with the rest
        refine ⟨(w.registry.turn (some (e.name, .register)) ops).1 ++
          [.ended e.name .register none] ++ deeds, .next e.name ops ?_, ?_⟩
        · cases hresult : (registerEach configs es left).1 with
          | ok _ | error _ =>
            rw [hresult] at hpasses
            exact hpasses
        · cases (registerEach configs es left).1 <;> rfl
      · dsimp only [Extension.observed]
        rw [hcall, hobserved]
        exact ⟨_, hleft ▸ .failed e.name _ ops err _, rfl⟩

/-- observed extensions boot as they do unobserved, one turn after the other -/
theorem bootEach_observed (boots : List (String × Program σ Unit)) (w : Workshop σ) (log : List κ) :
    ∃ deeds, Passes .boot (boots.map Prod.fst) w.registry (bootEach boots w).1 deeds
        (bootEach boots w).2.registry ∧
      bootEach (boots.map (observedBoot note)) (w.logging log) =
        ((bootEach boots w).1, (bootEach boots w).2.logging (log ++ deeds.flatMap note)) := by
  induction boots generalizing w log with
  | nil => exact ⟨[], .finished _, by rw [List.flatMap_nil, List.append_nil]; rfl⟩
  | cons b boots ih =>
    obtain ⟨name, boot⟩ := b
    rw [List.map_cons, List.map_cons, observedBoot, bootEach, bootEach]
    obtain ⟨ops, left, hleft, ⟨u, hcall, hobserved⟩ | ⟨err, hcall, hobserved⟩⟩ :=
      callback_observed note name .boot id boot w log
    · obtain ⟨deeds, hpasses, hrest⟩ := ih left
        (log ++ ((w.registry.turn (some (name, .boot)) ops).1 ++ [Deed.ended name .boot none]).flatMap note)
      rw [hleft] at hpasses
      rw [List.append_assoc, ← List.flatMap_append] at hrest
      rw [hcall, hobserved]
      exact ⟨_, .next name ops hpasses, hrest⟩
    · rw [hcall, hobserved]
      exact ⟨_, hleft ▸ .failed name _ ops err _, rfl⟩

end

/-! ## calls -/

inductive Call where
  | register (configs : OrderedMap Value)
  | boot

def Call.phase : Call → Phase
  | register _ => .register
  | boot => .boot

def Call.Due : Call → Stage σ → Prop
  | register _, .resolved => True
  | boot, .registered _ => True
  | _, _ => False

theorem Call.Due.ne_booted {call : Call} {s : Stage σ} (h : call.Due s) : s ≠ .booted := by
  rintro rfl
  cases call <;> exact h.elim

def perform (l : Lifecycle σ) (w : Workshop σ) :
    Call → Except ExtensionError Unit × Lifecycle σ × Workshop σ
  | .register configs => l.registerAll configs w
  | .boot => l.bootAll w

def pending (l : Lifecycle σ) : List String :=
  match l.stage with
  | .resolved => l.order
  | .registered boots => boots.map Prod.fst
  | .booted => []

/-- the workshop in which extensions register -/
def opening (l : Lifecycle σ) (w : Workshop σ) : Workshop σ :=
  { w with registry := { w.registry with extensionOrder := l.order } }

/-- what one call can do, with the deeds of its callbacks -/
inductive Went (l : Lifecycle σ) (w : Workshop σ) :
    Call → Except ExtensionError Unit → Lifecycle σ → Workshop σ → List Deed → Prop
  | outOfPhase (call : Call) (hdue : ¬ call.Due l.stage) :
      Went l w call (.error (.outOfPhase call.phase.name l.stage.name)) l w []
  | stray (configs : OrderedMap Value) (name : String) (hstage : l.stage = .resolved)
      (hstray : l.straySection? configs = some name) :
      Went l w (.register configs) (.error (.unknownSection name)) l w []
  /-- the callbacks run, and the call fails -/
  | stopped (call : Call) (e : ExtensionError) (w' : Workshop σ) (deeds : List Deed)
      (hdue : call.Due l.stage)
      (hclear : ∀ configs, call = .register configs → l.straySection? configs = none)
      (order : List String) (hpasses : Passes call.phase l.pending
        { w.registry with extensionOrder := order } (.error e) deeds w'.registry) :
      Went l w call (.error e) l w' deeds
  | registered (configs : OrderedMap Value) (boots : List (String × Program σ Unit))
      (w' : Workshop σ) (deeds : List Deed) (hstage : l.stage = .resolved)
      (hclear : l.straySection? configs = none) (hboots : boots.map Prod.fst = l.order)
      (hpasses : Passes .register l.order (l.opening w).registry (.ok ()) deeds w'.registry) :
      Went l w (.register configs) (.ok ()) ⟨l.extensions, .registered boots⟩ w' deeds
  | booted (boots : List (String × Program σ Unit)) (w' : Workshop σ) (deeds : List Deed)
      (hstage : l.stage = .registered boots)
      (hpasses : Passes .boot l.pending w.registry (.ok ()) deeds w'.registry) :
      Went l w .boot (.ok ()) ⟨l.extensions, .booted⟩ w' deeds

def registered (l : Lifecycle σ)
    (out : Except ExtensionError (List (String × Program σ Unit)) × Workshop σ) :
    Except ExtensionError Unit × Lifecycle σ × Workshop σ :=
  match out with
  | (.error e, w) => (.error e, l, w)
  | (.ok boots, w) => (.ok (), { l with stage := .registered boots }, w)

theorem registerAll_eq {l : Lifecycle σ} {configs : OrderedMap Value} (w : Workshop σ)
    (hstage : l.stage = .resolved) (hclear : l.straySection? configs = none) :
    l.registerAll configs w = l.registered (registerEach configs l.extensions (l.opening w)) := by
  rw [registerAll, hstage]
  dsimp only
  rw [hclear]
  rfl

/-- a section without an extension ends a registration at once -/
theorem registerAll_of_stray {l : Lifecycle σ} {configs : OrderedMap Value} {name : String}
    (w : Workshop σ) (hstage : l.stage = .resolved) (hstray : l.straySection? configs = some name) :
    l.registerAll configs w = (.error (.unknownSection name), l, w) := by
  rw [registerAll, hstage]
  dsimp only
  rw [hstray]

/-- the end of a boot: nothing configured early may be left over -/
def booted (l : Lifecycle σ) (out : Except ExtensionError Unit × Workshop σ) :
    Except ExtensionError Unit × Lifecycle σ × Workshop σ :=
  match out with
  | (.error e, w) => (.error e, l, w)
  | (.ok (), w) =>
    match w.registry.routes.checkConsumed with
    | .error e => (.error (.assembly e), l, w)
    | .ok () => (.ok (), { l with stage := .booted }, w)

theorem bootAll_eq {l : Lifecycle σ} {boots : List (String × Program σ Unit)} (w : Workshop σ)
    (hstage : l.stage = .registered boots) : l.bootAll w = l.booted (bootEach boots w) := by
  rw [bootAll, hstage]
  rfl

/-- a call that is not due does nothing -/
theorem perform_of_not_due {l : Lifecycle σ} {call : Call} (w : Workshop σ)
    (hdue : ¬ call.Due l.stage) :
    l.perform w call = (.error (.outOfPhase call.phase.name l.stage.name), l, w) := by
  cases call with
  | register configs =>
    rw [perform, registerAll]
    cases hstage : l.stage with
    | resolved => exact absurd (by rw [hstage]; trivial) hdue
    | registered boots => rfl
    | booted => rfl
  | boot =>
    rw [perform, bootAll]
    cases hstage : l.stage with
    | registered boots => exact absurd (by rw [hstage]; trivial) hdue
    | resolved => rfl
    | booted => rfl

/-- a section is stray when no extension has its name -/
theorem straySection?_eq_none {l : Lifecycle σ} {configs : OrderedMap Value}
    (h : ∀ key ∈ configs.keys, key ∈ l.order) : l.straySection? configs = none := by
  refine List.find?_eq_none.mpr fun key hkey => ?_
  rw [List.contains_iff_mem.mpr (h key hkey)]
  decide

theorem exists_straySection {l : Lifecycle σ} {configs : OrderedMap Value}
    (h : ∃ key ∈ configs.keys, key ∉ l.order) :
    ∃ key ∈ configs.keys, key ∉ l.order ∧ l.straySection? configs = some key := by
  cases hstray : l.straySection? configs with
  | some key =>
    refine ⟨key, List.mem_of_find?_eq_some hstray, fun hmem => ?_, rfl⟩
    have hnot := List.find?_some hstray
    rw [List.contains_iff_mem.mpr hmem] at hnot
    cases hnot
  | none =>
    obtain ⟨key, hkey, hnot⟩ := h
    have hall := List.find?_eq_none.mp hstray key hkey
    rw [Bool.not_eq_true, Bool.not_eq_false', List.contains_iff_mem] at hall
    exact absurd hall hnot

/-! ## observed calls -/

section
variable (note : Deed → List κ)

theorem order_observed (l : Lifecycle σ) : (l.observed note).order = l.order := by
  rw [order, order, observed, List.map_map]
  rfl

theorem straySection?_observed (l : Lifecycle σ) (configs : OrderedMap Value) :
    (l.observed note).straySection? configs = l.straySection? configs := by
  rw [straySection?, straySection?, order_observed]

theorem opening_observed (l : Lifecycle σ) (w : Workshop σ) (log : List κ) :
    (l.observed note).opening (w.logging log) = (l.opening w).logging log := by
  rw [opening, order_observed]
  rfl

theorem name_observed (s : Stage σ) : (s.observed note).name = s.name := by
  cases s <;> rfl

theorem due_observed (call : Call) (s : Stage σ) : call.Due (s.observed note) ↔ call.Due s := by
  cases call <;> cases s <;> exact Iff.rfl

theorem registerAll_observed {l : Lifecycle σ} (hstage : l.stage = .resolved)
    (configs : OrderedMap Value) (w : Workshop σ) :
    ∃ deeds, Went l w (.register configs) (l.registerAll configs w).1
        (l.registerAll configs w).2.1 (l.registerAll configs w).2.2 deeds ∧
      (l.observed note).registerAll configs (w.logging []) = ((l.registerAll configs w).1,
        (l.registerAll configs w).2.1.observed note,
        (l.registerAll configs w).2.2.logging (deeds.flatMap note)) := by
  have hobserved : (l.observed note).stage = .resolved := congrArg (Stage.observed note) hstage
  cases hstray : l.straySection? configs with
  | some name =>
    rw [registerAll_of_stray w hstage hstray, registerAll_of_stray (w.logging []) hobserved
      ((straySection?_observed note l configs).trans hstray)]
    exact ⟨[], .stray configs name hstage hstray, rfl⟩
  | none =>
    obtain ⟨deeds, hpasses, hrun⟩ := registerEach_observed note configs l.extensions (l.opening w) []
    have hnames : ∀ boots, (registerEach configs l.extensions (l.opening w)).1 = .ok boots →
        boots.map Prod.fst = l.extensions.map Extension.name := fun _ => names_of_registerEach
    rw [registerAll_eq w hstage hstray, registerAll_eq (w.logging []) hobserved
      ((straySection?_observed note l configs).trans hstray), opening_observed]
    rw [show (l.observed note).extensions = l.extensions.map (Extension.observed note) from rfl, hrun]
    generalize registerEach configs l.extensions (l.opening w) = out at hpasses hnames ⊢
    obtain ⟨result, left⟩ := out
    cases result with
    | error e =>
      have hdue : (Call.register configs).Due l.stage := by rw [hstage]; trivial
      have hclear : ∀ configs', Call.register configs = .register configs' →
          l.straySection? configs' = none := by
        rintro _ ⟨⟩
        exact hstray
      refine ⟨deeds, .stopped _ e left deeds hdue hclear l.order ?_, rfl⟩
      rw [pending, hstage]
      exact hpasses
    | ok boots =>
      exact ⟨deeds, .registered configs boots left deeds hstage hstray (hnames boots rfl) hpasses, rfl⟩

theorem bootAll_observed {l : Lifecycle σ} {boots : List (String × Program σ Unit)}
    (hstage : l.stage = .registered boots) (w : Workshop σ) :
    ∃ deeds, Went l w .boot (l.bootAll w).1 (l.bootAll w).2.1 (l.bootAll w).2.2 deeds ∧
      (l.observed note).bootAll (w.logging []) = ((l.bootAll w).1, (l.bootAll w).2.1.observed note,
        (l.bootAll w).2.2.logging (deeds.flatMap note)) := by
  have hobserved : (l.observed note).stage = .registered (boots.map (observedBoot note)) :=
    congrArg (Stage.observed note) hstage
  have hpending : l.pending = boots.map Prod.fst := by rw [pending, hstage]
  have hdue : Call.boot.Due l.stage := by rw [hstage]; trivial
  have hclear : ∀ configs, Call.boot = .register configs → l.straySection? configs = none := by
    rintro _ ⟨⟩
  obtain ⟨deeds, hpasses, hrun⟩ := bootEach_observed note boots w []
  rw [← hpending] at hpasses
  rw [bootAll_eq w hstage, bootAll_eq _ hobserved, hrun]
  generalize bootEach boots w = out at hpasses ⊢
  obtain ⟨result, left⟩ := out
  cases result with
  | error e => exact ⟨deeds, .stopped .boot e left deeds hdue hclear _ hpasses, rfl⟩
  | ok u =>
    rw [booted, booted]
    dsimp only [Workshop.logging]
    cases left.registry.routes.checkConsumed with
    | error e => exact ⟨deeds, .stopped .boot _ left deeds hdue hclear _ (hpasses.leaving rfl e), rfl⟩
    | ok u => exact ⟨deeds, .booted boots left deeds hstage hpasses, rfl⟩

/-- **Observing changes nothing but the log**, and the log is made of notes on what the call did. -/
theorem perform_observed (l : Lifecycle σ) (w : Workshop σ) (call : Call) :
    ∃ deeds, Went l w call (l.perform w call).1 (l.perform w call).2.1 (l.perform w call).2.2
        deeds ∧
      (l.observed note).perform (w.logging []) call = ((l.perform w call).1,
        (l.perform w call).2.1.observed note, (l.perform w call).2.2.logging (deeds.flatMap note)) := by
  by_cases hdue : call.Due l.stage
  · cases hstage : l.stage with
    | resolved =>
      cases call with
      | register configs => exact registerAll_observed note hstage configs w
      | boot =>
        rw [hstage] at hdue
        exact hdue.elim
    | registered boots =>
      cases call with
      | register configs =>
        rw [hstage] at hdue
        exact hdue.elim
      | boot => exact bootAll_observed note hstage w
    | booted =>
      rw [hstage] at hdue
      cases call <;> exact hdue.elim
  · have hdue' : ¬ call.Due (l.observed note).stage := mt (due_observed note call l.stage).mp hdue
    rw [perform_of_not_due w hdue, perform_of_not_due (w.logging []) hdue',
      show (l.observed note).stage.name = l.stage.name from name_observed note l.stage]
    exact ⟨[], .outOfPhase call hdue, rfl⟩

end

/-- a call, and the lifecycle and workshop that it comes to -/
structure Round (σ : Type) where
  call : Call
  before : Lifecycle σ
  workshop : Workshop σ

namespace Round

def outcome (x : Round σ) : Except ExtensionError Unit × Lifecycle σ × Workshop σ :=
  x.before.perform x.workshop x.call

def result (x : Round σ) : Except ExtensionError Unit := x.outcome.1

def after (x : Round σ) : Lifecycle σ := x.outcome.2.1

def left (x : Round σ) : Workshop σ := x.outcome.2.2

/-- what an observer notes of the callbacks of the call -/
def notes (x : Round σ) (note : Deed → List κ) : List κ :=
  ((x.before.observed note).perform (x.workshop.logging []) x.call).2.2.journal.1

theorem went (x : Round σ) (note : Deed → List κ) : ∃ deeds, x.notes note = deeds.flatMap note ∧
    x.before.Went x.workshop x.call x.result x.after x.left deeds := by
  obtain ⟨deeds, hwent, hrun⟩ := x.before.perform_observed note x.workshop x.call
  refine ⟨deeds, ?_, hwent⟩
  rw [notes, hrun]
  rfl

theorem observed_eq (x : Round σ) (note : Deed → List κ) :
    (x.before.observed note).perform (x.workshop.logging []) x.call =
      (x.result, x.after.observed note, x.left.logging (x.notes note)) := by
  obtain ⟨deeds, -, hrun⟩ := x.before.perform_observed note x.workshop x.call
  rw [notes, hrun]
  rfl

end Round
end Lifecycle
end ServiceGraph
