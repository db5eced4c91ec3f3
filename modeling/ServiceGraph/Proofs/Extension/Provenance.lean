import ServiceGraph.Proofs.Extension.Contributed
import ServiceGraph.Proofs.Extension.Observed
import ServiceGraph.Proofs.Outcomes

/-!
# Where definitions and errors come from

The registry knows which extension is running only while one is. What is added then carries the name of
the extension, and keeps it.

* `RegistryOperation.Spares`: an operation that neither removes a definition nor touches its origin;
* `Registry.origin_perform`, `Registry.Step.find?_origin`: what one operation does to origins;
* `Stamped`: every addition has put its actor on the definition; `Stamped.step` is one operation,
  `Stamped.turn` the operations of one actor and `Stamped.passes` the callbacks of one call;
* `Lifecycle.traced`: extensions that log all of their deeds; `Acts` is what one call does to a registry;
* `Session`: calls on lifecycles and operations from outside, on one registry;
* `Lifecycle.Round.Pause`: the workshop between the callbacks of a call;
* `Session.provenance`: the result for every session.
-/

namespace ServiceGraph

variable {σ : Type}

/-- the definition with this id, if there is one, stays and keeps its origin; nothing else gets its id -/
def RegistryOperation.Spares (id : String) : RegistryOperation → Prop
  | .change (.remove other) => other ≠ id
  | .change (.modify other f) =>
    (∀ d, (f d).id = d.id) ∧ (other = id → ∀ d, (f d).origin = d.origin)
  | _ => True

/-- what fails spares every definition -/
def Deed.Spares (id : String) : Deed → Prop
  | .operation _ op result => result = .ok () → op.Spares id
  | .ended _ _ _ => True

namespace Registry

variable {r r' : Registry} {op : RegistryOperation} {result : Except ChangeError Unit}

/-! ## one operation -/

theorem origin_orKeep {f : Except RegistryError Registry}
    (h : ∀ r', f = .ok r' → r'.origin = r.origin) : (r.orKeep f).2.origin = r.origin := by
  cases hf : f with
  | error e => rfl
  | ok r' => exact h r' hf

theorem origin_modify {id : String} {f : Definition → Definition} (h : r.modify id f = .ok r') :
    r'.origin = r.origin := by
  obtain ⟨_, -, h⟩ := Except.bind_eq_ok h
  split at h
  · cases h
    rfl
  · cases h

theorem origin_remove {id : String} (h : (r.remove id).map Prod.snd = .ok r') :
    r'.origin = r.origin := by
  obtain ⟨removed, hremove, rfl⟩ := Except.map_eq_ok_iff.mp h
  obtain ⟨_, -, hfound⟩ := Except.bind_eq_ok hremove
  split at hfound
  · cases hfound
    rfl
  · cases hfound

theorem origin_editParameters {f : Parameters → Parameters} (h : r.editParameters f = .ok r') :
    r'.origin = r.origin := by
  obtain ⟨_, -, h⟩ := Except.bind_eq_ok h
  cases h
  rfl

theorem origin_freeze (r : Registry) : (r.perform (.change .freeze)).2.origin = r.origin ∨
    (r.perform (.change .freeze)).2.frozen = true ∧ (r.perform (.change .freeze)).2.origin = none := by
  have hstep := r.step_perform (.change .freeze)
  generalize r.perform (.change .freeze) = out at hstep ⊢
  obtain ⟨result, r'⟩ := out
  cases hstep with
  | refused => exact .inl rfl
  | elsewhere _ _ _ hfreezes => cases hfreezes
  | froze => exact .inr ⟨rfl, rfl⟩
  | idle => exact .inl rfl

/-- an operation leaves the origin alone, unless it freezes the registry -/
theorem origin_perform (r : Registry) (op : RegistryOperation) :
    (r.perform op).2.origin = r.origin ∨
      (r.perform op).2.frozen = true ∧ (r.perform op).2.origin = none := by
  cases op with
  | change c =>
    cases c with
    | add d => exact .inl (origin_orKeep fun _ h => (gained_of_add h).origin)
    | modify id f => exact .inl (origin_orKeep fun _ => origin_modify)
    | remove id => exact .inl (origin_orKeep fun _ => origin_remove)
    | setParameter key value => exact .inl (origin_orKeep fun _ => origin_editParameters)
    | mergeParameters incoming => exact .inl (origin_orKeep fun _ => origin_editParameters)
    | pipeline name c => exact .inl (gained_onPipeline r name _).origin
    | routes c => exact .inl (gained_onRoutes r _).origin
    | freeze => exact origin_freeze r
  | assemble name => exact .inl (gained_onPipeline r name _).origin
  | flatten order => exact .inl (gained_onRoutes r fun a => a.flatten order).origin
  | parameters f => exact .inl (origin_orKeep fun _ => origin_editParameters)
  | pipeline name f => exact .inl (gained_onPipeline r name _).origin
  | routes f => exact .inl (gained_onRoutes r _).origin

/-- a definition that an operation spares is still there, with its origin -/
theorem Step.find?_origin (h : Step r op result r') {id : String}
    (hspares : result = .ok () → op.Spares id) {d : Definition} (hd : r.find? id = some d) :
    ∃ d', r'.find? id = some d' ∧ d'.origin = d.origin := by
  cases h with
  | refused => exact ⟨d, hd, rfl⟩
  | added new => exact ⟨d, by rw [find?, List.find?_append, ← find?, hd, Option.some_or], rfl⟩
  | modified other f =>
    obtain ⟨hids, horigin⟩ := hspares rfl
    -- an edit that is spared leaves the identifiers alone, so the same definition is found
    have hsame : (fun e : Definition => decide (e.id = id)) ∘
        (fun e => if e.id = other then f e else e) = fun e => decide (e.id = id) := by
      funext e
      rw [Function.comp_apply]
      split
      · rw [hids]
      · rfl
    refine ⟨if d.id = other then f d else d, ?_, ?_⟩
    · rw [find?, replace, List.find?_map, hsame, ← find?, hd, Option.map_some]
    · split
      next hd' => exact horigin (hd'.symm.trans (id_of_find? hd)) d
      next => rfl
  | removed other =>
    have hother : other ≠ id := hspares rfl
    have hsame : ∀ e : Definition,
        (decide (e.id ≠ other) = true ∧ decide (e.id = id) = true) ↔ e.id = id := by
      intro e
      rw [decide_eq_true_iff, decide_eq_true_iff]
      exact and_iff_right_of_imp fun he => he ▸ hother.symm
    refine ⟨d, ?_, rfl⟩
    rw [find?, List.find?_filter]
    simp only [hsame]
    exact hd
  | elsewhere _ _ _ _ _ _ hsame => exact ⟨d, by rwa [find?, hsame], rfl⟩
  | froze => exact ⟨d, hd, rfl⟩
  | idle => exact ⟨d, hd, rfl⟩

/-! ## stamps -/

/-- every addition has put its actor on the definition, which shows it as long as it is spared -/
def Stamped (r : Registry) (deeds : List Deed) : Prop :=
  ∀ before actor d after, deeds = before ++ .operation actor (.change (.add d)) (.ok ()) :: after →
    (∀ x ∈ after, x.Spares d.id) →
    ∃ d', r.find? d.id = some d' ∧ d'.origin = d.origin.or (actor.map Prod.fst)

namespace Stamped

variable {deeds : List Deed}

/-- one more deed, which adds a definition or spares those that are there -/
theorem snoc (h : r.Stamped deeds) (deed : Deed)
    (hadded : ∀ actor d, deed = .operation actor (.change (.add d)) (.ok ()) →
      ∃ d', r'.find? d.id = some d' ∧ d'.origin = d.origin.or (actor.map Prod.fst))
    (hspared : ∀ id d, deed.Spares id → r.find? id = some d →
      ∃ d', r'.find? id = some d' ∧ d'.origin = d.origin) :
    r'.Stamped (deeds ++ [deed]) := by
  intro before actor d after hsplit hafter
  rcases List.eq_nil_or_concat after with rfl | ⟨later, last, rfl⟩
  · obtain ⟨-, hlast⟩ := List.append_inj' hsplit rfl
    exact hadded actor d (List.cons.inj hlast).1
  · rw [List.concat_eq_append] at hsplit hafter
    rw [← List.cons_append, ← List.append_assoc] at hsplit
    obtain ⟨hearlier, hlast⟩ := List.append_inj' hsplit rfl
    obtain ⟨d', hfind, horigin⟩ :=
      h before actor d later hearlier fun x hx => hafter x (List.mem_append_left _ hx)
    have hdeed : deed.Spares d.id := (List.cons.inj hlast).1 ▸
      hafter last (List.mem_append_right _ (List.mem_singleton_self last))
    obtain ⟨d'', hfind', horigin'⟩ := hspared d.id d' hdeed hfind
    exact ⟨d'', hfind', horigin'.trans horigin⟩

/-- one operation on a registry that knows who carries it out -/
theorem step (h : r.Stamped deeds) {actor : Option (String × Phase)}
    (hactor : r.frozen = false → r.origin = actor.map Prod.fst) (hstep : Step r op result r') :
    r'.Stamped (deeds ++ [.operation actor op result]) := by
  refine h.snoc _ (fun actor' d hdeed => ?_) fun id d hspares => hstep.find?_origin hspares
  cases hdeed
  cases hstep with
  | added _ hopen hnew =>
    refine ⟨{ d with origin := d.origin.or r.origin }, ?_, congrArg d.origin.or (hactor hopen)⟩
    have hnone : r.find? d.id = none := Option.not_isSome_iff_eq_none.mp (Bool.eq_false_iff.mp hnew)
    rw [find?, List.find?_append, ← find?, hnone, Option.none_or]
    exact List.find?_cons_of_pos (decide_eq_true rfl)
  | elsewhere _ _ hop => cases hop

theorem ended (h : r.Stamped deeds) (name : String) (phase : Phase)
    (raised : Option ExtensionError) : r.Stamped (deeds ++ [.ended name phase raised]) :=
  h.snoc _ nofun fun _ d _ hfind => ⟨d, hfind, rfl⟩

theorem performAll (h : r.Stamped deeds) {actor : Option (String × Phase)}
    (hactor : r.frozen = false → r.origin = actor.map Prod.fst) (ops : List RegistryOperation) :
    (r.performAll ops).2.Stamped (deeds ++ Deed.ofLog actor (r.performAll ops).1) := by
  induction ops generalizing deeds r with
  | nil => exact (List.append_nil deeds).symm ▸ h
  | cons op ops ih =>
    have hnext : (r.perform op).2.frozen = false →
        (r.perform op).2.origin = actor.map Prod.fst := by
      intro hopen'
      have hopen : r.frozen = false := by
        rw [← Bool.not_eq_true] at hopen' ⊢
        exact fun hfrozen => hopen' ((perform_frozen hfrozen op).symm ▸ hfrozen)
      rcases r.origin_perform op with hsame | ⟨hfrozen, -⟩
      · exact hsame.trans (hactor hopen)
      · exact absurd (hopen'.symm.trans hfrozen) Bool.false_ne_true
    have hrest := ih (h.step hactor (r.step_perform op)) hnext
    rw [List.append_assoc] at hrest
    exact hrest

theorem turn (h : r.Stamped deeds) (actor : Option (String × Phase)) (ops : List RegistryOperation) :
    (r.turn actor ops).2.Stamped (deeds ++ (r.turn actor ops).1) := by
  have hrunning : Stamped { r with origin := actor.map Prod.fst } deeds := h
  exact hrunning.performAll (fun _ => rfl) ops

end Stamped
end Registry

/-! ## the callbacks of one call -/

/-- no callback ends within a turn -/
theorem Registry.ended_not_mem_turn {r : Registry} {actor : Option (String × Phase)}
    {ops : List RegistryOperation} {name : String} {phase : Phase} {raised : Option ExtensionError} :
    .ended name phase raised ∉ (r.turn actor ops).1 := by
  intro h
  obtain ⟨entry, -, hentry⟩ := List.mem_map.mp h
  cases hentry

namespace Passes

variable {phase : Phase} {names : List String} {r r' : Registry} {result : Except ExtensionError Unit}
  {deeds more : List Deed}

theorem origin_eq_none (h : Passes phase names r result deeds r') (hr : r.origin = none) :
    r'.origin = none := by
  induction h with
  | finished => exact hr
  | unconsumed => exact hr
  | misconfigured => exact hr
  | failed => rfl
  | next _ _ _ ih => exact ih rfl

theorem stamped (h : Passes phase names r result more r') (hr : r.Stamped deeds) :
    r'.Stamped (deeds ++ more) := by
  induction h generalizing deeds with
  | finished => rwa [List.append_nil]
  | unconsumed => rwa [List.append_nil]
  | misconfigured => rwa [List.append_nil]
  | failed name names ops e r =>
    have hended := (hr.turn (some (name, phase)) ops).ended name phase (some e)
    rwa [List.append_assoc] at hended
  | next name ops _ ih =>
    have hended := (hr.turn (some (name, phase)) ops).ended name phase none
    have hrest := ih hended
    rwa [List.append_assoc, List.append_assoc, ← List.append_assoc (Prod.fst _)] at hrest

/-- a callback that raises an error ends the call with it, wrapped -/
theorem raised_iff (h : Passes phase names r result deeds r') (name : String) (phase' : Phase)
    (e : ExtensionError) :
    .ended name phase' (some e) ∈ deeds ↔ result = .error (.failed name phase' e) := by
  induction h with
  | finished => exact ⟨nofun, nofun⟩
  | unconsumed => exact ⟨nofun, nofun⟩
  | misconfigured => exact ⟨nofun, nofun⟩
  | failed other names ops e' r =>
    rw [List.mem_append, List.mem_singleton, or_iff_right Registry.ended_not_mem_turn]
    constructor
    · intro heq
      cases heq
      rfl
    · intro heq
      cases heq
      rfl
  | next other ops _ ih =>
    rw [List.mem_append, List.mem_append, List.mem_singleton, ih]
    refine or_iff_right ?_
    rintro (hturn | hended)
    · exact Registry.ended_not_mem_turn hturn
    · cases hended

end Passes

/-- what one call does to a registry -/
inductive Acts (phase : Phase) (r : Registry) :
    Except ExtensionError Unit → List Deed → Registry → Prop
  | refused (e : ExtensionError) (hraised : ∀ name phase e', e ≠ .failed name phase e') :
      Acts phase r (.error e) [] r
  | passed (order names : List String) {result : Except ExtensionError Unit} {deeds : List Deed}
      {r' : Registry} (hpasses : Passes phase names { r with extensionOrder := order } result deeds r') :
      Acts phase r result deeds r'

namespace Acts

variable {phase : Phase} {r r' : Registry} {result : Except ExtensionError Unit}
  {deeds more : List Deed}

theorem origin_eq_none (h : Acts phase r result deeds r') (hr : r.origin = none) :
    r'.origin = none := by
  cases h with
  | refused => exact hr
  | passed order names hpasses => exact hpasses.origin_eq_none hr

theorem stamped (h : Acts phase r result more r') (hr : r.Stamped deeds) :
    r'.Stamped (deeds ++ more) := by
  cases h with
  | refused => rwa [List.append_nil]
  | passed order names hpasses => exact hpasses.stamped hr

theorem raised_iff (h : Acts phase r result deeds r') (name : String) (phase' : Phase)
    (e : ExtensionError) :
    .ended name phase' (some e) ∈ deeds ↔ result = .error (.failed name phase' e) := by
  cases h with
  | refused e' hraised => exact ⟨nofun, fun heq => absurd (Except.error.inj heq) (hraised name phase' e)⟩
  | passed order names hpasses => exact hpasses.raised_iff name phase' e

end Acts

namespace Lifecycle

theorem Went.acts {l l' : Lifecycle σ} {w w' : Workshop σ} {call : Call}
    {result : Except ExtensionError Unit} {deeds : List Deed} (h : Went l w call result l' w' deeds) :
    Acts call.phase w.registry result deeds w'.registry := by
  cases h with
  | outOfPhase => exact .refused _ fun _ _ _ heq => by cases heq
  | stray => exact .refused _ fun _ _ _ heq => by cases heq
  | stopped _ _ _ _ _ _ order hpasses => exact .passed order _ hpasses
  | registered _ _ _ _ _ _ _ hpasses => exact .passed l.order _ hpasses
  | booted _ _ _ _ hpasses => exact .passed w.registry.extensionOrder _ hpasses

/-- the same extensions, which log all of their deeds -/
def traced (l : Lifecycle σ) : Lifecycle (List Deed × σ) :=
  l.observed fun deed => [deed]

namespace Round

/-- the deeds of the call, as traced extensions log them -/
def deeds (x : Round σ) : List Deed := x.notes fun deed => [deed]

theorem acts (x : Round σ) :
    Acts x.call.phase x.workshop.registry x.result x.deeds x.left.registry := by
  obtain ⟨deeds, hnotes, hwent⟩ := x.went fun deed => [deed]
  rw [List.flatMap_singleton'] at hnotes
  rw [Round.deeds, hnotes]
  exact hwent.acts

end Round
end Lifecycle

/-! ## sessions -/

/-- calls on lifecycles, whatever their extensions do, and operations from outside, all on one registry -/
inductive Session (σ : Type) : List Deed → Registry → Prop
  | start (p : Parameters) : Session σ [] (.ofParameters p)
  | outside (op : RegistryOperation) {deeds : List Deed} {r : Registry} (h : Session σ deeds r) :
      Session σ (deeds ++ [.operation none op (r.perform op).1]) (r.perform op).2
  | call (x : Lifecycle.Round σ) {deeds : List Deed} (h : Session σ deeds x.workshop.registry) :
      Session σ (deeds ++ x.deeds) x.left.registry

/-- the workshop while the call has not run all of its callbacks, and none of them is running -/
inductive Lifecycle.Round.Pause (x : Lifecycle.Round σ) : Workshop σ → Prop
  | registering (configs : OrderedMap Value) (es : List (Extension σ))
      (hcall : x.call = .register configs) (hes : es <+: x.before.extensions) :
      Pause x (registerEach configs es (x.before.opening x.workshop)).2
  | booting (boots bs : List (String × Program σ Unit)) (hcall : x.call = .boot)
      (hstage : x.before.stage = .registered boots) (hbs : bs <+: boots) :
      Pause x (bootEach bs x.workshop).2

theorem Lifecycle.Round.Pause.origin_eq_none {x : Lifecycle.Round σ} {w : Workshop σ}
    (h : x.Pause w) (hx : x.workshop.registry.origin = none) : w.registry.origin = none := by
  cases h with
  | registering configs es =>
    obtain ⟨_, hpasses, -⟩ :=
      registerEach_observed (fun deed => [deed]) configs es (x.before.opening x.workshop) []
    exact hpasses.origin_eq_none hx
  | booting boots bs =>
    obtain ⟨_, hpasses, -⟩ := bootEach_observed (fun deed => [deed]) bs x.workshop []
    exact hpasses.origin_eq_none hx

namespace Session

variable {deeds : List Deed} {r : Registry}

theorem origin_eq_none (h : Session σ deeds r) : r.origin = none := by
  induction h with
  | start p => rfl
  | @outside op _ r _ ih =>
    rcases r.origin_perform op with hsame | ⟨-, hnone⟩
    · exact hsame.trans ih
    · exact hnone
  | call x _ ih => exact x.acts.origin_eq_none ih

theorem stamped (h : Session σ deeds r) : r.Stamped deeds := by
  induction h with
  | start p => exact fun before _ _ _ hsplit => absurd hsplit.symm (by simp)
  | @outside op _ r h ih =>
    have hactor : r.frozen = false → r.origin = (none : Option (String × Phase)).map Prod.fst :=
      fun _ => h.origin_eq_none
    exact ih.step hactor (r.step_perform op)
  | call x _ ih => exact x.acts.stamped ih

/-- **Provenance.** After any calls and operations from outside, no extension is the origin, and none is
between the callbacks of the next call, whichever it is. Every addition that has succeeded put on the
definition the name of the extension whose callback it was, and nothing when it came from outside, unless
the definition had an origin of its own; the definition shows it as long as it is neither removed nor its
origin edited. The next call fails with the error that a callback raises, under the name and phase of the
callback, and with no other such error. What is observed are extensions that log what they do, and do the
same otherwise. -/
theorem provenance (h : Session σ deeds r) :
    r.origin = none ∧
      (∀ before actor d after,
        deeds = before ++ .operation actor (.change (.add d)) (.ok ()) :: after →
        (∀ x ∈ after, x.Spares d.id) →
        ∃ d', r.find? d.id = some d' ∧ d'.origin = d.origin.or (actor.map Prod.fst)) ∧
      ∀ x : Lifecycle.Round σ, x.workshop.registry = r →
        x.before.traced.perform (x.workshop.logging []) x.call =
            (x.result, x.after.traced, x.left.logging x.deeds) ∧
          (∀ w, x.Pause w → w.registry.origin = none) ∧
          ∀ name phase e, .ended name phase (some e) ∈ x.deeds ↔
            x.result = .error (.failed name phase e) := by
  refine ⟨h.origin_eq_none, h.stamped, fun x hx => ⟨x.observed_eq _, fun w hw => ?_, x.acts.raised_iff⟩⟩
  exact hw.origin_eq_none (hx ▸ h.origin_eq_none)

/-- a definition without an origin of its own -/
def plain (id : String) : Definition := Definition.ofNode id (.literal .null)

/-- a registration in which the second extension edits what the first has added, adds a definition of
which another extension is the origin, and fails -/
def meddling (r : Registry) : Lifecycle.Round Unit :=
  let core : Extension Unit := ⟨"core", [], none, fun _ =>
    .change (.add (plain "a")) fun _ => .done (.ok (Program.apply (.add (plain "b"))))⟩
  let web : Extension Unit := ⟨"web", [], none, fun _ =>
    .change (.modify "a" (·.withType "T")) fun _ =>
      .change (.add { plain "c" with origin := some "http" }) fun _ => .fail (.custom "boom")⟩
  ⟨.register [], ⟨[core, web], .resolved⟩, ⟨r, ()⟩⟩

/-- a definition from outside, a registration that fails, and the same registration once more -/
theorem meddling_provenance :
    let first := meddling (((Registry.ofParameters .empty).perform (.change (.add (plain "z")))).2)
    let r := first.left.registry
    (∃ deeds, Session Unit deeds r) ∧ r.origin = none ∧
      (∃ d, r.find? "z" = some d ∧ d.origin = none) ∧
      (∃ d, r.find? "a" = some d ∧ d.origin = some "core") ∧
      (∃ d, r.find? "c" = some d ∧ d.origin = some "http") ∧
      (meddling r).result = .error (.failed "web" .register (.custom "boom")) := by
  intro first r
  have hdeeds : first.deeds = [
      .operation (some ("core", .register)) (.change (.add (plain "a"))) (.ok ()),
      .ended "core" .register none,
      .operation (some ("web", .register)) (.change (.modify "a" (·.withType "T"))) (.ok ()),
      .operation (some ("web", .register))
        (.change (.add { plain "c" with origin := some "http" })) (.ok ()),
      .ended "web" .register (some (.custom "boom"))] := rfl
  have hspares : ∀ id, ∀ x ∈ first.deeds, x.Spares id := by
    intro id
    rw [hdeeds]
    simp only [List.forall_mem_cons]
    exact ⟨fun _ => trivial, trivial, fun _ => ⟨fun _ => rfl, fun _ _ => rfl⟩, fun _ => trivial,
      trivial, List.forall_mem_nil _⟩
  have hsession := call first (outside (.change (.add (plain "z"))) (start .empty))
  obtain ⟨horigin, hstamped, hnext⟩ := hsession.provenance
  obtain ⟨-, -, hraised⟩ := hnext (meddling r) rfl
  have hagain : .ended "web" .register (some (.custom "boom")) ∈ (meddling r).deeds :=
    List.mem_of_getElem? (show (meddling r).deeds[4]? = some _ from rfl)
  refine ⟨⟨_, hsession⟩, horigin, ?_, ?_, ?_, (hraised _ _ _).mp hagain⟩
  · exact hstamped [] none (plain "z") first.deeds rfl (hspares "z")
  · exact hstamped [_] (some ("core", .register)) (plain "a") first.deeds.tail rfl
      fun x hx => hspares "a" x (List.mem_of_mem_tail hx)
  · exact hstamped (_ :: first.deeds.take 3) (some ("web", .register))
      { plain "c" with origin := some "http" } (first.deeds.drop 4) rfl
      fun x hx => hspares "c" x (List.mem_of_mem_drop hx)

end Session
end ServiceGraph
