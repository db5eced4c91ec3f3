import ServiceGraph.Proofs.Extension.Observed

/-!
# The two phases of a lifecycle

Every extension registers before any boots, in one order, and the first failure ends a call.

* `Callback`, `Lifecycle.watched`: callbacks that ended, logged in the journal;
* `Course`: how the callbacks of one call can go; `Passes.course` says that there is no other way;
* `Run`: calls one after the other, between which the registry may change, and the extensions in
  everything but their names;
* `Run.stands`: what a run leaves behind, and `Run.next_call` the result for the next call.
-/

namespace ServiceGraph

variable {σ : Type}

/-! ## watched callbacks -/

structure Callback where
  name : String
  phase : Phase
  succeeded : Bool
deriving DecidableEq

def successes (phase : Phase) (names : List String) : List Callback :=
  names.map fun name => ⟨name, phase, true⟩

/-- of all that happens, the ends of callbacks -/
def Deed.callbacks : Deed → List Callback
  | .ended name phase raised => [⟨name, phase, raised.isNone⟩]
  | .operation _ _ _ => []

/-- the same extensions, whose callbacks log their ends -/
def Lifecycle.watched (l : Lifecycle σ) : Lifecycle (List Callback × σ) :=
  l.observed Deed.callbacks

/-- no callback ends within a turn -/
theorem Registry.callbacks_turn (r : Registry) (actor : Option (String × Phase))
    (ops : List RegistryOperation) : (r.turn actor ops).1.flatMap Deed.callbacks = [] := by
  refine List.flatMap_eq_nil_iff.mpr fun deed hdeed => ?_
  obtain ⟨entry, -, rfl⟩ := List.mem_map.mp hdeed
  rfl

/-- how the callbacks of these extensions can go in one call -/
inductive Course (phase : Phase) (names : List String) :
    Except ExtensionError Unit → List Callback → Prop
  | finished : Course phase names (.ok ()) (successes phase names)
  /-- the first callback that fails is the last -/
  | failed (before after : List String) (name : String) (e : ExtensionError)
      (hnames : names = before ++ name :: after) :
      Course phase names (.error (.failed name phase e))
        (successes phase before ++ [⟨name, phase, false⟩])
  /-- the callback of an extension whose configuration is refused does not run -/
  | misconfigured (before after : List String) (name : String) (e : SchemaError)
      (hnames : names = before ++ name :: after) (hphase : phase = .register) :
      Course phase names (.error (.invalidConfig name e)) (successes phase before)
  /-- all have booted, and something configured early is left over -/
  | unconsumed (e : AssemblyError) (hphase : phase = .boot) :
      Course phase names (.error (.assembly e)) (successes phase names)

namespace Course

variable {phase : Phase} {names : List String} {result : Except ExtensionError Unit}
  {events : List Callback}

/-- one more extension before them succeeds -/
theorem cons (h : Course phase names result events) (name : String) :
    Course phase (name :: names) result (⟨name, phase, true⟩ :: events) := by
  cases h with
  | finished => exact .finished
  | failed before after other e hnames =>
    exact .failed (name :: before) after other e (congrArg (name :: ·) hnames)
  | misconfigured before after other e hnames hphase =>
    exact .misconfigured (name :: before) after other e (congrArg (name :: ·) hnames) hphase
  | unconsumed e hphase => exact .unconsumed e hphase

theorem events_of_ok (h : Course phase names (.ok ()) events) :
    events = successes phase names := by
  cases h
  rfl

theorem phase_of_mem (h : Course phase names result events) {e : Callback} (he : e ∈ events) :
    e.phase = phase := by
  have hsucceeded : ∀ names : List String, e ∈ successes phase names →
      e.phase = phase := by
    intro names he
    obtain ⟨name, -, rfl⟩ := List.mem_map.mp he
    rfl
  cases h with
  | finished => exact hsucceeded _ he
  | failed before after name _ hnames =>
    rcases List.mem_append.mp he with he | he
    · exact hsucceeded _ he
    · rw [List.mem_singleton.mp he]
  | misconfigured before => exact hsucceeded _ he
  | unconsumed => exact hsucceeded _ he

end Course

/-- passing through callbacks is a course of them -/
theorem Passes.course {phase : Phase} {names : List String} {r r' : Registry}
    {result : Except ExtensionError Unit} {deeds : List Deed}
    (h : Passes phase names r result deeds r') :
    Course phase names result (deeds.flatMap Deed.callbacks) := by
  induction h with
  | finished => exact .finished
  | unconsumed e r hphase => exact .unconsumed e hphase
  | misconfigured name names e r hphase => exact .misconfigured [] names name e rfl hphase
  | failed name names ops e r =>
    rw [List.flatMap_append, Registry.callbacks_turn]
    exact .failed [] names name e rfl
  | next name ops _ ih =>
    rw [List.flatMap_append, List.flatMap_append, Registry.callbacks_turn]
    exact ih.cons name

namespace Lifecycle
namespace Went

variable {l l' : Lifecycle σ} {w w' : Workshop σ} {call : Call}
  {result : Except ExtensionError Unit} {deeds : List Deed}

/-- a call that is due, without a stray section, takes a course -/
theorem course (h : Went l w call result l' w' deeds) (hdue : call.Due l.stage)
    (hclear : ∀ configs, call = .register configs → l.straySection? configs = none) :
    Course call.phase l.pending result (deeds.flatMap Deed.callbacks) := by
  cases h with
  | outOfPhase _ hnot => exact absurd hdue hnot
  | stray configs name _ hstray => cases hstray.symm.trans (hclear configs rfl)
  | stopped _ e _ _ _ _ _ hpasses => exact hpasses.course
  | registered configs boots _ _ hstage _ _ hpasses =>
    rw [pending, hstage]
    exact hpasses.course
  | booted boots _ _ _ hpasses => exact hpasses.course

/-- the callbacks of a call are those that it is about, and it is due -/
theorem of_mem (h : Went l w call result l' w' deeds) {e : Callback}
    (he : e ∈ deeds.flatMap Deed.callbacks) : call.Due l.stage ∧ e.phase = call.phase := by
  cases h with
  | outOfPhase => cases he
  | stray => cases he
  | stopped _ _ _ _ hdue _ _ hpasses => exact ⟨hdue, hpasses.course.phase_of_mem he⟩
  | registered configs boots _ _ hstage _ _ hpasses =>
    exact ⟨by rw [hstage]; trivial, hpasses.course.phase_of_mem he⟩
  | booted boots _ _ hstage hpasses => exact ⟨by rw [hstage]; trivial, hpasses.course.phase_of_mem he⟩

theorem of_not_due (h : Went l w call result l' w' deeds) (hdue : ¬ call.Due l.stage) :
    result = .error (.outOfPhase call.phase.name l.stage.name) ∧ deeds = [] ∧ l' = l ∧ w' = w := by
  cases h with
  | outOfPhase => exact ⟨rfl, rfl, rfl, rfl⟩
  | stray configs _ hstage => exact absurd (by rw [hstage]; trivial) hdue
  | stopped _ _ _ _ hdue' => exact absurd hdue' hdue
  | registered configs boots _ _ hstage => exact absurd (by rw [hstage]; trivial) hdue
  | booted boots _ _ hstage => exact absurd (by rw [hstage]; trivial) hdue

theorem of_stray {configs : OrderedMap Value} {name : String}
    (h : Went l w (.register configs) result l' w' deeds) (hstage : l.stage = .resolved)
    (hstray : l.straySection? configs = some name) :
    result = .error (.unknownSection name) ∧ deeds = [] ∧ l' = l ∧ w' = w := by
  cases h with
  | outOfPhase _ hdue => exact absurd (by rw [hstage]; trivial) hdue
  | stray _ other _ hother =>
    cases hother.symm.trans hstray
    exact ⟨rfl, rfl, rfl, rfl⟩
  | stopped _ _ _ _ _ hclear => cases (hclear configs rfl).symm.trans hstray
  | registered _ _ _ _ _ hclear => cases hclear.symm.trans hstray

end Went
end Lifecycle

/-! ## runs -/

/-- the extensions of a stage may have changed in everything but their names -/
inductive Stage.Kept : Stage σ → Stage σ → Prop
  | resolved : Kept .resolved .resolved
  | registered (boots boots' : List (String × Program σ Unit))
      (hnames : boots'.map Prod.fst = boots.map Prod.fst) :
      Kept (.registered boots) (.registered boots')
  | booted : Kept .booted .booted

/-- the extensions of a lifecycle may have changed in everything but their names -/
structure Lifecycle.Kept (l l' : Lifecycle σ) : Prop where
  order : l'.order = l.order
  stage : l.stage.Kept l'.stage

namespace Lifecycle

/-- the callbacks of the call, as watched extensions log them -/
def Round.events (x : Round σ) : List Callback := x.notes Deed.callbacks

/-- calls one after the other, and the lifecycle after them -/
inductive Run : List (Round σ) → Lifecycle σ → Prop
  | start (extensions : List (Extension σ)) : Run [] ⟨extensions, .resolved⟩
  /-- whatever became of the workshop, and of what extensions have for themselves -/
  | next (rounds : List (Round σ)) (l : Lifecycle σ) (x : Round σ) (hrun : Run rounds l)
      (hkept : l.Kept x.before) : Run (rounds ++ [x]) x.after

/-- a registration of these extensions in which each succeeded -/
structure Round.Registers (x : Round σ) (names : List String) : Prop where
  call : ∃ configs, x.call = .register configs
  result : x.result = .ok ()
  events : x.events = successes .register names

structure Round.Boots (x : Round σ) : Prop where
  call : x.call = .boot
  result : x.result = .ok ()

/-- how far a lifecycle has come after calls -/
inductive Stands (rounds : List (Round σ)) (l : Lifecycle σ) : Prop
  | resolved (hstage : l.stage = .resolved) (hboots : ∀ y ∈ rounds, ¬ y.Boots)
  | registered (boots : List (String × Program σ Unit)) (hstage : l.stage = .registered boots)
      (hnames : boots.map Prod.fst = l.order) (hregisters : ∃ y ∈ rounds, y.Registers l.order)
      (hboots : ∀ y ∈ rounds, ¬ y.Boots)
  | booted (hstage : l.stage = .booted) (hregisters : ∃ y ∈ rounds, y.Registers l.order)

namespace Stands

variable {rounds : List (Round σ)} {l l' : Lifecycle σ} {x : Round σ}

theorem kept (h : Stands rounds l) (hkept : l.Kept l') : Stands rounds l' := by
  obtain ⟨horder, hstages⟩ := hkept
  cases h with
  | resolved hstage hboots =>
    rw [hstage] at hstages
    generalize hstage' : l'.stage = stage' at hstages
    cases hstages
    exact .resolved hstage' hboots
  | registered boots hstage hnames hregisters hboots =>
    rw [hstage] at hstages
    generalize hstage' : l'.stage = stage' at hstages
    cases hstages with
    | registered _ boots' hsame =>
      exact .registered boots' hstage' (hsame.trans (hnames.trans horder.symm))
        (horder.symm ▸ hregisters) hboots
  | booted hstage hregisters =>
    rw [hstage] at hstages
    generalize hstage' : l'.stage = stage' at hstages
    cases hstages
    exact .booted hstage' (horder.symm ▸ hregisters)

/-- a call that boots nothing and leaves the lifecycle -/
theorem same (h : Stands rounds l) (hx : ¬ x.Boots) : Stands (rounds ++ [x]) l := by
  have hearlier : (∃ y ∈ rounds, y.Registers l.order) →
      ∃ y ∈ rounds ++ [x], y.Registers l.order := fun ⟨y, hy, hregisters⟩ =>
    ⟨y, List.mem_append_left _ hy, hregisters⟩
  have hnone : (∀ y ∈ rounds, ¬ y.Boots) → ∀ y ∈ rounds ++ [x], ¬ y.Boots := by
    intro hboots y hy
    rcases List.mem_append.mp hy with hy | hy
    · exact hboots y hy
    · exact List.mem_singleton.mp hy ▸ hx
  cases h with
  | resolved hstage hboots => exact .resolved hstage (hnone hboots)
  | registered boots hstage hnames hregisters hboots =>
    exact .registered boots hstage hnames (hearlier hregisters) (hnone hboots)
  | booted hstage hregisters => exact .booted hstage (hearlier hregisters)

/-- a stage at which no boot has succeeded -/
theorem not_boots (h : Stands rounds l) (hstage : l.stage ≠ .booted) : ∀ y ∈ rounds, ¬ y.Boots := by
  cases h with
  | resolved _ hboots => exact hboots
  | registered _ _ _ _ hboots => exact hboots
  | booted hbooted => exact absurd hbooted hstage

/-- the callbacks that are due are those of all extensions, in their order -/
theorem pending_eq (h : Stands rounds l) (hstage : l.stage ≠ .booted) : l.pending = l.order := by
  cases h with
  | resolved hresolved => rw [pending, hresolved]
  | registered boots hregistered hnames => rw [pending, hregistered, ← hnames]
  | booted hbooted => exact absurd hbooted hstage

/-- a boot is due after a registration -/
theorem registers_of_boot (h : Stands rounds l) {call : Call} (hdue : call.Due l.stage)
    (hphase : call.phase = .boot) : ∃ y ∈ rounds, y.Registers l.order := by
  cases call with
  | register configs => cases hphase
  | boot =>
    cases h with
    | resolved hstage =>
      rw [hstage] at hdue
      exact hdue.elim
    | registered _ _ _ hregisters => exact hregisters
    | booted _ hregisters => exact hregisters

/-- one more call -/
theorem next (h : Stands rounds x.before) : Stands (rounds ++ [x]) x.after := by
  obtain ⟨deeds, hevents, hwent⟩ := x.went Deed.callbacks
  have hlast : x ∈ rounds ++ [x] := List.mem_append_right _ (List.mem_singleton_self x)
  have hfailed : ∀ e, x.result = .error e → ¬ x.Boots := fun e he hboots => by
    rw [hboots.result] at he
    cases he
  generalize hcall : x.call = call, hresult : x.result = result, hafter : x.after = after,
    x.left = left at hwent
  cases hwent with
  | outOfPhase => exact h.same (hfailed _ hresult)
  | stray => exact h.same (hfailed _ hresult)
  | stopped => exact h.same (hfailed _ hresult)
  | registered configs boots _ _ hstage hclear hnames hpasses =>
    have hregisters : x.Registers x.before.order :=
      ⟨⟨configs, hcall⟩, hresult, hevents.trans hpasses.course.events_of_ok⟩
    refine .registered boots rfl hnames ⟨x, hlast, hregisters⟩ fun y hy hboots => ?_
    rcases List.mem_append.mp hy with hy | hy
    · exact h.not_boots (hstage ▸ nofun) y hy hboots
    · rw [List.mem_singleton.mp hy] at hboots
      cases hcall.symm.trans hboots.call
  | booted boots _ _ hstage =>
    refine .booted rfl ?_
    cases h with
    | resolved hresolved => cases hresolved.symm.trans hstage
    | registered _ _ _ hregisters =>
      obtain ⟨y, hy, hregisters⟩ := hregisters
      exact ⟨y, List.mem_append_left _ hy, hregisters⟩
    | booted hbooted => cases hbooted.symm.trans hstage

end Stands

namespace Run

variable {rounds : List (Round σ)} {l : Lifecycle σ}

/-- what calls leave behind -/
theorem stands (h : Run rounds l) : Stands rounds l := by
  induction h with
  | start extensions => exact .resolved rfl fun y hy => nomatch hy
  | next rounds l x hrun hkept ih => exact (ih.kept hkept).next

/-- **The phases of a lifecycle.** After any calls, the next one does the following. When it is due and
every section belongs to an extension, the callbacks run in the order of the extensions, once each, up to
the first that fails. When a boot runs, an earlier call was a registration in which every extension
succeeded. When an earlier boot has succeeded, no callback runs. When the call is out of phase or there is a
section that belongs to no extension, no callback runs, and everything stays as it was. What is observed are
extensions that log the ends of their callbacks and do the same otherwise. -/
theorem next_call (h : Run rounds l) (x : Round σ) (hx : l.Kept x.before) :
    x.before.watched.perform (x.workshop.logging []) x.call =
        (x.result, x.after.watched, x.left.logging x.events) ∧
      (x.call.Due x.before.stage →
        (∀ configs, x.call = .register configs → ∀ key ∈ configs.keys, key ∈ x.before.order) →
        Course x.call.phase x.before.order x.result x.events) ∧
      ((∃ e ∈ x.events, e.phase = .boot) → ∃ y ∈ rounds, y.Registers x.before.order) ∧
      ((∃ y ∈ rounds, y.Boots) → x.events = []) ∧
      (¬ x.call.Due x.before.stage →
        x.result = .error (.outOfPhase x.call.phase.name x.before.stage.name) ∧
          x.events = [] ∧ x.after = x.before ∧ x.left = x.workshop) ∧
      (x.before.stage = .resolved → ∀ configs, x.call = .register configs →
        (∃ key ∈ configs.keys, key ∉ x.before.order) →
        (∃ key ∈ configs.keys, key ∉ x.before.order ∧ x.result = .error (.unknownSection key)) ∧
          x.events = [] ∧ x.after = x.before ∧ x.left = x.workshop) := by
  have hstands := h.stands.kept hx
  obtain ⟨deeds, hevents, hwent⟩ := x.went Deed.callbacks
  have hevents : x.events = deeds.flatMap Deed.callbacks := hevents
  have hquiet : deeds = [] → x.events = [] := by
    rintro rfl
    exact hevents
  refine ⟨x.observed_eq Deed.callbacks, fun hdue hsections => ?_, ?_, ?_, fun hdue => ?_, ?_⟩
  · rw [← hstands.pending_eq hdue.ne_booted, hevents]
    exact hwent.course hdue fun configs hcall => straySection?_eq_none (hsections configs hcall)
  · rintro ⟨e, he, hphase⟩
    obtain ⟨hdue, hsame⟩ := hwent.of_mem (hevents ▸ he)
    rw [hphase] at hsame
    exact hstands.registers_of_boot hdue hsame.symm
  · rintro ⟨y, hy, hboots⟩
    refine List.eq_nil_iff_forall_not_mem.mpr fun e he => ?_
    exact hstands.not_boots (hwent.of_mem (hevents ▸ he)).1.ne_booted y hy hboots
  · obtain ⟨hresult, hdeeds, hsame⟩ := hwent.of_not_due hdue
    exact ⟨hresult, hquiet hdeeds, hsame⟩
  · intro hstage configs hcall hstray
    obtain ⟨key, hkey, hnot, hfirst⟩ := exists_straySection hstray
    obtain ⟨hresult, hdeeds, hsame⟩ := (hcall ▸ hwent).of_stray hstage hfirst
    exact ⟨⟨key, hkey, hnot, hresult⟩, hquiet hdeeds, hsame⟩

def attempt {α : Type} (a : α) (succeeds : Bool) : Program Unit α :=
  .done (if succeeds then .ok a else .error (.custom "boom"))

/-- two extensions, the second of which may fail to register -/
def coreAndWeb (succeeds : Bool) : List (Extension Unit) :=
  [⟨"core", [], none, fun _ => attempt (attempt () true) true⟩,
    ⟨"web", [], none, fun _ => attempt (attempt () false) succeeds⟩]

/-- the second extension fails to register, succeeds, fails to boot, and succeeds -/
def stumbling : List (Round Unit) :=
  let w : Workshop Unit := ⟨.ofParameters .empty, ()⟩
  [⟨.register [], ⟨coreAndWeb false, .resolved⟩, w⟩,
    ⟨.register [], ⟨coreAndWeb true, .resolved⟩, w⟩,
    ⟨.boot, ⟨coreAndWeb true, .registered [("core", attempt () true), ("web", attempt () false)]⟩, w⟩,
    ⟨.boot, ⟨coreAndWeb true, .registered [("core", attempt () true), ("web", attempt () true)]⟩, w⟩]

theorem run_stumbling : Run stumbling ⟨coreAndWeb true, .booted⟩ := by
  have hfirst := next [] ⟨coreAndWeb false, .resolved⟩ (stumbling.get ⟨0, by decide⟩) (start _)
    ⟨rfl, .resolved⟩
  have hsecond := next _ _ (stumbling.get ⟨1, by decide⟩) hfirst ⟨rfl, .resolved⟩
  have hthird := next _ _ (stumbling.get ⟨2, by decide⟩) hsecond ⟨rfl, .registered _ _ rfl⟩
  exact next _ _ (stumbling.get ⟨3, by decide⟩) hthird ⟨rfl, .registered _ _ rfl⟩

theorem stumbling_next_call :
    Run stumbling ⟨coreAndWeb true, .booted⟩ ∧
      stumbling.map Round.events =
        [[⟨"core", .register, true⟩, ⟨"web", .register, false⟩],
          [⟨"core", .register, true⟩, ⟨"web", .register, true⟩],
          [⟨"core", .boot, true⟩, ⟨"web", .boot, false⟩],
          [⟨"core", .boot, true⟩, ⟨"web", .boot, true⟩]] ∧
      ∀ call w, (⟨call, ⟨coreAndWeb true, .booted⟩, w⟩ : Round Unit).events = [] := by
  refine ⟨run_stumbling, by decide, fun call w => ?_⟩
  obtain ⟨-, -, -, hbooted, -⟩ := run_stumbling.next_call
    (⟨call, ⟨coreAndWeb true, .booted⟩, w⟩ : Round Unit) ⟨rfl, .booted⟩
  exact hbooted ⟨stumbling.get ⟨3, by decide⟩, List.get_mem _ _, rfl, rfl⟩

end Run
end Lifecycle
end ServiceGraph
