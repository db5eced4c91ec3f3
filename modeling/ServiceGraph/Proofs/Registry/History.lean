import ServiceGraph.Registry.Change
import ServiceGraph.Proofs.Container.Opening
import Mathlib.Data.List.Nodup

/-!
# What a registry has gone through

A registry shows its definitions in the order in which their ids were last added. What fails leaves
everything as it was, and nothing happens any more once the registry is frozen.

* `RegistryOperation`, `Registry.perform`: the operations, with whatever is done to the parts that a
  registry gives access to;
* `Registry.Step`: what one operation can do; `Registry.step_perform` says that there is nothing else;
* `Registration`, `standing`: the ids that were added and not removed since, by their latest addition;
* `Registry.Recorded`: a registry shows what its history says; `Recorded.step` is one operation and
  `Recorded.performAll` all of them;
* `Registry.run_recorded`: the result for every run.
-/

namespace ServiceGraph

inductive RegistryOperation where
  | change (c : RegistryChange)
  | assemble (pipeline : String)
  | flatten (order : List String)
  | parameters (f : Parameters → Parameters)
  | pipeline (name : String) (f : Pipeline → Pipeline)
  | routes (f : RouteAssembler → RouteAssembler)

namespace RegistryOperation

/-- a definition that is edited keeps its id -/
def KeepsIds : RegistryOperation → Prop
  | change (.modify _ f) => ∀ d, (f d).id = d.id
  | _ => True

/-- what a frozen registry says it cannot do; it can be frozen once more -/
def action? : RegistryOperation → Option String
  | change (.add d) => some ("add '" ++ d.id ++ "'")
  | change (.modify id _) => some ("modify '" ++ id ++ "'")
  | change (.remove id) => some ("remove '" ++ id ++ "'")
  | change (.setParameter _ _) | change (.mergeParameters _) | parameters _ =>
    some "change parameters"
  | change (.pipeline name _) | assemble name | pipeline name _ =>
    some ("change pipeline '" ++ name ++ "'")
  | change (.routes _) | flatten _ | routes _ => some "change route collections"
  | change .freeze => none

end RegistryOperation

/-! ## registrations -/

/-- an id came or went -/
inductive Registration where
  | added (id : String)
  | removed (id : String)
deriving DecidableEq

namespace Registration

def id : Registration → String
  | added id | removed id => id

/-- what an operation that succeeds does to the ids -/
def ofOperation? : RegistryOperation → Option Registration
  | .change (.add d) => some (added d.id)
  | .change (.remove id) => some (removed id)
  | _ => none

end Registration

/-- the ids whose last registration is an addition, in the order of these -/
def standing : List Registration → List String
  | [] => []
  | .added id :: later =>
    if id ∈ later.map Registration.id then standing later else id :: standing later
  | .removed _ :: later => standing later

/-- a later registration of an id takes its earlier place away -/
theorem standing_append (rs : List Registration) (last : Registration) :
    standing (rs ++ [last]) = (standing rs).filter (· ≠ last.id) ++ standing [last] := by
  induction rs with
  | nil => rfl
  | cons reg rs ih =>
    cases reg with
    | removed other => exact ih
    | added other =>
      rw [List.cons_append, standing, standing, ih, List.map_append, List.map_singleton]
      by_cases hlater : other ∈ rs.map Registration.id
      · rw [if_pos (List.mem_append_left _ hlater), if_pos hlater]
      · rw [if_neg hlater]
        by_cases hlast : other = last.id
        · rw [if_pos (List.mem_append_right _ (List.mem_singleton.mpr hlast)),
            List.filter_cons_of_neg (by simpa using hlast)]
        · have hnot : other ∉ rs.map Registration.id ++ [last.id] := by
            rw [List.mem_append, List.mem_singleton]
            exact not_or.mpr ⟨hlater, hlast⟩
          rw [if_neg hnot, List.filter_cons_of_pos (by simpa using hlast), List.cons_append]

theorem standing_removed (rs : List Registration) (id : String) :
    standing (rs ++ [Registration.removed id]) = (standing rs).filter (· ≠ id) := by
  rw [standing_append]
  exact List.append_nil _

/-- an id that is not there goes last -/
theorem standing_added {rs : List Registration} {id : String} (h : id ∉ standing rs) :
    standing (rs ++ [.added id]) = standing rs ++ [id] := by
  have hkept : (standing rs).filter (· ≠ id) = standing rs :=
    List.filter_eq_self.mpr fun other hother => decide_eq_true fun heq => h (heq ▸ hother)
  rw [standing_append]
  exact congrArg (· ++ [id]) hkept

/-- the registrations among operations that were carried out -/
def registrations (log : List (RegistryOperation × Except ChangeError Unit)) : List Registration :=
  log.filterMap fun entry => if entry.2 = .ok () then Registration.ofOperation? entry.1 else none

theorem registrations_append (log log' : List (RegistryOperation × Except ChangeError Unit)) :
    registrations (log ++ log') = registrations log ++ registrations log' := List.filterMap_append

theorem registrations_failed (op : RegistryOperation) (e : ChangeError) :
    registrations [(op, .error e)] = [] := rfl

theorem registrations_done (op : RegistryOperation) :
    registrations [(op, .ok ())] = (Registration.ofOperation? op).toList := by
  rw [registrations, List.filterMap_cons, if_pos rfl]
  cases Registration.ofOperation? op <;> rfl

namespace Registry

/-! ## operations -/

def perform (r : Registry) : RegistryOperation → Outcome Unit
  | .change c => r.change c
  | .assemble pipeline =>
    let (result, r) := r.assemblePipeline pipeline
    (result.map fun _ => (), r)
  | .flatten order =>
    let (result, r) := r.flattenRoutes order
    (result.map fun _ => (), r)
  | .parameters f => r.orKeep (r.editParameters f)
  | .pipeline name f => r.onPipeline name fun p => .ok ((), { f p with name := p.name })
  | .routes f => r.onRoutes fun a => .ok ((), f a)

def performAll (r : Registry) :
    List RegistryOperation → List (RegistryOperation × Except ChangeError Unit) × Registry
  | [] => ([], r)
  | op :: ops =>
    let (result, next) := r.perform op
    let (log, last) := next.performAll ops
    ((op, result) :: log, last)

variable {r r' : Registry} {op : RegistryOperation} {result : Except ChangeError Unit}

/-- what an operation can do to a registry -/
inductive Step (r : Registry) :
    RegistryOperation → Except ChangeError Unit → Registry → Prop
  | refused (op : RegistryOperation) (e : ChangeError)
      (hfrozen : r.frozen = true → ∃ action ∈ op.action?, e = .registry (.frozen action)) :
      Step r op (.error e) r
  | added (d : Definition) (hopen : r.frozen = false) (hnew : r.has d.id = false) :
      Step r (.change (.add d)) (.ok ())
        { r with definitions := r.definitions ++ [{ d with origin := d.origin.or r.origin }] }
  | modified (id : String) (f : Definition → Definition) (hopen : r.frozen = false) :
      Step r (.change (.modify id f)) (.ok ()) (r.replace id f)
  | removed (id : String) (hopen : r.frozen = false) :
      Step r (.change (.remove id)) (.ok ())
        { r with definitions := r.definitions.filter (·.id ≠ id) }
  /-- it does not touch the definitions -/
  | elsewhere (op : RegistryOperation) (r' : Registry) (hop : Registration.ofOperation? op = none)
      (hfreezes : op.action?.isSome) (hopen : r.frozen = false) (hopen' : r'.frozen = false)
      (hsame : r'.definitions = r.definitions) : Step r op (.ok ()) r'
  | froze (p : Parameters) (hopen : r.frozen = false) :
      Step r (.change .freeze) (.ok ()) { r with parameters := p, frozen := true, origin := none }
  /-- it was frozen before -/
  | idle (hfrozen : r.frozen = true) : Step r (.change .freeze) (.ok ()) r

theorem ensureOpen_cases (r : Registry) (action : String) :
    (r.frozen = true ∧ r.ensureOpen action = .error (.frozen action)) ∨
      (r.frozen = false ∧ r.ensureOpen action = .ok ()) := by
  unfold ensureOpen
  cases r.frozen
  · exact .inr ⟨rfl, rfl⟩
  · exact .inl ⟨rfl, rfl⟩

/-- an action that the registry guards: it is refused, or it is carried out on an open registry -/
theorem step_orKeep (action : String) {f : Except RegistryError Registry}
    (haction : op.action? = some action)
    (hrefused : r.ensureOpen action = .error (.frozen action) → f = .error (.frozen action))
    (hopen : r.frozen = false → ∀ r', f = .ok r' → Step r op (.ok ()) r') :
    Step r op (r.orKeep f).1 (r.orKeep f).2 := by
  rcases r.ensureOpen_cases action with ⟨hfrozen, hclosed⟩ | ⟨hfrozen, -⟩
  · rw [hrefused hclosed]
    exact .refused op _ fun _ => ⟨action, haction, rfl⟩
  · cases hf : f with
    | error e => exact .refused op _ fun h => absurd (hfrozen.symm.trans h) Bool.false_ne_true
    | ok r' => exact hopen hfrozen r' hf

theorem step_add (r : Registry) (d : Definition) :
    Step r (.change (.add d)) (r.change (.add d)).1 (r.change (.add d)).2 := by
  refine step_orKeep ("add '" ++ d.id ++ "'") rfl (fun h => ?_) fun hopen r' hr' => ?_
  · rw [add, h]
    rfl
  · rw [add, ensureOpen, if_neg (by simp [hopen])] at hr'
    by_cases hhas : r.has d.id = true
    · simp only [hhas, if_true] at hr'
      cases hr'
    · rw [Bool.not_eq_true] at hhas
      simp only [hhas] at hr'
      cases hr'
      exact .added d hopen hhas

theorem step_modify (r : Registry) (id : String) (f : Definition → Definition) :
    Step r (.change (.modify id f)) (r.change (.modify id f)).1 (r.change (.modify id f)).2 := by
  refine step_orKeep ("modify '" ++ id ++ "'") rfl (fun h => ?_) fun hopen r' hr' => ?_
  · rw [modify, h]
    rfl
  · rw [modify, ensureOpen, if_neg (by simp [hopen])] at hr'
    by_cases hhas : r.has id = true
    · simp only [hhas, if_true] at hr'
      cases hr'
      exact .modified id f hopen
    · rw [Bool.not_eq_true] at hhas
      simp only [hhas] at hr'
      cases hr'

theorem step_remove (r : Registry) (id : String) :
    Step r (.change (.remove id)) (r.change (.remove id)).1 (r.change (.remove id)).2 := by
  refine step_orKeep ("remove '" ++ id ++ "'") rfl (fun h => ?_) fun hopen r' hr' => ?_
  · rw [remove, h]
    rfl
  · rw [remove, ensureOpen, if_neg (by simp [hopen])] at hr'
    cases hfind : r.find? id with
    | none =>
      simp only [hfind] at hr'
      cases hr'
    | some d =>
      simp only [hfind] at hr'
      cases hr'
      exact .removed id hopen

theorem step_editParameters (f : Parameters → Parameters)
    (hop : Registration.ofOperation? op = none) (haction : op.action? = some "change parameters") :
    Step r op (r.orKeep (r.editParameters f)).1 (r.orKeep (r.editParameters f)).2 := by
  refine step_orKeep _ haction (fun h => ?_) fun hopen r' hr' => ?_
  · rw [editParameters, h]
    rfl
  · rw [editParameters, ensureOpen, if_neg (by simp [hopen])] at hr'
    cases hr'
    exact .elsewhere op _ hop (haction ▸ rfl) hopen hopen rfl

/-- a pipeline that is there stays where it is -/
theorem withPipeline_of_get? {name : String} {p : Pipeline} (hopen : r.frozen = false)
    (h : r.pipelines.get? name = some p) : r.withPipeline name = .ok r := by
  rw [withPipeline, ensureOpen, if_neg (by simp [hopen]), pipelineNamed, h, Option.getD_some,
    OrderedMap.insert_of_get? h]
  rfl

/-- work on a pipeline that succeeds on an empty one: when it fails, the pipeline was there before -/
theorem step_onPipeline {α : Type} (op : RegistryOperation) {name : String}
    {f : Pipeline → Except AssemblyError (α × Pipeline)} (hempty : ∃ x, f (.empty name) = .ok x)
    (hop : Registration.ofOperation? op = none)
    (haction : op.action? = some ("change pipeline '" ++ name ++ "'")) :
    Step r op ((r.onPipeline name f).1.map fun _ => ()) (r.onPipeline name f).2 := by
  rcases r.ensureOpen_cases ("change pipeline '" ++ name ++ "'") with
    ⟨hfrozen, hclosed⟩ | ⟨hopen, hclear⟩
  · have hrefused : r.withPipeline name =
        .error (.frozen ("change pipeline '" ++ name ++ "'")) := by
      rw [withPipeline, hclosed]
      rfl
    rw [onPipeline, hrefused]
    exact .refused op _ fun _ => ⟨_, haction, rfl⟩
  · have hwith : r.withPipeline name =
        .ok { r with pipelines := r.pipelines.insert name (r.pipelineNamed name) } := by
      rw [withPipeline, hclear]
      rfl
    have hnamed : pipelineNamed
        { r with pipelines := r.pipelines.insert name (r.pipelineNamed name) } name =
          r.pipelineNamed name := by
      show ((r.pipelines.insert name (r.pipelineNamed name)).get? name).getD _ = _
      rw [OrderedMap.get?_insert, if_pos rfl, Option.getD_some]
    rw [onPipeline, hwith]
    dsimp only
    rw [hnamed]
    cases hf : f (r.pipelineNamed name) with
    | ok x => exact .elsewhere op _ hop (haction ▸ rfl) hopen hopen rfl
    | error e =>
      -- a new pipeline would have been empty
      cases hget : r.pipelines.get? name with
      | none =>
        obtain ⟨x, hx⟩ := hempty
        rw [pipelineNamed, hget, Option.getD_none, hx] at hf
        cases hf
      | some p =>
        have hsame := hwith.symm.trans (withPipeline_of_get? hopen hget)
        rw [Except.ok.inj hsame]
        exact .refused op _ fun h => absurd (hopen.symm.trans h) Bool.false_ne_true

theorem step_onRoutes {α : Type} (op : RegistryOperation)
    {f : RouteAssembler → Except AssemblyError (α × RouteAssembler)} (hop : Registration.ofOperation? op = none)
    (haction : op.action? = some "change route collections") :
    Step r op ((r.onRoutes f).1.map fun _ => ()) (r.onRoutes f).2 := by
  rcases r.ensureOpen_cases "change route collections" with ⟨hfrozen, hclosed⟩ | ⟨hopen, hclear⟩
  · have hclosed : r.ensureRoutesOpen = .error (.frozen "change route collections") := hclosed
    rw [onRoutes, hclosed]
    exact .refused op _ fun _ => ⟨_, haction, rfl⟩
  · have hclear : r.ensureRoutesOpen = .ok () := hclear
    rw [onRoutes, hclear]
    dsimp only
    cases f r.routes with
    | ok x => exact .elsewhere op _ hop (haction ▸ rfl) hopen hopen rfl
    | error e => exact .refused op _ fun h => absurd (hopen.symm.trans h) Bool.false_ne_true

theorem step_freeze (r : Registry) :
    Step r (.change .freeze) (r.change .freeze).1 (r.change .freeze).2 := by
  cases hfrozen : r.frozen with
  | true =>
    have hsame : r.freeze = .ok r := if_pos hfrozen
    rw [change, hsame]
    exact .idle hfrozen
  | false =>
    have hfreeze : r.freeze = (r.parameters.resolve.mapError .parameter).map fun parameters =>
        { r with parameters, frozen := true, origin := none } := if_neg (by simp [hfrozen])
    rw [change, hfreeze]
    cases r.parameters.resolve with
    | ok p => exact .froze p hfrozen
    | error e =>
      exact .refused _ _ fun h => absurd (hfrozen.symm.trans h) Bool.false_ne_true

theorem map_unit (result : Except ChangeError Unit) : (result.map fun _ => ()) = result := by
  cases result <;> rfl

/-- **Nothing else happens**: the outcome of an operation is one that a step allows. -/
theorem step_perform (r : Registry) (op : RegistryOperation) :
    Step r op (r.perform op).1 (r.perform op).2 := by
  cases op with
  | change c =>
    cases c with
    | add d => exact step_add r d
    | modify id f => exact step_modify r id f
    | remove id => exact step_remove r id
    | setParameter key value => exact step_editParameters _ rfl rfl
    | mergeParameters incoming => exact step_editParameters _ rfl rfl
    | pipeline name c =>
      -- a pipeline that is made on the way accepts its first contribution
      have hempty : ∃ x, ((Pipeline.empty name).change c).map (((), ·)) = .ok x := by
        cases c <;> exact ⟨_, rfl⟩
      have h := step_onPipeline (r := r) (.change (.pipeline name c))
        (f := fun p => (p.change c).map ((), ·)) hempty rfl rfl
      rw [map_unit] at h
      exact h
    | routes c =>
      have h := step_onRoutes (r := r) (.change (.routes c))
        (f := fun a => (a.change c).map ((), ·)) rfl rfl
      rw [map_unit] at h
      exact h
    | freeze => exact step_freeze r
  | assemble name => exact step_onPipeline (.assemble name) ⟨_, rfl⟩ rfl rfl
  | flatten order =>
    exact step_onRoutes (r := r) (.flatten order) (f := fun a => a.flatten order) rfl rfl
  | parameters f => exact step_editParameters f rfl rfl
  | pipeline name f =>
    have h := step_onPipeline (r := r) (.pipeline name f)
      (f := fun p => .ok ((), { f p with name := p.name })) ⟨_, rfl⟩ rfl rfl
    rw [map_unit] at h
    exact h
  | routes f =>
    have h := step_onRoutes (r := r) (.routes f) (f := fun a => .ok ((), f a)) rfl rfl
    rw [map_unit] at h
    exact h

/-! ## one operation -/

/-- what fails changes nothing -/
theorem perform_eq_of_error {e : ChangeError} (h : (r.perform op).1 = .error e) :
    (r.perform op).2 = r := by
  have hstep := step_perform r op
  generalize r.perform op = out at h hstep ⊢
  obtain ⟨result, r'⟩ := out
  cases h
  cases hstep
  rfl

/-- an operation on a frozen registry is refused, unless it freezes it once more -/
theorem Step.of_frozen (h : Step r op result r') (hr : r.frozen = true) {action : String}
    (haction : op.action? = some action) :
    result = .error (.registry (.frozen action)) ∧ r' = r := by
  have hclosed : r.frozen ≠ false := fun hopen => Bool.false_ne_true (hopen.symm.trans hr)
  cases h with
  | refused _ e hfrozen =>
    obtain ⟨action', haction', rfl⟩ := hfrozen hr
    rw [Option.some.inj (haction'.symm.trans haction)]
    exact ⟨rfl, rfl⟩
  | added d hopen => exact absurd hopen hclosed
  | modified id f hopen => exact absurd hopen hclosed
  | removed id hopen => exact absurd hopen hclosed
  | elsewhere _ _ _ _ hopen => exact absurd hopen hclosed
  | froze p hopen => exact absurd hopen hclosed
  | idle hfrozen => cases haction

theorem perform_of_frozen (hr : r.frozen = true) {action : String}
    (haction : op.action? = some action) :
    r.perform op = (.error (.registry (.frozen action)), r) := by
  obtain ⟨hresult, hsame⟩ := (step_perform r op).of_frozen hr haction
  exact Prod.ext hresult hsame

/-- a frozen registry stays as it is -/
theorem perform_frozen (hr : r.frozen = true) (op : RegistryOperation) : (r.perform op).2 = r := by
  cases haction : op.action? with
  | some action => rw [perform_of_frozen hr haction]
  | none =>
    cases op with
    | change c =>
      cases c with
      | freeze =>
        rw [perform, change, show r.freeze = .ok r from if_pos hr]
        rfl
      | _ => cases haction
    | _ => cases haction

theorem performAll_frozen (hr : r.frozen = true) (ops : List RegistryOperation) :
    (r.performAll ops).2 = r := by
  induction ops with
  | nil => rfl
  | cons op ops ih =>
    show ((r.perform op).2.performAll ops).2 = r
    rw [perform_frozen hr op, ih]

/-- a registry that was frozen successfully is frozen -/
theorem frozen_of_freeze (h : r.perform (.change .freeze) = (.ok (), r')) : r'.frozen = true := by
  have hstep := step_perform r (.change .freeze)
  rw [h] at hstep
  cases hstep with
  | elsewhere _ _ _ hfreezes => cases hfreezes
  | froze p hopen => rfl
  | idle hfrozen => exact hfrozen

/-! ## all operations -/

/-- a registry shows its definitions in the order in which the history added their ids -/
structure Recorded (log : List (RegistryOperation × Except ChangeError Unit)) (r : Registry) :
    Prop where
  ids : r.ids = standing (registrations log)
  unique : r.ids.Nodup

theorem Recorded.ofParameters (p : Parameters) : Recorded [] (ofParameters p) :=
  ⟨rfl, List.nodup_nil⟩

/-- editing a definition that keeps its id moves nothing -/
theorem ids_replace (id : String) {f : Definition → Definition} (hf : ∀ d, (f d).id = d.id) :
    (r.replace id f).ids = r.ids := by
  unfold ids replace
  rw [List.map_map]
  refine List.map_congr_left fun d _ => ?_
  rw [Function.comp_apply]
  split
  · exact hf d
  · rfl

theorem ids_filter (r : Registry) (id : String) :
    (r.definitions.filter (·.id ≠ id)).map Definition.id = r.ids.filter (· ≠ id) := by
  rw [ids, List.filter_map]
  rfl

theorem ids_append (r : Registry) (d : Definition) :
    (r.definitions ++ [d]).map Definition.id = r.ids ++ [d.id] := List.map_append

variable {log : List (RegistryOperation × Except ChangeError Unit)}

/-- one more operation is recorded -/
theorem Recorded.step (hlog : Recorded log r) (hop : op.KeepsIds) (h : Step r op result r') :
    Recorded (log ++ [(op, result)]) r' := by
  obtain ⟨hids, hunique⟩ := hlog
  -- an operation that registers nothing and leaves the ids
  have hsame : registrations [(op, result)] = [] → r'.ids = r.ids →
      Recorded (log ++ [(op, result)]) r' := fun hnone heq => by
    refine ⟨?_, heq ▸ hunique⟩
    rw [registrations_append, hnone, List.append_nil, heq, hids]
  cases h with
  | refused _ e _ => exact hsame (registrations_failed op e) rfl
  | added d hopen hnew =>
    have hnot : d.id ∉ r.ids := fun hmem => by
      rw [has_iff_mem_ids.mpr hmem] at hnew
      cases hnew
    refine ⟨?_, ?_⟩
    · rw [registrations_append, registrations_done]
      refine (ids_append r _).trans ?_
      rw [hids] at hnot ⊢
      exact (standing_added hnot).symm
    · refine (congrArg List.Nodup (ids_append r _)).mpr ?_
      exact List.nodup_append.mpr ⟨hunique, List.nodup_singleton _, fun a ha b hb heq =>
        hnot (List.mem_singleton.mp hb ▸ heq ▸ ha)⟩
  | modified id f hopen =>
    exact hsame (registrations_done _) (ids_replace id hop)
  | removed id hopen =>
    refine ⟨?_, ?_⟩
    · rw [registrations_append, registrations_done]
      refine (ids_filter r id).trans ?_
      rw [hids]
      exact (standing_removed _ id).symm
    · exact (congrArg List.Nodup (ids_filter r id)).mpr (hunique.filter _)
  | elsewhere _ _ hnone _ _ _ heq =>
    refine hsame ?_ (congrArg (List.map Definition.id) heq)
    rw [registrations_done, hnone]
    rfl
  | froze p hopen => exact hsame (registrations_done _) rfl
  | idle hfrozen => exact hsame (registrations_done _) rfl

/-- operations one after the other are recorded -/
theorem Recorded.performAll (hlog : Recorded log r) (ops : List RegistryOperation)
    (hops : ∀ op ∈ ops, op.KeepsIds) :
    Recorded (log ++ (r.performAll ops).1) (r.performAll ops).2 := by
  induction ops generalizing log r with
  | nil =>
    show Recorded (log ++ []) r
    rwa [List.append_nil]
  | cons op ops ih =>
    have hnext := hlog.step (hops op (List.mem_cons_self ..)) (step_perform r op)
    have hlast := ih hnext fun op hop => hops op (List.mem_cons_of_mem _ hop)
    rwa [List.append_assoc] at hlast

/-! ## views -/

/-- a definition is found under its id when no id occurs twice -/
theorem find?_of_mem (hunique : r.ids.Nodup) {d : Definition} (hd : d ∈ r.definitions) :
    r.find? d.id = some d := by
  unfold ids at hunique
  unfold find?
  generalize r.definitions = ds at hunique hd
  induction ds with
  | nil => cases hd
  | cons other ds ih =>
    obtain ⟨hother, hunique⟩ := List.nodup_cons.mp hunique
    rcases List.mem_cons.mp hd with rfl | hd
    · exact List.find?_cons_of_pos (decide_eq_true rfl)
    · have hne : other.id ≠ d.id := fun heq => hother (heq ▸ List.mem_map_of_mem hd)
      rw [List.find?_cons_of_neg (by simpa using hne)]
      exact ih hunique hd

/-- a view that is taken definition by definition is taken id by id -/
theorem filterMap_definitions {α : Type} (hunique : r.ids.Nodup) (view : Definition → Option α) :
    r.definitions.filterMap view = r.ids.filterMap fun id => (r.find? id).bind view := by
  rw [ids, List.filterMap_map]
  refine List.filterMap_congr fun d hd => ?_
  rw [Function.comp_apply, find?_of_mem hunique hd, Option.bind_some]

theorem definitions_eq (hunique : r.ids.Nodup) : r.definitions = r.ids.filterMap r.find? := by
  have h := filterMap_definitions hunique some
  rw [List.filterMap_some] at h
  simpa using h

theorem tagged_eq (hunique : r.ids.Nodup) (tag : String) :
    r.tagged tag = r.ids.filterMap fun id =>
      (r.find? id).bind fun d => (d.tags.get? tag).map (id, ·) := by
  rw [ids, List.filterMap_map]
  refine List.filterMap_congr fun d hd => ?_
  rw [Function.comp_apply, find?_of_mem hunique hd, Option.bind_some]

theorem byType_eq (hunique : r.ids.Nodup) (typeName : String) :
    r.byType typeName =
      r.ids.filter fun id => (r.find? id).any (·.types.contains typeName) := by
  rw [ids, List.filter_map, byType]
  refine congrArg (List.map Definition.id) (List.filter_congr fun d hd => ?_)
  rw [Function.comp_apply, find?_of_mem hunique hd, Option.any_some]

/-! ## runs -/

/-- **A registry shows what it has gone through.** After any operations on an empty registry, no id occurs
twice and every definition is found under its own. The definitions, those with a tag and those of a type
stand in the order in which their ids were last added. An operation that fails, whichever comes next, leaves
everything as it was. Once a freeze has succeeded, every other operation is refused, and nothing changes any
more. -/
theorem run_recorded (p : Parameters) (ops : List RegistryOperation)
    (hops : ∀ op ∈ ops, op.KeepsIds) :
    ∃ log r, (ofParameters p).performAll ops = (log, r) ∧
      r.ids = standing (registrations log) ∧ r.ids.Nodup ∧
      (∀ d ∈ r.definitions, r.find? d.id = some d) ∧
      r.definitions = r.ids.filterMap r.find? ∧
      (∀ tag, r.tagged tag = r.ids.filterMap fun id =>
        (r.find? id).bind fun d => (d.tags.get? tag).map (id, ·)) ∧
      (∀ typeName, r.byType typeName =
        r.ids.filter fun id => (r.find? id).any (·.types.contains typeName)) ∧
      (∀ op e, (r.perform op).1 = .error e → (r.perform op).2 = r) ∧
      ∀ r', r.perform (.change .freeze) = (.ok (), r') →
        r'.frozen = true ∧
        (∀ op action, op.action? = some action →
          r'.perform op = (.error (.registry (.frozen action)), r')) ∧
        ∀ ops', (r'.performAll ops').2 = r' := by
  have hrecorded := (Recorded.ofParameters p).performAll ops hops
  refine ⟨_, _, rfl, hrecorded.ids, hrecorded.unique, fun d => find?_of_mem hrecorded.unique,
    definitions_eq hrecorded.unique, tagged_eq hrecorded.unique, byType_eq hrecorded.unique,
    fun op e => perform_eq_of_error, fun r' hfreeze => ?_⟩
  have hfrozen := frozen_of_freeze hfreeze
  exact ⟨hfrozen, fun op action => perform_of_frozen hfrozen, performAll_frozen hfrozen⟩

def tagging (id tag : String) : Definition :=
  { Definition.ofNode id (.literal .null) with tags := [(tag, .null)] }

/-- `a` comes, comes a second time in vain, goes, and comes back behind `b` -/
def comeBack : List RegistryOperation :=
  [ .change (.add (tagging "a" "t")), .change (.add (tagging "b" "t")),
    .change (.add (tagging "a" "u")), .change (.remove "a"), .change (.add (tagging "a" "t")),
    .change (.modify "b" (·.withType "T")), .change (.remove "c") ]

theorem comeBack_keepsIds : ∀ op ∈ comeBack, op.KeepsIds := by
  intro op hop
  simp only [comeBack, List.mem_cons, List.not_mem_nil, or_false] at hop
  rcases hop with rfl | rfl | rfl | rfl | rfl | rfl | rfl
  case inr.inr.inr.inr.inr.inl => exact fun d => rfl
  all_goals trivial

theorem comeBack_recorded :
    (∀ op ∈ comeBack, op.KeepsIds) ∧
      ∃ log r, (ofParameters .empty).performAll comeBack = (log, r) ∧
        log.map (fun entry => entry.2.toOption.isSome) =
          [true, true, false, true, true, true, false] ∧
        r.ids = ["b", "a"] ∧ r.tagged "t" = [("b", .null), ("a", .null)] ∧ r.byType "T" = ["b"] ∧
        ∃ r', r.perform (.change .freeze) = (.ok (), r') ∧
          r'.perform (.change (.remove "a")) =
            (.error (.registry (.frozen "remove 'a'")), r') := by
  obtain ⟨log, r, hrun, -, -, -, -, -, -, -, hfrozen⟩ :=
    run_recorded .empty comeBack comeBack_keepsIds
  cases hrun
  refine ⟨comeBack_keepsIds, _, _, rfl, by decide, by decide, by decide, by decide, _, rfl, ?_⟩
  exact (hfrozen _ rfl).2.1 _ _ rfl

end Registry
end ServiceGraph
