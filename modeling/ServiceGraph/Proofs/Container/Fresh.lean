import ServiceGraph.Proofs.Container.Cycles

/-!
# Building everything anew

Where constructors are pure and no live object is around, it cannot be told whether a service was
built before: its value is what building it would give again. So every look-up is answered as if
there were no memory.

* `quiet`: the rules of plans without live objects;
* `Construction.Yields`, `Constructors.Pure`: constructors that are functions of plain data;
* `Container.fresh`: the answer to a look-up when everything is built anew;
* `Container.fresh_stable`: for an id from which every walk ends, this does not depend on what is in
  flight;
* `Container.Faithful`: the memory holds what building anew would give;
* `Container.Anew`: a look-up that is answered as if there were no memory;
* `Container.resolve_eq_fresh`, `getAll_eq_fresh`: every look-up is, and every series of them.
-/

namespace ServiceGraph

open Relation

variable {σ α : Type}

/-- no live object is passed on, and none is worked on -/
def quiet : Rules σ where
  error _ := True
  value v := v.objects = []
  work w := ∃ r, ∀ h, w h = (r, h)

/-! ## plain data -/

namespace Value

theorem objectsOfItems_eq_nil {vs : List Value} (h : ∀ v ∈ vs, v.objects = []) :
    objectsOfItems vs = [] := by
  induction vs with
  | nil => rfl
  | cons v vs ih =>
    obtain ⟨hv, hvs⟩ := List.forall_mem_cons.mp h
    rw [objectsOfItems, hv, ih hvs, List.append_nil]

theorem objectsOfEntries_eq_nil {es : List (String × Value)} (h : ∀ e ∈ es, e.2.objects = []) :
    objectsOfEntries es = [] := by
  induction es with
  | nil => rfl
  | cons e es ih =>
    obtain ⟨he, hes⟩ := List.forall_mem_cons.mp h
    obtain ⟨k, v⟩ := e
    rw [objectsOfEntries, ih hes, List.append_nil]
    exact he

end Value

theorem Container.objects_zipRecord {keys : List String} {vs : List Value}
    (h : ∀ v ∈ vs, v.objects = []) : (zipRecord keys vs).objects = [] := by
  have hpairs : ∀ e ∈ keys.zip vs, e.2.objects = [] := by
    rintro ⟨k, v⟩ he
    exact h v (List.of_mem_zip he).2
  have hnil : ∀ e ∈ ([] : OrderedMap Value), e.2.objects = [] := fun e he => by cases he
  have hentries : ∀ e ∈ OrderedMap.ofList (keys.zip vs), e.2.objects = [] :=
    OrderedMap.forall_mem_extend (P := fun v : Value => v.objects = []) hnil hpairs
  exact Value.objectsOfEntries_eq_nil hentries

/-! ## pure constructors -/

/-- the run comes to this result, whatever is alive, and leaves everything as it is -/
def Construction.Yields (result : Except ContainerError Value) : Construction σ → Prop
  | done r => r = result
  | get _ _ => False
  | act work next => ∃ r, (∀ h, work h = (r, h)) ∧ Yields result (next r)

/-- the constructors turn plain data into plain data or an error, and do nothing else -/
def Constructors.Pure (cs : Constructors σ) : Prop :=
  ∀ name k, OrderedMap.get? cs name = some k → ∀ l args, (∀ v ∈ args, v.objects = []) →
    ∃ result, (k.run l args).Yields result ∧ ∀ v, result = .ok v → v.objects = []

theorem Construction.Yields.obeys {c : Container σ} {k : Construction σ}
    {result : Except ContainerError Value} (hk : k.Yields result)
    (hresult : ∀ v, result = .ok v → v.objects = []) :
    (k.plan c).Obeys quiet (fun v => v.objects = []) [] := by
  induction k with
  | done r =>
    cases hk
    cases result with
    | ok v => exact ⟨rfl, hresult v rfl⟩
    | error e => trivial
  | get id next _ => exact hk.elim
  | act work next ih =>
    obtain ⟨r, hwork, hnext⟩ := hk
    refine ⟨⟨r, hwork⟩, fun h => ?_⟩
    rw [hwork h]
    exact ih r hnext

namespace Container

variable {c : Container σ} {h : Heap σ} {inFlight : List String} {id : String}

/-- the data in the definitions refers to no live object -/
def Plain (c : Container σ) : Prop :=
  ∀ d ∈ c.registry.definitions, ∀ v ∈ d.data c.parameter, v.objects = []

/-- plain data has no methods -/
theorem invoke_plain {receiver : Value} (hreceiver : receiver.objects = []) (s : Services σ)
    (method : String) (args : List Value) (h : Heap σ) :
    h.invoke s receiver method args = (.error (.notAService method receiver.kind), h) := by
  cases receiver with
  | service id => cases hreceiver
  | null | bool _ | int _ | float _ | str _ | list _ | map _ => rfl

theorem fluent_plain {receiver : Value} (hreceiver : receiver.objects = []) (s : Services σ)
    (method : String) (args : List Value) (h : Heap σ) :
    h.fluent s receiver method args = (.error (.notAService method receiver.kind), h) := by
  rw [Heap.fluent, invoke_plain hreceiver]

theorem quiet_act {work : Heap σ → Heap.Outcome σ} {e : ContainerError}
    (hwork : ∀ h, work h = (.error e, h)) :
    (Plan.act work .done : Plan σ Value).Obeys quiet (fun v => v.objects = []) [] := by
  refine ⟨⟨_, hwork⟩, fun h => ?_⟩
  rw [hwork h]
  trivial

theorem keeps_quiet (hcs : c.constructors.Pure) : c.Keeps quiet where
  unknown _ := trivial
  parameter _ := trivial
  null := rfl
  list _ hvs := Value.objectsOfItems_eq_nil hvs
  record _ _ hvs := objects_zipRecord hvs
  start name args hargs := by
    unfold Constructors.start
    cases hk : OrderedMap.get? c.constructors name with
    | none => trivial
    | some k =>
      dsimp only
      split
      · obtain ⟨result, hyields, hplain⟩ := hcs name k hk c.lookup args hargs
        exact hyields.obeys hplain
      · trivial
  invoke receiver method args hreceiver _ :=
    quiet_act (invoke_plain hreceiver c.services method args)
  fluent receiver method args hreceiver _ :=
    quiet_act (fluent_plain hreceiver c.services method args)

end Container

/-! ## answers without a memory -/

/-- what a plan comes to when the answers to its questions are known -/
def Plan.outcome (h : Heap σ) (answer : String → Except ContainerError Value) (p : Plan σ α) :
    Except ContainerError α :=
  (p.follow (fun id => .ofOutcome (answer id)) (.ofHeap h)).1

theorem Plan.Obeys.outcome_eq_ok {rules : Rules σ} {R : α → Prop} {p : Plan σ α}
    {ids : List String} (hp : p.Obeys rules R ids) {h : Heap σ}
    {answer : String → Except ContainerError Value}
    (told : ∀ id v, answer id = .ok v → rules.value v) {a : α}
    (ha : p.outcome h answer = .ok a) : R a ∧ ∀ id ∈ ids, ∃ v, answer id = .ok v := by
  have hanswers : ∀ id ∈ ids, ∀ b : Building σ, True →
      answer id = (Build.ofOutcome (answer id) b).1 ∧ True := fun _ _ _ _ => ⟨rfl, trivial⟩
  have hfollow := hp.follow (A := fun id r => answer id = r) (fun _ _ _ _ => trivial) hanswers told
    (b := .ofHeap h) trivial
  exact hfollow.2.1 a ha

theorem Plan.Obeys.outcome_congr {R : α → Prop} {p : Plan σ α} {ids : List String}
    (hp : p.Obeys quiet R ids) {h : Heap σ} {answer answer' : String → Except ContainerError Value}
    (told : ∀ id v, answer id = .ok v → v.objects = [])
    (hsame : ∀ id ∈ ids, answer id = answer' id) : p.outcome h answer = p.outcome h answer' := by
  have hwork : ∀ work, (quiet : Rules σ).work work → ∀ b b' : Building σ, b = b' →
      (work b.heap).1 = (work b'.heap).1 ∧
        { b with heap := (work b.heap).2 } = { b' with heap := (work b'.heap).2 } := by
    rintro work - b b' rfl
    exact ⟨rfl, rfl⟩
  have hanswers : ∀ id ∈ ids, ∀ b b' : Building σ, b = b' →
      answer id = answer' id ∧ (∀ v, answer id = .ok v → v.objects = []) ∧ b = b' :=
    fun id hid b b' hb => ⟨hsame id hid, told id, hb⟩
  exact (hp.follow_rel (S := (· = ·)) hwork hanswers rfl).1

namespace Container

variable {c : Container σ} {h : Heap σ} {room : Nat} {inFlight : List String} {id : String}

/-- the answer to a look-up when nothing is remembered; `room` as in `Container.resolve` -/
def fresh (c : Container σ) (h : Heap σ) :
    (room : Nat) → List String → String → Except ContainerError Value
  | room, inFlight, id =>
    match c.registry.find? id with
    | none => .error (.unknownService id)
    | some d =>
      match Building.enter inFlight id with
      | .error e => .error e
      | .ok inFlight =>
        match room with
        | 0 => .error (.unknownService id)
        | room + 1 => (c.definitionPlan d).outcome h (fresh c h room inFlight)

theorem fresh_undefined (hid : c.registry.find? id = none) :
    c.fresh h room inFlight id = .error (.unknownService id) := by
  rw [fresh, hid]

theorem fresh_refused {d : Definition} (hd : c.registry.find? id = some d)
    (hmem : id ∈ inFlight) : c.fresh h room inFlight id =
      .error (.circularDependency (inFlight.dropWhile (· ≠ id) ++ [id])) := by
  rw [fresh, hd, Building.enter_of_mem hmem]

theorem fresh_full {d : Definition} (hd : c.registry.find? id = some d) (hnew : id ∉ inFlight) :
    c.fresh h 0 inFlight id = .error (.unknownService id) := by
  rw [fresh, hd, Building.enter_of_not_mem hnew]

theorem fresh_entered {d : Definition} (hd : c.registry.find? id = some d)
    (hnew : id ∉ inFlight) : c.fresh h (room + 1) inFlight id =
      (c.definitionPlan d).outcome h (c.fresh h room (inFlight ++ [id])) := by
  rw [fresh, hd, Building.enter_of_not_mem hnew]

/-- a value comes from the plan of a definition -/
theorem exists_of_fresh {v : Value} (hv : c.fresh h room inFlight id = .ok v) :
    ∃ d room', c.registry.find? id = some d ∧ room = room' + 1 ∧
      (c.definitionPlan d).outcome h (c.fresh h room' (inFlight ++ [id])) = .ok v := by
  cases hd : c.registry.find? id with
  | none =>
    rw [fresh_undefined hd] at hv
    cases hv
  | some d =>
    by_cases hmem : id ∈ inFlight
    · rw [fresh_refused hd hmem] at hv
      cases hv
    · cases room with
      | zero =>
        rw [fresh_full hd hmem] at hv
        cases hv
      | succ room =>
        rw [fresh_entered hd hmem] at hv
        exact ⟨d, room, rfl, rfl, hv⟩

section
variable (hcs : c.constructors.Pure) (hplain : c.Plain)
include hcs hplain

theorem quiet_definitionPlan {d : Definition} (hd : c.registry.find? id = some d) :
    (c.definitionPlan d).Obeys quiet (fun v => v.objects = [])
      (d.evaluationOrder c.registry.has) :=
  definitionPlan_obeys (keeps_quiet hcs) (hplain d (Registry.mem_of_find? hd))

/-- what is built anew is plain, and its building came to an end -/
theorem fresh_eq_ok {v : Value} (hv : c.fresh h room inFlight id = .ok v) :
    v.objects = [] ∧ Grounded c.Refers id := by
  induction room generalizing inFlight id v with
  | zero =>
    obtain ⟨d, room, -, hroom, -⟩ := exists_of_fresh hv
    cases hroom
  | succ room ih =>
    obtain ⟨d, room', hd, hroom, hv⟩ := exists_of_fresh hv
    cases hroom
    obtain ⟨hobjects, hall⟩ := (quiet_definitionPlan hcs hplain hd).outcome_eq_ok
      (fun other w hw => (ih hw).1) hv
    refine ⟨hobjects, grounded_of_evaluationOrder hd fun other hother => ?_⟩
    obtain ⟨w, hw⟩ := hall other hother
    exact (ih hw).2

/-- the ids in flight are not needed for an id from which every walk ends -/
theorem fresh_of_grounded {d : Definition} (hd : c.registry.find? id = some d)
    (hid : Grounded c.Refers id)
    (stable : ∀ other, c.Refers id other → ∀ room inFlight, c.Roomy room inFlight →
      (∀ i ∈ inFlight, ¬ ReflTransGen c.Refers other i) →
        c.fresh h room inFlight other = c.fresh h c.registry.size [] other)
    (hroom : c.Roomy room inFlight) (hfree : ∀ i ∈ inFlight, ¬ ReflTransGen c.Refers id i) :
    c.fresh h room inFlight id =
      (c.definitionPlan d).outcome h (c.fresh h c.registry.size []) := by
  have hdefined : c.Defines id := defines_of_find? hd
  have hnew : id ∉ inFlight := fun hmem => hfree id hmem .refl
  cases room with
  | zero => exact absurd (hroom.mem_of_zero hdefined) hnew
  | succ room =>
    rw [fresh_entered hd hnew]
    have hsame : ∀ other ∈ d.evaluationOrder c.registry.has,
        c.fresh h room (inFlight ++ [id]) other = c.fresh h c.registry.size [] other := by
      intro other hother
      cases hother' : c.registry.find? other with
      | none => rw [fresh_undefined hother', fresh_undefined hother']
      | some d' =>
        have hrefers : c.Refers id other := refers_of_mem hd hother (defines_of_find? hother')
        refine stable other hrefers room _ (hroom.enter hdefined hnew) fun i hi hreach => ?_
        rcases List.mem_append.mp hi with hi | hi
        · exact hfree i hi (hreach.head hrefers)
        · rw [List.mem_singleton.mp hi] at hreach
          exact hid.not_transGen (TransGen.head' hrefers hreach)
    exact (quiet_definitionPlan hcs hplain hd).outcome_congr
      (fun other v hv => (fresh_eq_ok hcs hplain hv).1) hsame

theorem fresh_stable (hid : Grounded c.Refers id) (hroom : c.Roomy room inFlight)
    (hfree : ∀ i ∈ inFlight, ¬ ReflTransGen c.Refers id i) :
    c.fresh h room inFlight id = c.fresh h c.registry.size [] id := by
  induction hid generalizing room inFlight with
  | intro id hnext ih =>
    cases hd : c.registry.find? id with
    | none => rw [fresh_undefined hd, fresh_undefined hd]
    | some d =>
      have hid : Grounded c.Refers id := .intro hnext
      have hall : c.Roomy c.registry.size [] := Roomy.nil c
      rw [fresh_of_grounded hcs hplain hd hid (fun other hother _ _ => ih other hother) hroom hfree,
        fresh_of_grounded hcs hplain hd hid (fun other hother _ _ => ih other hother) hall
          (List.forall_mem_nil _)]

end

/-! ## the memory makes no difference -/

/-- nothing was done to the live objects, and what is remembered is what would be built anew -/
structure Faithful (c : Container σ) (h : Heap σ) (b : Building σ) : Prop where
  heap : b.heap = h
  memory : ∀ i v, b.instances.get? i = some v → c.fresh h c.registry.size [] i = .ok v

theorem Faithful.leave {d : Definition} {o : Except ContainerError Value × Building σ}
    (ho : c.Faithful h o.2)
    (hvalue : ∀ v, o.1 = .ok v → c.fresh h c.registry.size [] d.id = .ok v) :
    c.Faithful h (leave d o).2 := by
  obtain ⟨r, b⟩ := o
  cases r with
  | error e => exact ⟨ho.heap, ho.memory⟩
  | ok v =>
    refine ⟨ho.heap, fun i w hw => ?_⟩
    rcases leave_get? hw with hw' | ⟨hi, hv⟩
    · exact ho.memory i w hw'
    · rw [hi]
      exact hvalue w hv

/-- the look-up of an id, as what it makes of a state: it is answered as if there were no memory,
where all ids in flight have led to the id -/
def Anew (c : Container σ) (h : Heap σ) (room : Nat) (id : String) (b : Building σ)
    (o : Except ContainerError Value × Building σ) : Prop :=
  c.Faithful h b → c.Roomy room b.inFlight →
    (c.Defines id → ∀ i ∈ b.inFlight, TransGen c.Refers i id) →
      o.1 = c.fresh h room b.inFlight id ∧ c.Faithful h o.2 ∧ o.2.inFlight = b.inFlight

section
variable (hcs : c.constructors.Pure) (hplain : c.Plain)
include hcs hplain

/-- the plan of a definition whose look-ups are answered as if there were no memory -/
theorem follow_eq_fresh
    (answers : ∀ other b, c.Anew h room other b (c.resolve room other b)) {d : Definition}
    (hd : c.registry.find? id = some d) (hroom : c.Roomy (room + 1) inFlight)
    (hlead : ∀ i ∈ inFlight, TransGen c.Refers i id) (hnew : id ∉ inFlight) {b : Building σ}
    (hb : c.Faithful h b) (hin : b.inFlight = inFlight ++ [id]) :
    ((c.definitionPlan d).follow (c.resolve room) b).1 = c.fresh h (room + 1) inFlight id ∧
    c.Faithful h ((c.definitionPlan d).follow (c.resolve room) b).2 ∧
    ((c.definitionPlan d).follow (c.resolve room) b).2.inFlight = inFlight ++ [id] := by
  have hroom' : c.Roomy room (inFlight ++ [id]) := hroom.enter (defines_of_find? hd) hnew
  -- one side with the memory, and the other with nothing but the heap
  let anew : String → Build σ Value := fun other =>
    .ofOutcome (c.fresh h room (inFlight ++ [id]) other)
  let S : Building σ → Building σ → Prop := fun b₁ b₂ =>
    c.Faithful h b₁ ∧ b₁.inFlight = inFlight ++ [id] ∧ b₂.heap = h
  have hwork : ∀ work, (quiet : Rules σ).work work → ∀ b₁ b₂, S b₁ b₂ →
      (work b₁.heap).1 = (work b₂.heap).1 ∧
      S { b₁ with heap := (work b₁.heap).2 } { b₂ with heap := (work b₂.heap).2 } := by
    rintro work ⟨r, hr⟩ b₁ b₂ ⟨hb₁, hin₁, hb₂⟩
    rw [hr, hr]
    exact ⟨rfl, hb₁, hin₁, hb₂⟩
  have hinner : ∀ other ∈ d.evaluationOrder c.registry.has, ∀ b₁ b₂, S b₁ b₂ →
      (c.resolve room other b₁).1 = (anew other b₂).1 ∧
      (∀ v, (c.resolve room other b₁).1 = .ok v → v.objects = []) ∧
      S (c.resolve room other b₁).2 (anew other b₂).2 := by
    rintro other hother b₁ b₂ ⟨hb₁, hin₁, hb₂⟩
    have hlead' : c.Defines other → ∀ i ∈ b₁.inFlight, TransGen c.Refers i other := by
      intro hdefined i hi
      have hrefers : c.Refers id other := refers_of_mem hd hother hdefined
      rw [hin₁] at hi
      rcases List.mem_append.mp hi with hi | hi
      · exact (hlead i hi).tail hrefers
      · rw [List.mem_singleton.mp hi]
        exact .single hrefers
    obtain ⟨hsame, hfaithful, hin'⟩ := answers other b₁ hb₁ (hin₁ ▸ hroom') hlead'
    rw [hin₁] at hsame hin'
    refine ⟨hsame, fun v hv => ?_, hfaithful, hin', hb₂⟩
    rw [hsame] at hv
    exact (fresh_eq_ok hcs hplain hv).1
  have hstart : S b (.ofHeap h) := ⟨hb, hin, rfl⟩
  obtain ⟨hsame, hfaithful, hin', -⟩ :=
    (quiet_definitionPlan hcs hplain hd).follow_rel (S := S) hwork hinner hstart
  rw [fresh_entered hd hnew]
  exact ⟨hsame, hfaithful, hin'⟩

/-- for an id that can be built, the ids that have led to it make no difference -/
theorem fresh_of_lead (hroom : c.Roomy room inFlight)
    (hlead : c.Defines id → ∀ i ∈ inFlight, TransGen c.Refers i id) {room' : Nat}
    {inFlight' : List String} {v : Value} (hv : c.fresh h room' inFlight' id = .ok v) :
    c.fresh h room inFlight id = c.fresh h c.registry.size [] id := by
  cases hd : c.registry.find? id with
  | none => rw [fresh_undefined hd, fresh_undefined hd]
  | some d =>
    have hid : Grounded c.Refers id := (fresh_eq_ok hcs hplain hv).2
    exact fresh_stable hcs hplain hid hroom fun i hi =>
      hid.not_reach (hlead (defines_of_find? hd) i hi)

/-- every look-up is answered as if there were no memory -/
theorem resolve_eq_fresh (room : Nat) (id : String) (b : Building σ) :
    c.Anew h room id b (c.resolve room id b) := by
  refine resolve_induction (P := c.Anew h) ?known ?undefined ?refused ?full ?entered room id b
  case known =>
    intro room id b v hv hb hroom hlead
    -- what is remembered was built with other ids in flight, if any
    have hfresh : c.fresh h c.registry.size [] id = .ok v := hb.memory id v hv
    refine ⟨?_, hb, rfl⟩
    rw [fresh_of_lead hcs hplain hroom hlead hfresh, hfresh]
  case undefined =>
    intro room id b _ hd hb _ _
    exact ⟨(fresh_undefined hd).symm, hb, rfl⟩
  case refused =>
    intro room id b d _ hd hmem hb _ _
    exact ⟨(fresh_refused hd hmem).symm, hb, rfl⟩
  case full =>
    intro id b d _ hd hnew hb _ _
    exact ⟨(fresh_full hd hnew).symm, hb, rfl⟩
  case entered =>
    intro room id b d _ hd hnew answers hb hroom hlead
    have hentered : c.Faithful h { b with inFlight := b.inFlight ++ [id] } := ⟨hb.heap, hb.memory⟩
    obtain ⟨hsame, hfaithful, hin⟩ := follow_eq_fresh hcs hplain answers hd hroom
      (hlead (defines_of_find? hd)) hnew hentered rfl
    refine ⟨(leave_fst _ _).trans hsame, hfaithful.leave fun v hv => ?_, ?_⟩
    · have hid : d.id = id := Registry.id_of_find? hd
      rw [hsame] at hv
      rw [hid, ← fresh_of_lead hcs hplain hroom hlead hv, hv]
    · rw [leave_inFlight, hin, List.dropLast_concat]

end

/-- the answer to a look-up from outside when nothing is remembered -/
def getFresh (c : Container σ) (h : Heap σ) (id : String) : Except ContainerError Value :=
  if c.has id then c.fresh h c.registry.size [] id else .error (.unknownService id)

def getAll (c : Container σ) :
    List String → Building σ → List (Except ContainerError Value) × Building σ
  | [], b => ([], b)
  | id :: ids, b =>
    let (answer, b) := c.get id b
    let (answers, b) := getAll c ids b
    (answer :: answers, b)

section
variable (hcs : c.constructors.Pure) (hplain : c.Plain)
include hcs hplain

theorem get_eq_fresh {b : Building σ} (hb : c.Faithful h b) (hin : b.inFlight = [])
    (id : String) :
    (c.get id b).1 = c.getFresh h id ∧ c.Faithful h (c.get id b).2 ∧
      (c.get id b).2.inFlight = [] := by
  unfold get getWith getFresh
  split
  · have hroom : c.Roomy c.registry.size b.inFlight := by
      rw [hin]
      exact Roomy.nil c
    have hlead : ∀ i ∈ b.inFlight, TransGen c.Refers i id := by
      rw [hin]
      exact List.forall_mem_nil _
    have hanswer := resolve_eq_fresh hcs hplain c.registry.size id b hb hroom (fun _ => hlead)
    rw [hin] at hanswer
    exact hanswer
  · exact ⟨rfl, hb, hin⟩

/-- every look-up of a series is answered as if it were the first -/
theorem getAll_eq_fresh (ids : List String) {b : Building σ} (hb : c.Faithful h b)
    (hin : b.inFlight = []) : (c.getAll ids b).1 = ids.map (c.getFresh h) := by
  induction ids generalizing b with
  | nil => rfl
  | cons id ids ih =>
    obtain ⟨hanswer, hfaithful, hin'⟩ := get_eq_fresh hcs hplain hb hin id
    show (c.get id b).1 :: (c.getAll ids (c.get id b).2).1 = _
    rw [hanswer, ih hfaithful hin', List.map_cons]

end

end Container
end ServiceGraph
