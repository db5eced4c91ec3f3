import ServiceGraph.Proofs.Container.Plan

/-!
# What happens while services are built

A run of a client is recorded as the list of its events, those of nested look-ups included.

* `Event`: ids enter, definitions are finished, look-ups are answered;
* `Plan.record`, `Container.recordResolve`: carrying a plan out and resolving an id, together with
  the events;
* `Container.recordResolve_fst`, `Container.record_client`: the record changes nothing;
* `Container.trace`: the events of a client that has a fresh container to ask;
* `Container.Kept`, `Kept.recordResolve`, `Kept.trace`: what is kept by every step is kept by every
  look-up and every run.
-/

namespace ServiceGraph

/-- something that happens while services are built -/
inductive Event where
  /-- an id is entered: the ids in flight with it -/
  | entered (inFlight : List String)
  /-- the root and the setup of a definition came to their end without an error -/
  | built (id : String) (v : Value)
  /-- a look-up of an id, from outside, by a constructor or by a reference, is answered -/
  | answered (id : String) (result : Except ContainerError Value)

/-- work on the state of building that is recorded: what it gives, the state it leaves and the
events -/
abbrev Recorded (σ α : Type) :=
  Building σ → (Except ContainerError α × Building σ) × List Event

/-- carry a plan out and record what happens, given how services are resolved -/
def Plan.record {σ α : Type} (resolve : String → Recorded σ Value) : Plan σ α → Recorded σ α
  | done result, b => ((result, b), [])
  | ask id next, b =>
    let (o, before) := resolve id b
    let (last, after) := record resolve (next o.1) o.2
    (last, before ++ after)
  | act work next, b =>
    record resolve (next (work b.heap).1) { b with heap := (work b.heap).2 }

namespace Container

variable {σ : Type}

/-- what is left when an id was entered and its definition was worked on -/
def leave (d : Definition) (o : Except ContainerError Value × Building σ) :
    Except ContainerError Value × Building σ :=
  match o with
  | (.ok v, b) =>
    (.ok v,
      { b with
        instances := if d.shared then b.instances.insert d.id v else b.instances
        inFlight := b.inFlight.dropLast })
  | (.error e, b) => (.error e, { b with inFlight := b.inFlight.dropLast })

/-- the events at the end of the work on a definition -/
def leaveEvents (d : Definition) : Except ContainerError Value → List Event
  | .ok v => [.built d.id v]
  | .error _ => []

/-- resolve an id that is not built and has a definition, given how the definition is worked on -/
def recordEntering (d : Definition) (id : String) (work : Recorded σ Value) : Recorded σ Value :=
  fun b =>
    match Building.enter b.inFlight id with
    | .error e => ((.error e, b), [.answered id (.error e)])
    | .ok inFlight =>
      let (o, events) := work { b with inFlight }
      (leave d o, .entered inFlight :: events ++ leaveEvents d o.1 ++ [Event.answered id o.1])

/-- resolve an id and record what happens; `room` as in `Container.resolve` -/
def recordResolve (c : Container σ) : (room : Nat) → String → Recorded σ Value
  | room, id, b =>
    match b.instances.get? id, c.registry.find? id with
    | some v, _ => ((.ok v, b), [.answered id (.ok v)])
    | none, none => ((.error (.unknownService id), b), [.answered id (.error (.unknownService id))])
    | none, some d =>
      match room with
      | 0 => recordEntering d id (fun b => ((.error (.unknownService id), b), [])) b
      | room + 1 => recordEntering d id ((c.definitionPlan d).record (recordResolve c room)) b

/-- the events of a client that has a container to ask, when nothing is built yet -/
def trace (c : Container σ) (client : Construction σ) (h : Heap σ) : List Event :=
  ((client.plan c).record (c.recordResolve c.registry.size) (.ofHeap h)).2

end Container

/-! ## the record changes nothing -/

theorem Plan.record_fst {σ α : Type} {resolve : String → Build σ Value}
    {recorded : String → Recorded σ Value} (h : ∀ id b, (recorded id b).1 = resolve id b)
    (p : Plan σ α) (b : Building σ) : (p.record recorded b).1 = p.follow resolve b := by
  induction p generalizing b with
  | done r => rfl
  | ask id next ih =>
    show ((next (recorded id b).1.1).record recorded (recorded id b).1.2).1 = _
    rw [h, ih]
    rfl
  | act work next ih => exact ih _ _

theorem Build.bind_apply {σ α β : Type} (x : Build σ α) (f : α → Build σ β) (b : Building σ) :
    (x >>= f) b =
      match x b with
      | (.ok a, b) => f a b
      | (.error e, b) => (.error e, b) := by
  show (ExceptT.bindCont f (x b).1) (x b).2 = _
  cases x b with
  | mk r b =>
    cases r with
    | ok a => rfl
    | error e => rfl

namespace Container

variable {σ : Type}

theorem recordEntering_fst (d : Definition) (id : String) (work : Recorded σ Value)
    (plain : Build σ Value) (h : ∀ b, (work b).1 = plain b) (b : Building σ) :
    (recordEntering d id work b).1 =
      Build.within id (do
        let v ← plain
        if d.shared then modify fun b => { b with instances := b.instances.insert d.id v }
        return v) b := by
  unfold recordEntering Build.within
  cases Building.enter b.inFlight id with
  | error e => rfl
  | ok inFlight =>
    show leave d (work { b with inFlight }).1 = _
    rw [h]
    show leave d (plain { b with inFlight }) = _
    simp only [Build.bind_apply]
    cases plain { b with inFlight } with
    | mk r after =>
      cases r with
      | error e => rfl
      | ok v => by_cases hs : d.shared <;> simp [leave, hs] <;> rfl

/-- resolving when something is built, nothing is defined, or a definition is worked on -/
theorem resolve_eq (c : Container σ) (room : Nat) (id : String) (b : Building σ) :
    c.resolve room id b =
      match b.instances.get? id, c.registry.find? id with
      | some v, _ => (.ok v, b)
      | none, none => (.error (.unknownService id), b)
      | none, some d =>
        match room with
        | 0 => Build.within id (throw (.unknownService id)) b
        | room + 1 => Build.within id (build c (resolve c room) d) b := by
  cases room with
  | zero =>
    show (match b.instances.get? id, c.registry.find? id with
      | some v, _ => pure v
      | none, none => throw (.unknownService id)
      | none, some _ => Build.within id (throw (.unknownService id)) : Build σ Value) b = _
    cases b.instances.get? id <;> cases c.registry.find? id <;> rfl
  | succ room =>
    show (match b.instances.get? id, c.registry.find? id with
      | some v, _ => pure v
      | none, none => throw (.unknownService id)
      | none, some d => Build.within id (build c (resolve c room) d) : Build σ Value) b = _
    cases b.instances.get? id <;> cases c.registry.find? id <;> rfl

theorem recordResolve_fst (c : Container σ) (room : Nat) (id : String) (b : Building σ) :
    (c.recordResolve room id b).1 = c.resolve room id b := by
  induction room generalizing id b with
  | zero =>
    rw [resolve_eq, recordResolve]
    cases b.instances.get? id with
    | some v => rfl
    | none =>
      cases c.registry.find? id with
      | none => rfl
      | some d =>
        exact recordEntering_fst d id (fun b => ((.error (.unknownService id), b), []))
          (throw (.unknownService id)) (fun _ => rfl) b
  | succ room ih =>
    rw [resolve_eq, recordResolve]
    cases b.instances.get? id with
    | some v => rfl
    | none =>
      cases c.registry.find? id with
      | none => rfl
      | some d =>
        show (recordEntering d id _ b).1 = Build.within id (build c (resolve c room) d) b
        rw [build_eq]
        exact recordEntering_fst d id _ _ (fun b => Plan.record_fst ih _ b) b

theorem leave_fst (d : Definition) (o : Except ContainerError Value × Building σ) :
    (leave d o).1 = o.1 := by
  obtain ⟨r, b⟩ := o
  cases r <;> rfl

theorem recordEntering_answered (d : Definition) (id : String) (work : Recorded σ Value)
    (b : Building σ) :
    Event.answered id (recordEntering d id work b).1.1 ∈ (recordEntering d id work b).2 := by
  unfold recordEntering
  cases Building.enter b.inFlight id with
  | error e => exact List.mem_singleton_self _
  | ok inFlight =>
    show Event.answered id (leave d (work { b with inFlight }).1).1 ∈ _
    rw [leave_fst]
    exact List.mem_append_right _ (List.mem_singleton_self _)

/-- what a look-up gives is among its events -/
theorem recordResolve_answered (c : Container σ) (room : Nat) (id : String) (b : Building σ) :
    Event.answered id (c.recordResolve room id b).1.1 ∈ (c.recordResolve room id b).2 := by
  unfold recordResolve
  cases b.instances.get? id with
  | some v => exact List.mem_singleton_self _
  | none =>
    cases c.registry.find? id with
    | none => exact List.mem_singleton_self _
    | some d => cases room <;> exact recordEntering_answered d id _ b

/-- the recorded run of a client is its run -/
theorem record_client (c : Container σ) (client : Construction σ) (b : Building σ) :
    ((client.plan c).record (c.recordResolve c.registry.size) b).1 = c.construct client b := by
  rw [construct, run_eq_follow]
  exact Plan.record_fst (c.recordResolve_fst _) _ b

end Container

/-! ## the ids in flight -/

namespace Building

theorem enter_eq_ok {inFlight inFlight' : List String} {id : String}
    (h : enter inFlight id = .ok inFlight') : id ∉ inFlight ∧ inFlight' = inFlight ++ [id] := by
  unfold enter at h
  split at h
  · cases h
  · next hc =>
    cases h
    exact ⟨by simpa using hc, rfl⟩

end Building

theorem Container.leave_inFlight {σ : Type} (d : Definition)
    (o : Except ContainerError Value × Building σ) :
    (leave d o).2.inFlight = o.2.inFlight.dropLast := by
  obtain ⟨r, b⟩ := o
  cases r <;> rfl

/-! ## what every look-up keeps -/

/-- a relation between a state, the events that follow and the state after them is kept by the
plans when every look-up keeps it -/
theorem Plan.record_keeps {σ α : Type} {P : Building σ → List Event → Building σ → Prop}
    (heap : ∀ b h, P b [] { b with heap := h })
    (trans : ∀ b s b' s' b'', P b s b' → P b' s' b'' → P b (s ++ s') b'')
    {resolve : String → Recorded σ Value}
    (kept : ∀ id b, P b (resolve id b).2 (resolve id b).1.2) (p : Plan σ α) (b : Building σ) :
    P b (p.record resolve b).2 (p.record resolve b).1.2 := by
  induction p generalizing b with
  | done r => exact heap b b.heap
  | ask id next ih =>
    have hlast := ih (resolve id b).1.1 (resolve id b).1.2
    exact trans _ _ _ _ _ (kept id b) hlast
  | act work next ih =>
    have hlast := ih (work b.heap).1 { b with heap := (work b.heap).2 }
    exact trans _ _ _ _ _ (heap b (work b.heap).2) hlast

namespace Container

variable {σ : Type}

/-- what has to be shown of a relation so that every look-up of a container keeps it -/
structure Kept (c : Container σ) (P : Building σ → List Event → Building σ → Prop) : Prop where
  heap : ∀ b h, P b [] { b with heap := h }
  trans : ∀ b s b' s' b'', P b s b' → P b' s' b'' → P b (s ++ s') b''
  /-- what is built already is handed out -/
  known : ∀ b id v, b.instances.get? id = some v → P b [.answered id (.ok v)] b
  /-- an id is refused without being entered -/
  refused : ∀ b id e, b.instances.get? id = none → P b [.answered id (.error e)] b
  /-- an id is entered and left again -/
  entered : ∀ b id d inFlight o events, b.instances.get? id = none →
    c.registry.find? id = some d → Building.enter b.inFlight id = .ok inFlight →
    P { b with inFlight } events o.2 →
    P b (.entered inFlight :: events ++ leaveEvents d o.1 ++ [Event.answered id o.1]) (leave d o).2

theorem Kept.recordEntering {c : Container σ} {P : Building σ → List Event → Building σ → Prop}
    (kept : c.Kept P) {d : Definition} {id : String} {work : Recorded σ Value}
    (hwork : ∀ b, P b (work b).2 (work b).1.2) {b : Building σ}
    (hi : b.instances.get? id = none) (hd : c.registry.find? id = some d) :
    P b (recordEntering d id work b).2 (recordEntering d id work b).1.2 := by
  unfold Container.recordEntering
  cases he : Building.enter b.inFlight id with
  | error e => exact kept.refused b id e hi
  | ok inFlight => exact kept.entered b id d inFlight _ _ hi hd he (hwork _)

/-- every look-up keeps the relation -/
theorem Kept.recordResolve {c : Container σ} {P : Building σ → List Event → Building σ → Prop}
    (kept : c.Kept P) (room : Nat) (id : String) (b : Building σ) :
    P b (c.recordResolve room id b).2 (c.recordResolve room id b).1.2 := by
  induction room generalizing id b with
  | zero =>
    rw [Container.recordResolve]
    cases hi : b.instances.get? id with
    | some v => exact kept.known b id v hi
    | none =>
      cases hd : c.registry.find? id with
      | none => exact kept.refused b id _ hi
      | some d => exact kept.recordEntering (fun b => kept.heap b b.heap) hi hd
  | succ room ih =>
    rw [Container.recordResolve]
    cases hi : b.instances.get? id with
    | some v => exact kept.known b id v hi
    | none =>
      cases hd : c.registry.find? id with
      | none => exact kept.refused b id _ hi
      | some d =>
        exact kept.recordEntering (Plan.record_keeps kept.heap kept.trans ih _) hi hd

/-- every client keeps the relation -/
theorem Kept.trace {c : Container σ} {P : Building σ → List Event → Building σ → Prop}
    (kept : c.Kept P) (client : Construction σ) (h : Heap σ) :
    P (.ofHeap h) (c.trace client h) (c.construct client (.ofHeap h)).2 := by
  rw [← record_client]
  exact Plan.record_keeps kept.heap kept.trans (kept.recordResolve _) _ _

end Container
end ServiceGraph
