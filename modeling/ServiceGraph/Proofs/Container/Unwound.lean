import ServiceGraph.Proofs.Container.Cycles

/-!
# Look-ups come to an end and unwind

`Container.resolve` carries room for the depth of its look-ups. The rules of building are given here
without it: a look-up enters an id whenever that id is defined, not built and not in flight.

* `Container.Ends c p b o`: by these rules the plan `p`, carried out from the state `b`, comes to `o`;
* `Container.Reaches c p b q b'`: on the way it comes to a point where `q` goes on from `b'`;
* `Container.Ends.unique`: there is at most one outcome;
* `Container.Orderly`: the ids in flight are distinct and defined, so that there are at most as many
  as there are definitions;
* `Container.ends_resolve`, `ends_follow`: then the rules come to what the container answers;
* `Container.Ends.inFlight_eq`, `Ends.instances`, `Reaches.orderly`: what is in flight and what is
  remembered, at the end and on the way;
* `Container.calls_unwind`: the result for the calls from outside.
-/

namespace ServiceGraph

namespace Container

variable {σ : Type} {c : Container σ} {p q : Plan σ Value} {b b' : Building σ} {id : String}
  {next : Except ContainerError Value → Plan σ Value} {inFlight : List String}
  {o o' : Except ContainerError Value × Building σ}

/-- what a plan comes to by the rules alone, however deep its look-ups get -/
inductive Ends (c : Container σ) :
    Plan σ Value → Building σ → Except ContainerError Value × Building σ → Prop where
  | done {r : Except ContainerError Value} {b : Building σ} : Ends c (.done r) b (r, b)
  | acted {work : Heap σ → Heap.Outcome σ} {next : Except ContainerError Value → Plan σ Value}
    {b : Building σ} {o : Except ContainerError Value × Building σ} :
    Ends c (next (work b.heap).1) { b with heap := (work b.heap).2 } o → Ends c (.act work next) b o
  | known {id : String} {next : Except ContainerError Value → Plan σ Value} {b : Building σ}
    {v : Value} {o : Except ContainerError Value × Building σ} :
    b.instances.get? id = some v → Ends c (next (.ok v)) b o → Ends c (.ask id next) b o
  | undefined {id : String} {next : Except ContainerError Value → Plan σ Value} {b : Building σ}
    {o : Except ContainerError Value × Building σ} :
    b.instances.get? id = none → c.registry.find? id = none →
      Ends c (next (.error (.unknownService id))) b o → Ends c (.ask id next) b o
  | refused {id : String} {next : Except ContainerError Value → Plan σ Value} {b : Building σ}
    {d : Definition} {o : Except ContainerError Value × Building σ} :
    b.instances.get? id = none → c.registry.find? id = some d → id ∈ b.inFlight →
      Ends c (next (.error (.circularDependency (b.inFlight.dropWhile (· ≠ id) ++ [id])))) b o →
      Ends c (.ask id next) b o
  | entered {id : String} {next : Except ContainerError Value → Plan σ Value} {b : Building σ}
    {d : Definition} {o o' : Except ContainerError Value × Building σ} :
    b.instances.get? id = none → c.registry.find? id = some d → id ∉ b.inFlight →
      Ends c (c.definitionPlan d) { b with inFlight := b.inFlight ++ [id] } o →
      Ends c (next (leave d o).1) (leave d o).2 o' → Ends c (.ask id next) b o'

/-- while a plan is carried out it comes to a point, perhaps deep inside its look-ups, where another
plan goes on from another state -/
inductive Reaches (c : Container σ) :
    Plan σ Value → Building σ → Plan σ Value → Building σ → Prop where
  | here {p : Plan σ Value} {b : Building σ} : Reaches c p b p b
  | acted {work : Heap σ → Heap.Outcome σ} {next : Except ContainerError Value → Plan σ Value}
    {b b' : Building σ} {q : Plan σ Value} :
    Reaches c (next (work b.heap).1) { b with heap := (work b.heap).2 } q b' →
      Reaches c (.act work next) b q b'
  | inside {id : String} {next : Except ContainerError Value → Plan σ Value} {b b' : Building σ}
    {d : Definition} {q : Plan σ Value} :
    b.instances.get? id = none → c.registry.find? id = some d → id ∉ b.inFlight →
      Reaches c (c.definitionPlan d) { b with inFlight := b.inFlight ++ [id] } q b' →
      Reaches c (.ask id next) b q b'
  | after {id : String} {next : Except ContainerError Value → Plan σ Value} {b b' : Building σ}
    {o : Except ContainerError Value × Building σ} {q : Plan σ Value} :
    Ends c (.ask id .done) b o → Reaches c (next o.1) o.2 q b' → Reaches c (.ask id next) b q b'

/-! ## the rules -/

/-- a plan that asks comes to what it goes on to with the answer -/
theorem Ends.ask (h : c.Ends (.ask id .done) b o) (hnext : c.Ends (next o.1) o.2 o') :
    c.Ends (.ask id next) b o' := by
  cases h with
  | known hi hdone =>
    cases hdone
    exact .known hi hnext
  | undefined hi hd hdone =>
    cases hdone
    exact .undefined hi hd hnext
  | refused hi hd hmem hdone =>
    cases hdone
    exact .refused hi hd hmem hnext
  | entered hi hd hnew hplan hdone =>
    cases hdone
    exact .entered hi hd hnew hplan hnext

theorem Ends.unique (h : c.Ends p b o) (h' : c.Ends p b o') : o = o' := by
  induction h generalizing o' with
  | done =>
    cases h'
    rfl
  | acted _ ih =>
    cases h' with
    | acted h' => exact ih h'
  | known hi _ ih =>
    cases h' with
    | known hi' h' =>
      cases hi.symm.trans hi'
      exact ih h'
    | undefined hi' _ _ | refused hi' _ _ _ | entered hi' _ _ _ _ => cases hi.symm.trans hi'
  | undefined hi hd _ ih =>
    cases h' with
    | known hi' _ => cases hi.symm.trans hi'
    | undefined _ _ h' => exact ih h'
    | refused _ hd' _ _ | entered _ hd' _ _ _ => cases hd.symm.trans hd'
  | refused hi hd hmem _ ih =>
    cases h' with
    | known hi' _ => cases hi.symm.trans hi'
    | undefined _ hd' _ => cases hd.symm.trans hd'
    | refused _ _ _ h' => exact ih h'
    | entered _ _ hnew' _ _ => exact absurd hmem hnew'
  | entered hi hd hnew _ _ ihplan ihnext =>
    cases h' with
    | known hi' _ => cases hi.symm.trans hi'
    | undefined _ hd' _ => cases hd.symm.trans hd'
    | refused _ _ hmem' _ => exact absurd hmem' hnew
    | entered _ hd' _ hplan' hnext' =>
      cases hd.symm.trans hd'
      cases ihplan hplan'
      exact ihnext hnext'

/-! ## what is left at the end -/

theorem Ends.inFlight_eq (h : c.Ends p b o) : o.2.inFlight = b.inFlight := by
  induction h with
  | done => rfl
  | acted _ ih | known _ _ ih | undefined _ _ _ ih | refused _ _ _ _ ih => exact ih
  | entered _ _ _ _ _ ihplan ihnext =>
    rw [ihnext, leave_inFlight, ihplan, List.dropLast_concat]

theorem Ends.instances (h : c.Ends p b o) {i : String} {v : Value}
    (hv : b.instances.get? i = some v) : o.2.instances.get? i = some v := by
  induction h with
  | done => exact hv
  | acted _ ih | known _ _ ih | undefined _ _ _ ih | refused _ _ _ _ ih => exact ih hv
  | @entered id _ b _ _ _ hi hd _ _ _ ihplan ihnext =>
    -- only the id that was entered may be written, and nothing was remembered of it
    have hne : id ≠ i := by
      rintro rfl
      cases hi.symm.trans hv
    exact ihnext ((leave_get?_of_ne hne (Registry.id_of_find? hd) _).trans (ihplan hv))

/-! ## the ids in flight -/

structure Orderly (c : Container σ) (inFlight : List String) : Prop where
  nodup : inFlight.Nodup
  defined : inFlight ⊆ c.registry.ids

theorem Orderly.roomy (h : c.Orderly inFlight) {room : Nat} (hroom : c.registry.size ≤ room) :
    c.Roomy room inFlight :=
  ⟨h.nodup, h.defined, hroom.trans (Nat.le_add_right _ _)⟩

theorem Orderly.enter (h : c.Orderly inFlight) (hid : c.Defines id) (hnew : id ∉ inFlight) :
    c.Orderly (inFlight ++ [id]) := by
  obtain ⟨hnodup, hdefined, -⟩ := (h.roomy (Nat.le_succ c.registry.size)).enter hid hnew
  exact ⟨hnodup, hdefined⟩

theorem Orderly.length_le (h : c.Orderly inFlight) : inFlight.length ≤ c.registry.size := by
  have hlength : inFlight.length ≤ c.registry.ids.length :=
    (List.subperm_of_subset h.nodup h.defined).length_le
  rwa [Registry.ids, List.length_map] at hlength

/-- however deep a plan gets, the ids in flight stay distinct and defined -/
theorem Reaches.orderly (h : c.Reaches p b q b') (hb : c.Orderly b.inFlight) :
    c.Orderly b'.inFlight := by
  induction h with
  | here => exact hb
  | acted _ ih => exact ih hb
  | inside _ hd hnew _ ih => exact ih (hb.enter (defines_of_find? hd) hnew)
  | after hends _ ih => exact ih (hends.inFlight_eq ▸ hb)

/-! ## the container comes to the end -/

/-- plans whose look-ups end come to their end -/
theorem ends_of_answers {resolve : String → Build σ Value}
    (answers : ∀ id b, b.inFlight = inFlight → c.Ends (.ask id .done) b (resolve id b))
    (p : Plan σ Value) (hb : b.inFlight = inFlight) : c.Ends p b (p.follow resolve b) := by
  induction p generalizing b with
  | done r => exact .done
  | ask id next ih =>
    have hlook : c.Ends (.ask id .done) b (resolve id b) := answers id b hb
    exact hlook.ask (ih _ (hlook.inFlight_eq.trans hb))
  | act work next ih => exact .acted (ih _ hb)

/-- with room for every id that is not in flight, a look-up comes to its end. The room is the
measure: each id that is entered takes one away, and where none is left all ids are in flight. -/
theorem ends_resolve (room : Nat) (id : String) (b : Building σ) (hroom : c.Roomy room b.inFlight) :
    c.Ends (.ask id .done) b (c.resolve room id b) := by
  refine resolve_induction
    (P := fun room id b o => c.Roomy room b.inFlight → c.Ends (.ask id .done) b o)
    ?known ?undefined ?refused ?full ?entered room id b hroom
  case known =>
    intro room id b v hi _
    exact .known hi .done
  case undefined =>
    intro room id b hi hd _
    exact .undefined hi hd .done
  case refused =>
    intro room id b d hi hd hmem _
    exact .refused hi hd hmem .done
  case full =>
    intro id b d _ hd hnew hroom
    exact absurd (hroom.mem_of_zero (defines_of_find? hd)) hnew
  case entered =>
    intro room id b d hi hd hnew answers hroom
    have hinner : c.Roomy room (b.inFlight ++ [id]) := hroom.enter (defines_of_find? hd) hnew
    refine .entered hi hd hnew ?_ .done
    exact ends_of_answers (fun other b' hb' => answers other b' (hb' ▸ hinner)) _ rfl

theorem ends_resolveFresh (hb : c.Orderly b.inFlight) (id : String) :
    c.Ends (.ask id .done) b (c.resolveFresh id b) :=
  ends_resolve _ id b (hb.roomy (Nat.le_refl _))

theorem ends_follow (hb : c.Orderly b.inFlight) (p : Plan σ Value) :
    c.Ends p b (p.follow c.resolveFresh b) :=
  ends_of_answers (fun id _ hb' => ends_resolveFresh (hb' ▸ hb) id) p rfl

/-- carrying a plan out comes to an end, leaves the ids in flight as they were and what was
remembered unchanged -/
structure Unwinds (c : Container σ) (p : Plan σ Value) (b : Building σ)
    (o : Except ContainerError Value × Building σ) : Prop where
  ends : ∀ o', c.Ends p b o' ↔ o' = o
  inFlight : o.2.inFlight = b.inFlight
  instances : ∀ i v, b.instances.get? i = some v → o.2.instances.get? i = some v

theorem Ends.unwinds (h : c.Ends p b o) : c.Unwinds p b o where
  ends _ := ⟨fun h' => h'.unique h, fun heq => heq ▸ h⟩
  inFlight := h.inFlight_eq
  instances _ _ hv := h.instances hv

/-! ## calls from outside -/

inductive Call where
  | get (id : String)
  | evaluate (n : Node)

def Call.run (c : Container σ) : Call → Build σ Value
  | get id => c.get id
  | evaluate n => c.value n

def Call.plan (c : Container σ) : Call → Plan σ Value
  | get id => (Construction.get id .done).plan c
  | evaluate n => c.plan n

theorem Call.run_eq_follow (call : Call) : call.run c = (call.plan c).follow c.resolveFresh := by
  cases call with
  | get id => exact c.run_eq_follow c.resolveFresh (.get id .done)
  | evaluate n => exact c.evaluate_eq_follow c.resolveFresh n

/-- **Calls come to an end and unwind.** Whatever the constructors look up and whatever errors they
swallow, a call ends as the rules say. While it runs the ids in flight are distinct and at most as
many as there are definitions. The call and every look-up inside of it leave the ids in flight as
they were, and change nothing that was remembered when they began. -/
theorem calls_unwind (hb : c.Orderly b.inFlight) (call : Call) :
    c.Unwinds (call.plan c) b (call.run c b) ∧
    ∀ q b', c.Reaches (call.plan c) b q b' →
      b'.inFlight.Nodup ∧ b'.inFlight.length ≤ c.registry.size ∧
      ∀ id next, q = .ask id next → c.Unwinds (.ask id .done) b' (c.resolveFresh id b') := by
  rw [call.run_eq_follow]
  refine ⟨(ends_follow hb _).unwinds, fun q b' hreach => ?_⟩
  have hb' : c.Orderly b'.inFlight := hreach.orderly hb
  exact ⟨hb'.nodup, hb'.length_le, fun id _ _ => (ends_resolveFresh hb' id).unwinds⟩

/-- `b` is being built for `a`, nothing is finished -/
def midway : Building Empty := { Building.ofHeap .empty with inFlight := ["a", "b"] }

theorem midway_unwinds :
    looped.Orderly midway.inFlight ∧
    (Call.get "c").run looped midway = (.error (.circularDependency ["a", "b", "c", "a"]), midway) ∧
    looped.Unwinds ((Call.get "c").plan looped) midway ((Call.get "c").run looped midway) ∧
    ∀ q b', looped.Reaches ((Call.get "c").plan looped) midway q b' →
      b'.inFlight.Nodup ∧ b'.inFlight.length ≤ looped.registry.size ∧
      ∀ id next, q = .ask id next → looped.Unwinds (.ask id .done) b' (looped.resolveFresh id b') := by
  have hb : looped.Orderly midway.inFlight := ⟨by decide, by decide⟩
  exact ⟨hb, rfl, calls_unwind hb (.get "c")⟩

end Container
end ServiceGraph
