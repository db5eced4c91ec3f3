import ServiceGraph.Proofs.Container.Opening
import ServiceGraph.Proofs.Container.Trace
import Mathlib.Data.List.Nodup
import Mathlib.Data.List.Perm.Subperm

/-!
# Errors of wiring

Some errors say that the definitions do not fit together: a service, a constructor or a parameter
is not there, or a constructor is given too many or too few arguments. Here is what keeps them out
of a run.

* `ContainerError.Wiring`: such an error; `Settled`: an answer that is not one;
* `Construction.Faultless`: a constructor that does not come up with such an error by itself;
* `Plan.Within`: a plan that asks for defined services only, and ends as it should when it gets
  settled answers;
* `Container.recordResolve_settled`: when the plans of all definitions are of that kind, every
  look-up of a defined service is settled, and those inside of it too;
* `Container.trace_settled`: the same for a client.
-/

namespace ServiceGraph

/-- the definitions do not fit together -/
def ContainerError.Wiring : ContainerError → Prop
  | .unknownService _ | .unknownCallable _ | .arityMismatch _ _ _ | .parameter _ => True
  | _ => False

def Settled {α : Type} (r : Except ContainerError α) : Prop :=
  ∀ e, r = .error e → ¬ e.Wiring

theorem settled_ok {α : Type} (a : α) : Settled (.ok a) := fun _ he => nomatch he

theorem settled_error {α : Type} {e : ContainerError} (h : ¬ e.Wiring) :
    Settled (.error e : Except ContainerError α) := by
  intro e' he
  cases he
  exact h

theorem Settled.error_as {α β : Type} {e : ContainerError}
    (h : Settled (.error e : Except ContainerError α)) :
    Settled (.error e : Except ContainerError β) := settled_error (h e rfl)

/-- the answer that an event gives, if it gives one, is settled -/
def Event.Settled : Event → Prop
  | answered _ r => ServiceGraph.Settled r
  | _ => True

/-- a constructor that ends with an error of wiring only if it got one, and that lives with the
refusal of a service that is not public -/
def Construction.Faultless {σ : Type} (c : Container σ) : Construction σ → Prop
  | done r => Settled r
  | get id next =>
    if c.has id then ∀ r, Settled r → Faultless c (next r)
    else Faultless c (next (.error (.unknownService id)))
  | act work next => ∀ h, Faultless c (next (work h).1)

namespace Plan

variable {σ α β : Type} {known : String → Prop}

/-- the plan asks for known services only, and ends in `R` when the answers are settled -/
def Within (known : String → Prop) (R : Except ContainerError α → Prop) : Plan σ α → Prop
  | done r => R r
  | ask id next => known id ∧ ∀ r, Settled r → Within known R (next r)
  | act work next => ∀ h, Within known R (next (work h).1)

theorem Within.bind {R : Except ContainerError α → Prop} {S : Except ContainerError β → Prop}
    {p : Plan σ α} {f : α → Plan σ β} (hp : p.Within known R)
    (hok : ∀ a, R (.ok a) → (f a).Within known S) (herror : ∀ e, R (.error e) → S (.error e)) :
    (p >>= f).Within known S := by
  induction p with
  | done r =>
    cases r with
    | ok a => exact hok a hp
    | error e => exact herror e hp
  | ask id next ih => exact ⟨hp.1, fun r hr => ih r (hp.2 r hr)⟩
  | act work next ih => exact fun h => ih _ (hp h)

/-- a plan that is carried out where look-ups of known services are settled -/
theorem Within.record {I : Building σ → Prop} (heap : ∀ b h, I b → I { b with heap := h })
    {resolve : String → Recorded σ Value}
    (answers : ∀ id b, known id → I b →
      Settled (resolve id b).1.1 ∧ (∀ e ∈ (resolve id b).2, e.Settled) ∧ I (resolve id b).1.2)
    {R : Except ContainerError α → Prop} {p : Plan σ α} (hp : p.Within known R) {b : Building σ}
    (hb : I b) :
    R (p.record resolve b).1.1 ∧ (∀ e ∈ (p.record resolve b).2, e.Settled) ∧
      I (p.record resolve b).1.2 := by
  induction p generalizing b with
  | done r => exact ⟨hp, fun e he => (by cases he), hb⟩
  | ask id next ih =>
    obtain ⟨hanswer, hbefore, hinv⟩ := answers id b hp.1 hb
    obtain ⟨hlast, hafter, hend⟩ := ih _ (hp.2 _ hanswer) hinv
    refine ⟨hlast, fun e he => ?_, hend⟩
    rcases List.mem_append.mp he with he | he
    · exact hbefore e he
    · exact hafter e he
  | act work next ih => exact ih _ (hp b.heap) (heap b _ hb)

end Plan

namespace Container

variable {σ : Type} {c : Container σ}

def Defines (c : Container σ) (id : String) : Prop := c.registry.has id = true

theorem defines_of_find? {id : String} {d : Definition} (h : c.registry.find? id = some d) :
    c.Defines id := Option.isSome_iff_exists.mpr ⟨d, h⟩

theorem defines_of_has {id : String} (h : c.has id = true) : c.Defines id := by
  unfold has publicDefinition? at h
  unfold Defines Registry.has
  cases hd : c.registry.find? id with
  | some d => rfl
  | none =>
    rw [hd] at h
    cases h

end Container

/-- a client asks for defined services only, whatever it makes of the answers -/
theorem Construction.within {σ : Type} {c : Container σ} (k : Construction σ) :
    (k.plan c).Within c.Defines fun _ => True := by
  induction k with
  | done r => trivial
  | get id next ih =>
    unfold plan
    by_cases h : c.has id
    · rw [if_pos h]
      exact ⟨Container.defines_of_has h, fun r _ => ih r⟩
    · rw [if_neg h]
      exact ih _
  | act work next ih => exact fun h => ih _

theorem Construction.Faultless.within {σ : Type} {c : Container σ} {k : Construction σ}
    (hk : k.Faultless c) : (k.plan c).Within c.Defines Settled := by
  induction k with
  | done r => exact hk
  | get id next ih =>
    unfold Construction.plan
    unfold Faultless at hk
    by_cases h : c.has id
    · rw [if_pos h] at hk ⊢
      exact ⟨Container.defines_of_has h, fun r hr => ih r (hk r hr)⟩
    · rw [if_neg h] at hk ⊢
      exact ih _ hk
  | act work next ih => exact fun h => ih _ (hk h)

namespace Container

variable {σ : Type} {c : Container σ}

/-! ## look-ups -/

/-- the ids in flight leave room for that many of the other ids -/
def Roomy (c : Container σ) (room : Nat) (inFlight : List String) : Prop :=
  inFlight.Nodup ∧ inFlight ⊆ c.registry.ids ∧ c.registry.size ≤ room + inFlight.length

theorem Roomy.nil (c : Container σ) : c.Roomy c.registry.size [] :=
  ⟨List.nodup_nil, List.nil_subset _, Nat.le_add_right _ _⟩

theorem Roomy.enter {room : Nat} {inFlight : List String} (h : c.Roomy (room + 1) inFlight)
    {id : String} (hid : c.Defines id) (hnew : id ∉ inFlight) :
    c.Roomy room (inFlight ++ [id]) := by
  obtain ⟨hnodup, hsub, hroom⟩ := h
  refine ⟨?_, ?_, ?_⟩
  · exact List.nodup_append.mpr ⟨hnodup, List.nodup_singleton _, fun a ha b hb hab => hnew (by
      rwa [← List.mem_singleton.mp hb, ← hab])⟩
  · intro i hi
    rcases List.mem_append.mp hi with hi | hi
    · exact hsub hi
    · rw [List.mem_singleton.mp hi]
      exact Registry.has_iff_mem_ids.mp hid
  · rw [List.length_append, List.length_singleton]
    omega

/-- without room every defined id is in flight -/
theorem Roomy.mem_of_zero {inFlight : List String} (h : c.Roomy 0 inFlight) {id : String}
    (hid : c.Defines id) : id ∈ inFlight := by
  obtain ⟨hnodup, hsub, hroom⟩ := h
  by_contra hnew
  have hcons : (id :: inFlight).Nodup := List.nodup_cons.mpr ⟨hnew, hnodup⟩
  have hsub' : id :: inFlight ⊆ c.registry.ids := by
    intro i hi
    rcases List.mem_cons.mp hi with rfl | hi
    · exact Registry.has_iff_mem_ids.mp hid
    · exact hsub hi
  have hle : (id :: inFlight).length ≤ c.registry.ids.length :=
    (List.subperm_of_subset hcons hsub').length_le
  have hsize : c.registry.ids.length = c.registry.size := List.length_map _
  rw [List.length_cons] at hle
  omega

/-- what an id and the work on it leave behind is settled -/
theorem recordEntering_settled {d : Definition} {id : String} {work : Recorded σ Value}
    {b : Building σ}
    (hwork : ∀ inFlight, Building.enter b.inFlight id = .ok inFlight →
      Settled (work { b with inFlight }).1.1 ∧
      (∀ e ∈ (work { b with inFlight }).2, e.Settled) ∧
      (work { b with inFlight }).1.2.inFlight = inFlight) :
    Settled (recordEntering d id work b).1.1 ∧
    (∀ e ∈ (recordEntering d id work b).2, e.Settled) ∧
    (recordEntering d id work b).1.2.inFlight = b.inFlight := by
  unfold recordEntering
  cases he : Building.enter b.inFlight id with
  | error e =>
    have hcycle : Settled (.error e : Except ContainerError Value) := by
      unfold Building.enter at he
      split at he
      · cases he
        exact settled_error fun h => h
      · cases he
    refine ⟨hcycle, fun e' he' => ?_, rfl⟩
    rw [List.mem_singleton.mp he']
    exact hcycle
  | ok inFlight =>
    obtain ⟨hlast, hevents, hin⟩ := hwork inFlight he
    refine ⟨?_, fun e he' => ?_, ?_⟩
    · show Settled (leave d (work { b with inFlight }).1).1
      rw [leave_fst]
      exact hlast
    · have he' : e ∈ .entered inFlight :: (work { b with inFlight }).2 ++
        leaveEvents d (work { b with inFlight }).1.1 ++
          [.answered id (work { b with inFlight }).1.1] := he'
      rw [List.mem_append, List.mem_append, List.mem_cons, List.mem_singleton] at he'
      rcases he' with ((rfl | he') | he') | rfl
      · trivial
      · exact hevents e he'
      · cases hr : (work { b with inFlight }).1.1 with
        | ok v =>
          rw [hr] at he'
          rw [List.mem_singleton.mp he']
          trivial
        | error err =>
          rw [hr] at he'
          cases he'
      · exact hlast
    · show (leave d (work { b with inFlight }).1).2.inFlight = b.inFlight
      rw [leave_inFlight, hin, (Building.enter_eq_ok he).2, List.dropLast_concat]

theorem recordResolve_settled
    (hplans : ∀ id d, c.registry.find? id = some d →
      (c.definitionPlan d).Within c.Defines Settled)
    {room : Nat} {id : String} {b : Building σ} (hid : c.Defines id)
    (hroom : c.Roomy room b.inFlight) :
    Settled (c.recordResolve room id b).1.1 ∧
    (∀ e ∈ (c.recordResolve room id b).2, e.Settled) ∧
    (c.recordResolve room id b).1.2.inFlight = b.inFlight := by
  obtain ⟨d, hd⟩ : ∃ d, c.registry.find? id = some d := Option.isSome_iff_exists.mp hid
  induction room generalizing id d b with
  | zero =>
    rw [recordResolve]
    cases b.instances.get? id with
    | some v => exact ⟨settled_ok v, fun e he => List.mem_singleton.mp he ▸ settled_ok v, rfl⟩
    | none =>
      rw [hd]
      -- all ids are in flight, so this one is refused as a cycle before the room matters
      refine recordEntering_settled fun inFlight he => ?_
      exact absurd (hroom.mem_of_zero hid) (Building.enter_eq_ok he).1
  | succ room ih =>
    rw [recordResolve]
    cases b.instances.get? id with
    | some v => exact ⟨settled_ok v, fun e he => List.mem_singleton.mp he ▸ settled_ok v, rfl⟩
    | none =>
      rw [hd]
      refine recordEntering_settled fun inFlight he => ?_
      obtain ⟨hnew, rfl⟩ := Building.enter_eq_ok he
      have hroom' : c.Roomy room (b.inFlight ++ [id]) := hroom.enter hid hnew
      refine (hplans id d hd).record (I := fun b' => b'.inFlight = b.inFlight ++ [id])
        (fun _ _ h => h) (fun i b' hi hb' => ?_) rfl
      obtain ⟨d', hd'⟩ : ∃ d', c.registry.find? i = some d' := Option.isSome_iff_exists.mp hi
      have hinner := ih (b := b') hi (hb' ▸ hroom') d' hd'
      exact ⟨hinner.1, hinner.2.1, hinner.2.2.trans hb'⟩

/-- no look-up of a client, however deep, ends with an error of wiring -/
theorem trace_settled
    (hplans : ∀ id d, c.registry.find? id = some d →
      (c.definitionPlan d).Within c.Defines Settled)
    (client : Construction σ) (h : Heap σ) : ∀ e ∈ c.trace client h, e.Settled := by
  have hroom : c.Roomy c.registry.size [] := Roomy.nil c
  have hclient : (client.plan c).Within c.Defines fun _ => True := client.within
  refine (hclient.record (I := fun b => b.inFlight = []) (fun _ _ hb => hb)
    (fun id b hid hb => ?_) rfl).2.1
  have hinner := recordResolve_settled hplans (b := b) hid (hb ▸ hroom)
  exact ⟨hinner.1, hinner.2.1, hinner.2.2.trans hb⟩

end Container
end ServiceGraph
