import ServiceGraph.Proofs.Container.Opening
import ServiceGraph.Proofs.Container.Trace
import Mathlib.Data.List.Basic

/-!
# Shared services are built once

Whatever a client and the constructors do with a container, and whatever errors they swallow, a
shared definition is worked on to the end at most once, and what it then gave is handed out from
there on.

* `Remembers id m events m'`: the events treat the memory of `id` as a cell that is written once.
  It goes from `m` to `m'`; an answer is an error while the cell is empty and its content after;
* `Container.kept_sharing`: every look-up keeps to that cell, and leaves it empty while the id is in
  flight;
* `Container.shared_built_once`: the result for every run.
-/

namespace ServiceGraph

namespace Event

/-- the value of a definition that came to its end -/
def built? (id : String) : Event → Option Value
  | built i v => if i = id then some v else none
  | _ => none

def concerns (id : String) : Event → Prop
  | entered _ => False
  | built i _ => i = id
  | answered i _ => i = id

theorem built?_eq_none {id : String} {e : Event} (he : ¬ e.concerns id) : built? id e = none := by
  cases e with
  | entered _ => rfl
  | built i v => exact if_neg he
  | answered _ _ => rfl

end Event

/-- events that treat the memory of an id as a cell that is written once -/
inductive Remembers (id : String) : Option Value → List Event → Option Value → Prop where
  | nil {m : Option Value} : Remembers id m [] m
  | other {m m' : Option Value} {e : Event} {es : List Event} :
    ¬ e.concerns id → Remembers id m es m' → Remembers id m (e :: es) m'
  | built {v : Value} {m : Option Value} {es : List Event} :
    Remembers id (some v) es m → Remembers id none (.built id v :: es) m
  | handedOut {v : Value} {m : Option Value} {es : List Event} :
    Remembers id (some v) es m → Remembers id (some v) (.answered id (.ok v) :: es) m
  | failed {e : ContainerError} {m : Option Value} {es : List Event} :
    Remembers id none es m → Remembers id none (.answered id (.error e) :: es) m

namespace Remembers

variable {id : String} {m m' m'' : Option Value} {es es' : List Event} {v : Value}

theorem append (h : Remembers id m es m') (h' : Remembers id m' es' m'') :
    Remembers id m (es ++ es') m'' := by
  induction h with
  | nil => exact h'
  | other he _ ih => exact other he (ih h')
  | built _ ih => exact built (ih h')
  | handedOut _ ih => exact handedOut (ih h')
  | failed _ ih => exact failed (ih h')

theorem single {e : Event} (he : ¬ e.concerns id) : Remembers id m [e] m := other he nil

/-- a cell that is written is not written again -/
theorem built_after (h : Remembers id (some v) es m) : es.filterMap (Event.built? id) = [] := by
  generalize hm : some v = n at h
  induction h with
  | nil => rfl
  | other he _ ih =>
    rw [List.filterMap_cons, Event.built?_eq_none he]
    exact ih hm
  | built _ _ => cases hm
  | handedOut _ ih => exact ih hm
  | failed _ _ => cases hm

/-- a cell that is written is what every look-up is answered with -/
theorem answered_after (h : Remembers id (some v) es m) {r : Except ContainerError Value}
    (hr : Event.answered id r ∈ es) : r = .ok v := by
  generalize hm : some v = n at h
  induction h with
  | nil => cases hr
  | other he _ ih =>
    rcases List.mem_cons.mp hr with rfl | hr
    · exact absurd rfl he
    · exact ih hr hm
  | built _ _ => cases hm
  | handedOut _ ih =>
    rcases List.mem_cons.mp hr with heq | hr
    · cases hm
      cases heq
      rfl
    · exact ih hr hm
  | failed _ _ => cases hm

/-- the cell is written at most once -/
theorem built_once (h : Remembers id m es m') :
    (es.filterMap (Event.built? id)).length ≤ 1 := by
  induction h with
  | nil => exact Nat.zero_le _
  | other he _ ih =>
    rw [List.filterMap_cons, Event.built?_eq_none he]
    exact ih
  | built h _ =>
    rw [List.filterMap_cons, Event.built?, if_pos rfl, built_after h]
    exact Nat.le_refl _
  | handedOut _ ih => exact ih
  | failed _ ih => exact ih

/-- after an answer that is a value every answer is this value -/
theorem answered_same (h : Remembers id m es m') :
    es.Pairwise fun e e' =>
      ∀ v, e = .answered id (.ok v) → ∀ r, e' = .answered id r → r = .ok v := by
  induction h with
  | nil => exact List.Pairwise.nil
  | other he _ ih =>
    refine List.pairwise_cons.mpr ⟨fun e' _ v hv => ?_, ih⟩
    subst hv
    exact absurd rfl he
  | built _ ih => exact List.pairwise_cons.mpr ⟨fun _ _ _ hv => (by cases hv), ih⟩
  | handedOut h ih =>
    refine List.pairwise_cons.mpr ⟨fun e' he' v hv r hr => ?_, ih⟩
    cases hv
    subst hr
    exact answered_after h he'
  | failed _ ih => exact List.pairwise_cons.mpr ⟨fun _ _ _ hv => (by cases hv), ih⟩

end Remembers

/-! ## the memory of a container -/

namespace Container

variable {σ : Type} (c : Container σ)

/-- one look-up: the ids in flight are as before, the memory of `id` is a cell, and the cell stays
empty while `id` is in flight -/
def Sharing (id : String) (b : Building σ) (events : List Event) (b' : Building σ) : Prop :=
  b'.inFlight = b.inFlight ∧
  Remembers id (b.instances.get? id) events (b'.instances.get? id) ∧
  (id ∈ b.inFlight → b.instances.get? id = none → b'.instances.get? id = none)

/-- what is left of an id that was entered and came to no end -/
theorem leave_get?_of_ne {i id : String} (hne : i ≠ id) {d : Definition} (hd : d.id = i)
    (o : Except ContainerError Value × Building σ) :
    (leave d o).2.instances.get? id = o.2.instances.get? id := by
  obtain ⟨r, b⟩ := o
  cases r with
  | error e => rfl
  | ok v =>
    show (if d.shared then b.instances.insert d.id v else b.instances).get? id = _
    split
    · rw [OrderedMap.get?_insert, hd, if_neg hne]
    · rfl

/-- the events after the work on the id itself write its cell -/
theorem remembers_leave {id : String} {d : Definition} (hid : d.id = id) (hs : d.shared = true)
    (o : Except ContainerError Value × Building σ) (ho : o.2.instances.get? id = none) :
    Remembers id none (leaveEvents d o.1 ++ [Event.answered id o.1])
      ((leave d o).2.instances.get? id) := by
  obtain ⟨r, b⟩ := o
  cases r with
  | error e =>
    rw [show (leave d (.error e, b)).2.instances.get? id = none from ho]
    exact .failed .nil
  | ok v =>
    have hget : (leave d (.ok v, b)).2.instances.get? id = some v := by
      show (if d.shared then b.instances.insert d.id v else b.instances).get? id = _
      rw [if_pos hs, OrderedMap.get?_insert, if_pos hid]
    rw [hget]
    subst hid
    exact .built (.handedOut .nil)

/-- the events after the work on another id leave the cell alone -/
theorem remembers_leave_of_ne {i id : String} (hne : i ≠ id) {d : Definition} (hd : d.id = i)
    (r : Except ContainerError Value) (m : Option Value) :
    Remembers id m (leaveEvents d r ++ [Event.answered i r]) m := by
  cases r with
  | error e => exact .single hne
  | ok v => exact .other (by rw [hd]; exact hne) (.single hne)

/-- every look-up keeps to the cell of a shared definition -/
theorem kept_sharing {id : String} {d : Definition} (hd : c.registry.find? id = some d)
    (hs : d.shared = true) : c.Kept (Sharing id) where
  heap b h := ⟨rfl, .nil, fun _ hm => hm⟩
  trans b s b' s' b'' := by
    rintro ⟨hf, hr, hn⟩ ⟨hf', hr', hn'⟩
    exact ⟨hf'.trans hf, hr.append hr', fun hid hm => hn' (hf ▸ hid) (hn hid hm)⟩
  known b i v hv := by
    refine ⟨rfl, ?_, fun _ hm => hm⟩
    by_cases hi : i = id
    · subst hi
      rw [hv]
      exact .handedOut .nil
    · exact .single hi
  refused b i e hi := by
    refine ⟨rfl, ?_, fun _ hm => hm⟩
    by_cases heq : i = id
    · subst heq
      rw [hi]
      exact .failed .nil
    · exact .single heq
  entered b i d' inFlight o events hi hd' he := by
    rintro ⟨hf, hr, hn⟩
    obtain ⟨hnew, rfl⟩ := Building.enter_eq_ok he
    have hid' : d'.id = i := Registry.id_of_find? hd'
    refine ⟨by rw [leave_inFlight, hf, List.dropLast_concat], ?_, ?_⟩
    · rw [List.append_assoc]
      refine .other (fun h => h) (hr.append ?_)
      by_cases heq : i = id
      · subst heq
        cases hd.symm.trans hd'
        -- the id was in flight during the work, so no look-up inside has written its cell
        have hm : o.2.instances.get? i = none := hn (by simp) hi
        rw [hm]
        exact remembers_leave hid' hs o hm
      · rw [leave_get?_of_ne heq hid']
        exact remembers_leave_of_ne heq hid' _ _
    · intro hin hm
      have hne : i ≠ id := fun heq => hnew (heq ▸ hin)
      rw [leave_get?_of_ne hne hid']
      exact hn (List.mem_append_left _ hin) hm

/-- **A shared service is built once.** In every run its definition comes to its end at most once,
and after an answer with a value every look-up is answered with that value. -/
theorem shared_built_once {id : String} {d : Definition} (hd : c.registry.find? id = some d)
    (hs : d.shared = true) (client : Construction σ) (h : Heap σ) :
    ((c.trace client h).filterMap (Event.built? id)).length ≤ 1 ∧
    (c.trace client h).Pairwise fun e e' =>
      ∀ v, e = .answered id (.ok v) → ∀ r, e' = .answered id r → r = .ok v := by
  have hr : Remembers id none (c.trace client h) _ := ((c.kept_sharing hd hs).trace client h).2.1
  exact ⟨hr.built_once, hr.answered_same⟩

/-- a container with one shared service, whose constructor asks for that very service and goes on
without it -/
def reentrant : Container Empty where
  registry :=
    { Registry.ofParameters .empty with
      definitions := [.ofNode "a" (.create "make" [])], frozen := true }
  constructors := [("make", ⟨.any, fun _ _ => .get "a" fun _ => .create (.router [])⟩)]
  services := ⟨nofun, nofun, fun _ _ s => nomatch s⟩

def twice : Construction Empty := .get "a" fun _ => .get "a" .done

example :
    reentrant.trace twice .empty =
      [ .entered ["a"], .answered "a" (.error (.circularDependency ["a", "a"])),
        .built "a" (.service ⟨0⟩), .answered "a" (.ok (.service ⟨0⟩)),
        .answered "a" (.ok (.service ⟨0⟩)) ] := by
  rfl

theorem reentrant_built_once :
    reentrant.registry.find? "a" = some (.ofNode "a" (.create "make" [])) ∧
    (Definition.ofNode "a" (.create "make" [])).shared = true ∧
    ((reentrant.trace twice .empty).filterMap (Event.built? "a")).length ≤ 1 ∧
    (reentrant.trace twice .empty).Pairwise fun e e' =>
      ∀ v, e = .answered "a" (.ok v) → ∀ r, e' = .answered "a" r → r = .ok v :=
  ⟨rfl, rfl,
    reentrant.shared_built_once (d := .ofNode "a" (.create "make" [])) rfl rfl twice .empty⟩

end Container
end ServiceGraph
