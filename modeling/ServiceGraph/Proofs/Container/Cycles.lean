import ServiceGraph.Proofs.Container.Lookup
import ServiceGraph.Proofs.Container.Rules
import ServiceGraph.Proofs.Container.Shared
import ServiceGraph.Proofs.Container.Within
import ServiceGraph.Proofs.Grounded
import Mathlib.Data.List.Chain

/-!
# Circular dependencies

An id that is needed for its own building is refused, with the path on which it came back. This
finds the cycles of the graph of definitions, and nothing else.

* `Container.Refers`: an edge of the graph, from a definition to a defined id it refers to;
* `Container.IsCycle`: a path that closes and repeats nothing else;
* `Container.Walk`: the ids in flight, as a walk to the id that is asked for;
* `Container.Answered`: a value for an id from which every walk ends, an error of the application,
  or a cycle;
* `Container.resolve_lawful`: every look-up is answered so, as long as the memory holds nothing that
  depends on a cycle;
* `Container.cycles_detected`: the result for the constructors that do no look-ups.
-/

namespace ServiceGraph

open Relation

namespace Container

variable {σ : Type} {c : Container σ} {rules : Rules σ} {root id : String}
  {inFlight path : List String}

/-- the definition of the first id refers to the second, which is defined -/
def Refers (c : Container σ) (id other : String) : Prop :=
  ∃ d, c.registry.find? id = some d ∧ other ∈ d.references ∧ c.Defines other

/-- a path along references that starts and ends with the same id, repeats no other, and can be
reached from the root -/
def IsCycle (c : Container σ) (root : String) (path : List String) : Prop :=
  ∃ first others, path = first :: (others ++ [first]) ∧ (first :: others).Nodup ∧
    path.IsChain c.Refers ∧ ReflTransGen c.Refers root first

theorem IsCycle.circular (h : c.IsCycle root path) : Circular c.Refers root := by
  obtain ⟨first, others, rfl, -, hchain, hroot⟩ := h
  exact ⟨first, hroot, transGen_of_isChain hchain⟩

/-- the ids in flight when an id is asked for: they form a walk from the root to this id, which
comes to nothing twice before it -/
structure Walk (c : Container σ) (root : String) (inFlight : List String) (id : String) :
    Prop where
  nodup : inFlight.Nodup
  chain : (inFlight ++ [id]).IsChain c.Refers
  reach : ∀ i ∈ inFlight ++ [id], ReflTransGen c.Refers root i

theorem Walk.start (id : String) : c.Walk id [] id where
  nodup := List.nodup_nil
  chain := List.isChain_singleton id
  reach i hi := by
    rw [List.mem_singleton.mp hi]

theorem Walk.step (h : c.Walk root inFlight id) (hnew : id ∉ inFlight) {other : String}
    (hother : c.Refers id other) : c.Walk root (inFlight ++ [id]) other where
  nodup := by
    rw [← List.concat_eq_append]
    exact h.nodup.concat hnew
  chain := by
    rw [List.append_assoc]
    have hlast : [id, other].IsChain c.Refers := List.isChain_pair.mpr hother
    exact List.isChain_split.mpr ⟨h.chain, hlast⟩
  reach i hi := by
    rcases List.mem_append.mp hi with hi | hi
    · exact h.reach i hi
    · rw [List.mem_singleton.mp hi]
      have hid : ReflTransGen c.Refers root id :=
        h.reach id (List.mem_append_right _ (List.mem_singleton_self id))
      exact hid.tail hother

/-- an id that is in flight closes a cycle -/
theorem Walk.isCycle (h : c.Walk root inFlight id) (hid : id ∈ inFlight) :
    c.IsCycle root (inFlight.dropWhile (· ≠ id) ++ [id]) := by
  obtain ⟨first, others, hpath, hnodup, hchain⟩ := closedPath_of_return h.nodup h.chain hid
  have hfirst : first ∈ inFlight.dropWhile (· ≠ id) ++ [id] := hpath ▸ List.mem_cons_self
  have hsub : inFlight.dropWhile (· ≠ id) ++ [id] ⊆ inFlight ++ [id] :=
    List.append_subset.mpr
      ⟨List.Subset.trans (List.dropWhile_subset _) (List.subset_append_left _ _),
        List.subset_append_right _ _⟩
  exact ⟨first, others, hpath, hnodup, hchain, h.reach first (hsub hfirst)⟩

/-! ## answers -/

/-- a value, for an id from which every walk ends, or an error that is within the rules, or a
cycle -/
def Answered (c : Container σ) (rules : Rules σ) (root id : String) :
    Except ContainerError Value → Prop
  | .ok v => rules.value v ∧ Grounded c.Refers id
  | .error e => rules.error e ∨ ∃ path, e = .circularDependency path ∧ c.IsCycle root path

/-- what is built already is within the rules, and every walk from it ends -/
def Remembered (c : Container σ) (rules : Rules σ) (b : Building σ) : Prop :=
  ∀ i v, b.instances.get? i = some v → rules.value v ∧ Grounded c.Refers i

/-- the look-up of an id, as what it makes of a state: when the ids in flight are a walk to the id
and the memory is as it should be, so are the answer and the memory after it -/
def Lawful (c : Container σ) (rules : Rules σ) (root id : String) (b : Building σ)
    (o : Except ContainerError Value × Building σ) : Prop :=
  (c.Defines id → c.Walk root b.inFlight id) → c.Remembered rules b →
    c.Answered rules root id o.1 ∧ c.Remembered rules o.2 ∧ o.2.inFlight = b.inFlight

theorem refers_of_mem {d : Definition} (hd : c.registry.find? id = some d) {other : String}
    (hother : other ∈ d.evaluationOrder c.registry.has) (hdefined : c.Defines other) :
    c.Refers id other :=
  ⟨d, hd, (d.mem_evaluationOrder hdefined).mp hother, hdefined⟩

/-- an id whose definition could be worked on to the end -/
theorem grounded_of_evaluationOrder {d : Definition} (hd : c.registry.find? id = some d)
    (h : ∀ other ∈ d.evaluationOrder c.registry.has, Grounded c.Refers other) :
    Grounded c.Refers id := by
  apply Grounded.intro
  rintro other ⟨d', hd', hother, hdefined⟩
  cases hd.symm.trans hd'
  exact h other ((d.mem_evaluationOrder hdefined).mpr hother)

theorem Remembered.leave {d : Definition} {o : Except ContainerError Value × Building σ}
    (h : c.Remembered rules o.2)
    (hvalue : ∀ v, o.1 = .ok v → rules.value v ∧ Grounded c.Refers d.id) :
    c.Remembered rules (leave d o).2 := by
  intro i v hv
  rcases leave_get? hv with hv' | ⟨rfl, hv'⟩
  · exact h i v hv'
  · exact hvalue v hv'

section
variable (hc : c.Keeps rules)
  (hdata : ∀ d ∈ c.registry.definitions, rules.values (d.data c.parameter))
include hc hdata

/-- the work on a definition whose look-ups are answered as they should be -/
theorem leave_answered {resolve : String → Build σ Value}
    (answers : ∀ other b, c.Lawful rules root other b (resolve other b))
    {d : Definition} (hd : c.registry.find? id = some d) (hwalk : c.Walk root inFlight id)
    (hnew : id ∉ inFlight) {b : Building σ} (hb : c.Remembered rules b)
    (hin : b.inFlight = inFlight ++ [id]) :
    c.Answered rules root id (leave d ((c.definitionPlan d).follow resolve b)).1 ∧
    c.Remembered rules (leave d ((c.definitionPlan d).follow resolve b)).2 ∧
    (leave d ((c.definitionPlan d).follow resolve b)).2.inFlight = inFlight := by
  have hplan : (c.definitionPlan d).Obeys rules rules.value (d.evaluationOrder c.registry.has) :=
    definitionPlan_obeys hc (hdata d (Registry.mem_of_find? hd))
  -- what is asked for on the way is one step further on the walk
  have hinner : ∀ other ∈ d.evaluationOrder c.registry.has, ∀ b',
      c.Remembered rules b' ∧ b'.inFlight = inFlight ++ [id] →
      c.Answered rules root other (resolve other b').1 ∧
        c.Remembered rules (resolve other b').2 ∧
        (resolve other b').2.inFlight = inFlight ++ [id] := by
    rintro other hother b' ⟨hmemory, hin'⟩
    have hnext : c.Defines other → c.Walk root b'.inFlight other := by
      intro hdefined
      rw [hin']
      exact hwalk.step hnew (refers_of_mem hd hother hdefined)
    obtain ⟨hanswer, hmemory', hin''⟩ := answers other b' hnext hmemory
    exact ⟨hanswer, hmemory', hin''.trans hin'⟩
  obtain ⟨⟨hmemory, hin'⟩, hok, herror⟩ :=
    hplan.follow (fun _ _ _ h => h) hinner (fun _ _ h => h.1) ⟨hb, hin⟩
  generalize (c.definitionPlan d).follow resolve b = o at hmemory hin' hok herror ⊢
  have hvalue : ∀ v, o.1 = .ok v → rules.value v ∧ Grounded c.Refers id := by
    intro v hv
    obtain ⟨hrule, hall⟩ := hok v hv
    refine ⟨hrule, grounded_of_evaluationOrder hd fun other hother => ?_⟩
    obtain ⟨w, hw⟩ := hall other hother
    exact hw.2
  have hid : d.id = id := Registry.id_of_find? hd
  refine ⟨?_, hmemory.leave (by rwa [hid]), ?_⟩
  · rw [leave_fst]
    cases hr : o.1 with
    | ok v => exact hvalue v hr
    | error e =>
      rcases herror e hr with hown | ⟨other, -, hother⟩
      · exact .inl hown
      · exact hother
  · rw [leave_inFlight, hin', List.dropLast_concat]

/-- every look-up is answered with a value, an error or a cycle as it should be -/
theorem resolve_lawful (room : Nat) (id : String) (b : Building σ) :
    c.Lawful rules root id b (c.resolve room id b) := by
  refine resolve_induction (P := fun _ => c.Lawful rules root)
    ?known ?undefined ?refused ?full ?entered room id b
  case known =>
    intro room id b v hv _ hb
    exact ⟨hb id v hv, hb, rfl⟩
  case undefined =>
    intro room id b _ _ _ hb
    exact ⟨.inl (hc.unknown id), hb, rfl⟩
  case refused =>
    intro room id b d _ hd hmem hwalk hb
    have hwalk : c.Walk root b.inFlight id := hwalk (defines_of_find? hd)
    exact ⟨.inr ⟨_, rfl, hwalk.isCycle hmem⟩, hb, rfl⟩
  case full =>
    intro id b d _ _ _ _ hb
    exact ⟨.inl (hc.unknown id), hb, rfl⟩
  case entered =>
    intro room id b d _ hd hnew answers hwalk hb
    have hwalk : c.Walk root b.inFlight id := hwalk (defines_of_find? hd)
    exact leave_answered hc hdata answers hd hwalk hnew hb rfl

theorem resolveFresh_answered {b : Building σ} (hin : b.inFlight = [])
    (hb : c.Remembered rules b) (id : String) :
    c.Answered rules id id (c.resolveFresh id b).1 ∧
    c.Remembered rules (c.resolveFresh id b).2 ∧ (c.resolveFresh id b).2.inFlight = [] := by
  have hwalk : c.Walk id b.inFlight id := by
    rw [hin]
    exact Walk.start id
  have hanswer := resolve_lawful hc hdata c.registry.size id b (fun _ => hwalk) hb
  rw [hin] at hanswer
  exact hanswer

theorem get_answered {b : Building σ} (hin : b.inFlight = []) (hb : c.Remembered rules b)
    (id : String) :
    c.Answered rules id id (c.get id b).1 ∧
    c.Remembered rules (c.get id b).2 ∧ (c.get id b).2.inFlight = [] := by
  unfold get getWith
  split
  · exact resolveFresh_answered hc hdata hin hb id
  · exact ⟨.inl (hc.unknown id), hb, hin⟩

/-- what a client leaves behind -/
theorem construct_remembered (client : Construction σ) (h : Heap σ) :
    c.Remembered rules (c.construct client (.ofHeap h)).2 ∧
      (c.construct client (.ofHeap h)).2.inFlight = [] := by
  have hnone : c.Remembered rules (.ofHeap h) := fun i v hv => by cases hv
  have hkept : ∀ id (b : Building σ), c.Remembered rules b ∧ b.inFlight = [] →
      c.Remembered rules (c.resolveFresh id b).2 ∧ (c.resolveFresh id b).2.inFlight = [] := by
    rintro id b ⟨hb, hin⟩
    exact (resolveFresh_answered hc hdata hin hb id).2
  rw [construct, run_eq_follow]
  exact Plan.follow_keeps (fun _ _ hb => hb) hkept _ ⟨hnone, rfl⟩

end

end Container

/-! ## errors of the application -/

/-- some run of the constructor's code ends with this error -/
def Construction.Raises {σ : Type} (e : ContainerError) : Construction σ → Prop
  | done r => r = .error e
  | get _ next => ∃ r, Raises e (next r)
  | act work next => ∃ h, Raises e (next (work h).1)

def Services.Raises {σ : Type} (s : Services σ) (e : ContainerError) : Prop :=
  ∃ busy self state method args h, (s.call busy self state method args h).1 = .error e

def Container.Raises {σ : Type} (c : Container σ) (e : ContainerError) : Prop :=
  (∃ name k args, c.constructors.get? name = some k ∧ (k.run c.lookup args).Raises e) ∨
    c.services.Raises e

theorem LiveRoute.ofArgs_ne_circular (args : List Value) (path : List String) :
    LiveRoute.ofArgs args ≠ .error (.circularDependency path) := by
  intro h
  unfold LiveRoute.ofArgs at h
  split at h
  · split at h <;> cases h
  · cases h

theorem Router.call_ne_circular (t : Router) (method : String) (args : List Value)
    (path : List String) : (t.call method args).1 ≠ .error (.circularDependency path) := by
  intro h
  unfold Router.call Router.add at h
  split at h
  · cases hargs : LiveRoute.ofArgs args with
    | ok r =>
      rw [hargs] at h
      cases h
    | error e =>
      rw [hargs] at h
      cases h
      exact LiveRoute.ofArgs_ne_circular args path hargs
  · split at h
    · cases h
    · split at h <;> cases h

namespace Heap

variable {σ : Type} {s : Services σ}

/-- only a method comes up with a cycle -/
theorem raises_of_invoke {receiver : Value} {method : String} {args : List Value} {h : Heap σ}
    {path : List String}
    (he : (h.invoke s receiver method args).1 = .error (.circularDependency path)) :
    s.Raises (.circularDependency path) := by
  unfold invoke invokeWith at he
  split at he
  · split at he
    · cases he
    · split at he
      · exact absurd he (Router.call_ne_circular _ _ _ _)
      · exact ⟨_, _, _, _, _, _, he⟩
      · cases he
  · cases he

theorem raises_of_fluent {receiver : Value} {method : String} {args : List Value} {h : Heap σ}
    {path : List String}
    (he : (h.fluent s receiver method args).1 = .error (.circularDependency path)) :
    s.Raises (.circularDependency path) := by
  unfold fluent at he
  split at he
  · cases he
  · exact raises_of_invoke he

end Heap

namespace Container

variable {σ : Type} {c : Container σ}

/-- a cycle is reported by the container, unless the application comes up with it -/
def cycleRules (c : Container σ) : Rules σ where
  error e := ∀ path, e = .circularDependency path → c.Raises e
  value _ := True
  work _ := True

theorem obeys_of_standalone {k : Construction σ} (hk : k.Standalone)
    (herror : ∀ e, k.Raises e → c.Raises e) :
    (k.plan c).Obeys c.cycleRules c.cycleRules.value [] := by
  induction k with
  | done r =>
    cases r with
    | ok v => exact ⟨rfl, trivial⟩
    | error e => exact fun _ _ => herror e rfl
  | get id next _ => exact hk.elim
  | act work next ih =>
    refine ⟨trivial, fun h => ih _ (hk _) fun e he => ?_⟩
    exact herror e ⟨h, he⟩

theorem obeys_act {work : Heap σ → Heap.Outcome σ}
    (hwork : ∀ h path, (work h).1 = .error (.circularDependency path) →
      c.services.Raises (.circularDependency path)) :
    (Plan.act work .done : Plan σ Value).Obeys c.cycleRules c.cycleRules.value [] := by
  refine ⟨trivial, fun h => ?_⟩
  cases hr : (work h).1 with
  | ok v => exact ⟨rfl, trivial⟩
  | error e =>
    intro path he
    rw [he] at hr ⊢
    exact .inr (hwork h path hr)

theorem keeps_cycleRules (hcs : c.constructors.Standalone) : c.Keeps c.cycleRules where
  unknown _ _ h := nomatch h
  parameter _ _ h := nomatch h
  null := trivial
  list _ _ := trivial
  record _ _ _ := trivial
  start name args _ := by
    unfold Constructors.start
    cases hk : OrderedMap.get? c.constructors name with
    | none => exact fun _ h => nomatch h
    | some k =>
      dsimp only
      split
      · exact obeys_of_standalone (hcs name k hk _ args) fun e he => .inl ⟨name, k, args, hk, he⟩
      · exact fun _ h => nomatch h
  invoke receiver method args _ _ := obeys_act fun h path he => Heap.raises_of_invoke he
  fluent receiver method args _ _ := obeys_act fun h path he => Heap.raises_of_fluent he

/-- **Cycles are detected, and no others.** Let the constructors do no look-ups. After any run, an
id from which a cycle can be reached gets no value. And when the container reports a cycle, this is
a cycle that can be reached from the id, unless a constructor or a method came up with the error. -/
theorem cycles_detected (hcs : c.constructors.Standalone) (client : Construction σ) (h : Heap σ)
    (id : String) :
    let answer := (c.get id (c.construct client (.ofHeap h)).2).1
    (Circular c.Refers id → ∀ v, answer ≠ .ok v) ∧
    ∀ path, answer = .error (.circularDependency path) →
      c.Raises (.circularDependency path) ∨ (Circular c.Refers id ∧ c.IsCycle id path) := by
  have hc : c.Keeps c.cycleRules := keeps_cycleRules hcs
  have hdata : ∀ d ∈ c.registry.definitions, c.cycleRules.values (d.data c.parameter) :=
    fun _ _ _ _ => trivial
  obtain ⟨hmemory, hin⟩ := construct_remembered hc hdata client h
  obtain ⟨hanswer, -⟩ := get_answered hc hdata hin hmemory id
  intro answer
  refine ⟨fun hcircle v hv => ?_, fun path hpath => ?_⟩
  · have hanswer : c.Answered c.cycleRules id id answer := hanswer
    rw [hv] at hanswer
    exact hanswer.2.not_circular hcircle
  · have hanswer : c.Answered c.cycleRules id id answer := hanswer
    rw [hpath] at hanswer
    rcases hanswer with hown | ⟨path', he, hcycle⟩
    · exact .inl (hown path rfl)
    · cases he
      exact .inr ⟨hcycle.circular, hcycle⟩

/-- `a` needs `b` if it is there, the setup of `b` needs `c`, which is built anew each time and
needs `a`; `d` needs nothing -/
def looped : Container Empty where
  registry :=
    { Registry.ofParameters .empty with
      definitions :=
        [ .ofNode "a" (.array [.reference "b" true]),
          { Definition.ofNode "b" (.create "make" []) with
            setup := [.mk "add" [.reference "d" false, .reference "c" false]] },
          { Definition.ofNode "c" (.reference "a" false) with shared := false },
          .ofNode "d" (.create "make" []) ],
      frozen := true }
  constructors := [("make", ⟨.any, fun _ _ => .create (.router [])⟩)]
  services := ⟨nofun, nofun, fun _ _ s => nomatch s⟩

def askForD : Construction Empty := .get "d" .done

example :
    (looped.get "a" (looped.construct askForD (.ofHeap .empty)).2).1 =
      .error (.circularDependency ["a", "b", "c", "a"]) := by
  rfl

theorem looped_standalone : looped.constructors.Standalone := by
  intro name k hk l args
  have hk : (if "make" = name then
      some (⟨.any, fun _ _ => .create (.router [])⟩ : Constructor Empty)
    else none) = some k := hk
  split at hk
  · cases hk
    exact fun _ => trivial
  · cases hk

theorem looped_cycles_detected :
    looped.constructors.Standalone ∧
    (Circular looped.Refers "a" →
      ∀ v, (looped.get "a" (looped.construct askForD (.ofHeap .empty)).2).1 ≠ .ok v) ∧
    ∀ path, (looped.get "a" (looped.construct askForD (.ofHeap .empty)).2).1 =
        .error (.circularDependency path) →
      looped.Raises (.circularDependency path) ∨
        (Circular looped.Refers "a" ∧ looped.IsCycle "a" path) :=
  ⟨looped_standalone, cycles_detected looped_standalone askForD .empty "a"⟩

end Container
end ServiceGraph
