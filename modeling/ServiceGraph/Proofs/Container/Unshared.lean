import ServiceGraph.Proofs.Container.Fresh

/-!
# Which services are shared

Two registries that differ only in which of their services are shared answer alike, when no live
object is around. Where a live object is around they need not: what is built twice is set up twice.

* `Registry.unshared`, `Container.unshared`: no service is shared;
* `Container.Alike`: containers that tell the same and build with the same constructors;
* `Container.Alike.definitionPlan`: they have the same plans;
* `Container.ofRegistry_unshared`: opening a container does not look at the flags;
* `Container.sharing_unobservable`: the result for two registries;
* `Container.routed_sharing_observable`: what happens around a live object.
-/

set_option linter.unusedSectionVars false

namespace ServiceGraph

variable {σ : Type}

/-- the same definition, built anew each time -/
def Definition.unshared (d : Definition) : Definition := { d with shared := false }

def Definition.literals (d : Definition) : List Value :=
  d.data fun key => .error (.parameter (.unknown key))

def Registry.unshared (r : Registry) : Registry :=
  { r with definitions := r.definitions.map Definition.unshared }

namespace Registry

variable (r : Registry)

theorem find?_unshared (id : String) :
    r.unshared.find? id = (r.find? id).map Definition.unshared := by
  unfold find? unshared
  rw [List.find?_map]
  rfl

theorem has_unshared : r.unshared.has = r.has := by
  funext id
  unfold has
  rw [find?_unshared, Option.isSome_map]

theorem size_unshared : r.unshared.size = r.size := List.length_map _

theorem tagged_unshared (tag : String) : r.unshared.tagged tag = r.tagged tag := by
  unfold tagged unshared
  rw [List.filterMap_map]
  rfl

theorem byType_unshared (typeName : String) : r.unshared.byType typeName = r.byType typeName := by
  unfold byType unshared
  rw [List.filter_map, List.map_map]
  rfl

theorem freeze_unshared : r.unshared.freeze = r.freeze.map unshared := by
  unfold freeze
  cases hr : r.frozen with
  | true =>
    have hr' : r.unshared.frozen = true := hr
    rw [if_pos hr', if_pos rfl]
    rfl
  | false =>
    have hr' : ¬ r.unshared.frozen = true := by
      rw [show r.unshared.frozen = r.frozen from rfl, hr]
      exact Bool.false_ne_true
    rw [if_neg hr', if_neg Bool.false_ne_true]
    show (do
      let parameters ← r.parameters.resolve.mapError RegistryError.parameter
      return { r.unshared with parameters, frozen := true, origin := none }) = _
    cases r.parameters.resolve with
    | ok p => rfl
    | error e => rfl

end Registry

namespace Container

def unshared (c : Container σ) : Container σ := { c with registry := c.registry.unshared }

/-- the containers tell the same, and build with the same constructors and services -/
structure Alike (c c' : Container σ) : Prop where
  defined : c.registry.has = c'.registry.has
  lookup : c.lookup = c'.lookup
  constructors : c.constructors = c'.constructors
  services : c.services = c'.services

theorem has_unshared (c : Container σ) : c.unshared.has = c.has := by
  funext id
  have hfind : c.unshared.registry.find? id = (c.registry.find? id).map Definition.unshared :=
    c.registry.find?_unshared id
  unfold has publicDefinition?
  rw [hfind, Option.filter_map, Option.isSome_map]
  rfl

theorem unshared_alike (c : Container σ) : c.unshared.Alike c where
  defined := c.registry.has_unshared
  lookup := by
    have htagged : c.unshared.tagged = c.tagged := by
      funext tag
      unfold tagged
      rw [c.has_unshared, show c.unshared.registry.tagged tag = _ from
        c.registry.tagged_unshared tag]
    have hids : c.unshared.idsByType = c.idsByType := by
      funext typeName
      unfold idsByType
      rw [c.has_unshared, show c.unshared.registry.byType typeName = _ from
        c.registry.byType_unshared typeName]
    unfold lookup
    rw [c.has_unshared, htagged, hids]
    rfl
  constructors := rfl
  services := rfl

namespace Alike

variable {c c' : Container σ} (h : c.Alike c')
include h

theorem has_eq : c.has = c'.has := congrArg Lookup.has h.lookup

theorem parameter_eq : c.parameter = c'.parameter := congrArg Lookup.parameter h.lookup

theorem construction_plan (k : Construction σ) : k.plan c = k.plan c' := by
  induction k with
  | done r => rfl
  | get id next ih => simp only [Construction.plan, h.has_eq, ih]
  | act work next ih => simp only [Construction.plan, ih]

theorem referencePlan (id : String) (optional : Bool) :
    c.referencePlan id optional = c'.referencePlan id optional := by
  unfold Container.referencePlan
  rw [h.defined]

theorem invokePlan : c.invokePlan = c'.invokePlan := by
  unfold Container.invokePlan
  rw [h.services]

theorem fluentPlan : c.fluentPlan = c'.fluentPlan := by
  unfold Container.fluentPlan
  rw [h.services]

mutual

theorem plan (n : Node) : c.plan n = c'.plan n := by
  cases n with
  | literal v => rfl
  | parameter key => simp only [Container.plan, h.parameter_eq]
  | reference id optional => exact h.referencePlan id optional
  | statement callable args calls =>
    simp only [Container.plan, planAll args, planCalls _ calls]
    congr 1
    funext vs
    cases callable with
    | named name => simp only [h.constructors, h.lookup, h.construction_plan]
    | method target method => simp only [plan target, h.invokePlan]
    | array => rfl
    | record keys => rfl

theorem planAll (ns : List Node) : c.planAll ns = c'.planAll ns := by
  cases ns with
  | nil => rfl
  | cons n ns => simp only [Container.planAll, plan n, planAll ns]

theorem planCalls (v : Value) (calls : List MethodCall) :
    c.planCalls v calls = c'.planCalls v calls := by
  cases calls with
  | nil => rfl
  | cons call calls =>
    cases call with
    | mk method args =>
      simp only [Container.planCalls, planAll args, h.fluentPlan, planCalls _ calls]

end

theorem planSetUp (v : Value) (calls : List MethodCall) :
    c.planSetUp v calls = c'.planSetUp v calls := by
  induction calls with
  | nil => rfl
  | cons call calls ih => simp only [Container.planSetUp, h.planAll, h.invokePlan, ih]

theorem definitionPlan (d : Definition) : c.definitionPlan d = c'.definitionPlan d := by
  simp only [Container.definitionPlan, h.plan, h.planSetUp]

end Alike

/-! ## the flags make no difference -/

variable {c c' : Container σ}

theorem fresh_unshared (c : Container σ) (h : Heap σ) (room : Nat) (inFlight : List String)
    (id : String) : c.unshared.fresh h room inFlight id = c.fresh h room inFlight id := by
  have hfind : c.unshared.registry.find? id = (c.registry.find? id).map Definition.unshared :=
    c.registry.find?_unshared id
  cases hd : c.registry.find? id with
  | none =>
    rw [hd] at hfind
    rw [fresh_undefined hd, fresh_undefined hfind]
  | some d =>
    rw [hd] at hfind
    by_cases hmem : id ∈ inFlight
    · rw [fresh_refused hd hmem, fresh_refused hfind hmem]
    · cases room with
      | zero => rw [fresh_full hd hmem, fresh_full hfind hmem]
      | succ room =>
        have hinner : c.unshared.fresh h room (inFlight ++ [id]) =
            c.fresh h room (inFlight ++ [id]) :=
          funext (fresh_unshared c h room (inFlight ++ [id]))
        have hplan : c.unshared.definitionPlan d.unshared = c.definitionPlan d :=
          c.unshared_alike.definitionPlan d
        rw [fresh_entered hd hmem, fresh_entered hfind hmem, hplan, hinner]

theorem getFresh_unshared (c : Container σ) (h : Heap σ) :
    c.unshared.getFresh h = c.getFresh h := by
  funext id
  have hsize : c.unshared.registry.size = c.registry.size := c.registry.size_unshared
  unfold getFresh
  rw [c.has_unshared, hsize, fresh_unshared]

theorem plain_unshared (c : Container σ) : c.unshared.Plain ↔ c.Plain := by
  have hparameter : c.unshared.parameter = c.parameter := rfl
  unfold Plain
  rw [hparameter]
  exact List.forall_mem_map

/-- containers that differ in the flags only give the same answers, when no live object is around -/
theorem getAll_of_unshared_eq {c c' : Container σ} (hcc : c.unshared = c'.unshared)
    (hcs : c.constructors.Pure) (hplain : c.Plain) (ids : List String) (h : Heap σ) :
    (c.getAll ids (.ofHeap h)).1 = (c'.getAll ids (.ofHeap h)).1 := by
  have hplain' : c'.Plain := by
    rw [← plain_unshared, ← hcc, plain_unshared]
    exact hplain
  have hconstructors : c.unshared.constructors = c'.unshared.constructors := by rw [hcc]
  have hcs' : c'.constructors.Pure := by
    rw [show c'.constructors = c.constructors from hconstructors.symm]
    exact hcs
  have hstart : ∀ k : Container σ, k.Faithful h (.ofHeap h) := fun k =>
    ⟨rfl, fun _ _ hv => by cases hv⟩
  rw [getAll_eq_fresh hcs hplain ids (hstart c) rfl,
    getAll_eq_fresh hcs' hplain' ids (hstart c') rfl, ← c.getFresh_unshared,
    ← c'.getFresh_unshared, hcc]

/-! ## opening -/

theorem substituteAll_unshared (p : Parameters) (ds : List Definition) :
    substituteAll p (ds.map Definition.unshared) =
      (substituteAll p ds).map (List.map Definition.unshared) := by
  have hone : ∀ d : Definition, d.unshared.substitute p =
      (d.substitute p).map Definition.unshared := by
    intro d
    unfold Definition.substitute
    show (do
      let root ← d.root.substitute p
      let setup ← Node.substituteCalls p d.setup
      return { d.unshared with root, setup } : Expansion Definition) = _
    cases d.root.substitute p with
    | error e => rfl
    | ok root =>
      cases Node.substituteCalls p d.setup with
      | error e => rfl
      | ok setup => rfl
  induction ds with
  | nil => rfl
  | cons d ds ih =>
    rw [List.map_cons, substituteAll, substituteAll, hone, ih]
    cases d.substitute p with
    | error e => rfl
    | ok d' =>
      cases substituteAll p ds with
      | error e => rfl
      | ok ds' => rfl

theorem ofRegistry_unshared (r : Registry) (cs : Constructors σ) (services : Services σ) :
    ofRegistry r.unshared cs services = (ofRegistry r cs services).map unshared := by
  unfold ofRegistry
  rw [r.freeze_unshared]
  cases r.freeze with
  | error e => rfl
  | ok frozen =>
    show (do
      let definitions ← (substituteAll frozen.parameters
        (frozen.definitions.map Definition.unshared)).mapError ContainerError.parameter
      return ⟨{ frozen.unshared with definitions }, cs, services⟩ :
        Except ContainerError (Container σ)) = Except.map unshared (do
      let definitions ← (substituteAll frozen.parameters frozen.definitions).mapError
        ContainerError.parameter
      return ⟨{ frozen with definitions }, cs, services⟩)
    rw [substituteAll_unshared]
    cases substituteAll frozen.parameters frozen.definitions with
    | error e => rfl
    | ok ds => rfl

theorem constructors_ofRegistry {r : Registry} {cs : Constructors σ} {services : Services σ}
    {c : Container σ} (hc : ofRegistry r cs services = .ok c) : c.constructors = cs := by
  unfold ofRegistry at hc
  cases hr : r.freeze with
  | error e =>
    rw [hr] at hc
    cases hc
  | ok frozen =>
    rw [hr] at hc
    have hc : (do
      let definitions ← (substituteAll frozen.parameters frozen.definitions).mapError
        ContainerError.parameter
      return ⟨{ frozen with definitions }, cs, services⟩ :
        Except ContainerError (Container σ)) = .ok c := hc
    cases hs : substituteAll frozen.parameters frozen.definitions with
    | error e =>
      rw [hs] at hc
      cases hc
    | ok ds =>
      rw [hs] at hc
      cases hc
      rfl

/-- **Which services are shared makes no difference where no live object is around.** Take two
registries that differ only in that. When a container opens over the one, and the data in its
definitions refers to no live object, a container opens over the other as well; and when the
constructors are pure, every look-up of a series has the same answer in both. -/
theorem sharing_unobservable {r r' : Registry} (hr : r.unshared = r'.unshared)
    {cs : Constructors σ} (hcs : cs.Pure) {services : Services σ} {c : Container σ}
    (hc : ofRegistry r cs services = .ok c) (hplain : c.Plain) :
    ∃ c', ofRegistry r' cs services = .ok c' ∧
      ∀ ids h, (c.getAll ids (.ofHeap h)).1 = (c'.getAll ids (.ofHeap h)).1 := by
  have hopen : (ofRegistry r' cs services).map unshared = .ok c.unshared := by
    rw [← ofRegistry_unshared, ← hr, ofRegistry_unshared, hc]
    rfl
  cases hc' : ofRegistry r' cs services with
  | error e =>
    rw [hc'] at hopen
    cases hopen
  | ok c' =>
    rw [hc'] at hopen
    have hcc : c.unshared = c'.unshared := (Except.ok.inj hopen).symm
    have hconstructors : c.constructors = cs := constructors_ofRegistry hc
    exact ⟨c', rfl, getAll_of_unshared_eq hcc (hconstructors.symm ▸ hcs) hplain⟩

def listing : Constructors Empty := [("list", ⟨.any, fun _ args => .done (.ok (.list args))⟩)]

theorem listing_pure : listing.Pure := by
  intro name k hk l args hargs
  have hk : (if "list" = name then
      some (⟨.any, fun _ args => .done (.ok (.list args))⟩ : Constructor Empty)
    else none) = some k := hk
  split at hk
  · cases hk
    refine ⟨.ok (.list args), rfl, fun v hv => ?_⟩
    cases hv
    exact Value.objectsOfItems_eq_nil hargs
  · cases hk

def noServices : Services Empty := ⟨nofun, nofun, fun _ _ s => nomatch s⟩

/-- `a` lists a parameter, `b` asks for `a` twice, `c` calls a method that plain data does not have,
and `d` needs itself; `a` and `d` may be shared -/
def lists (shared : Bool) : Registry where
  definitions :=
    [ { Definition.ofNode "a" (.create "list" [.parameter "p"]) with shared },
      .ofNode "b" (.array [.reference "a" false, .reference "a" true, .reference "x" true]),
      .ofNode "c" (.statement (.method (.reference "b" false) "len") [] []),
      { Definition.ofNode "d" (.array [.reference "a" false, .reference "d" false]) with shared } ]
  parameters := .ofTree [("p", .str "%q%"), ("q", .int 1)]
  pipelines := []
  routes := .empty
  origin := none
  extensionOrder := []
  frozen := false

/-- the definitions of `lists true` without parameters -/
def listsOpened : Container Empty where
  registry :=
    { lists true with
      definitions :=
        [ .ofNode "a" (.create "list" [.literal (.int 1)]),
          .ofNode "b" (.array [.reference "a" false, .reference "a" true, .reference "x" true]),
          .ofNode "c" (.statement (.method (.reference "b" false) "len") [] []),
          .ofNode "d" (.array [.reference "a" false, .reference "d" false]) ]
      parameters := ⟨[("p", .int 1), ("q", .int 1)], true⟩
      frozen := true }
  constructors := listing
  services := noServices

theorem lists_sharing_unobservable :
    (lists true).unshared = (lists false).unshared ∧ listing.Pure ∧
    ofRegistry (lists true) listing noServices = .ok listsOpened ∧ listsOpened.Plain ∧
    ∃ c', ofRegistry (lists false) listing noServices = .ok c' ∧
      ∀ ids h, (listsOpened.getAll ids (.ofHeap h)).1 = (c'.getAll ids (.ofHeap h)).1 := by
  have hr : (lists true).unshared = (lists false).unshared := rfl
  have hc : ofRegistry (lists true) listing noServices = .ok listsOpened := by rfl
  have hplain : listsOpened.Plain := by
    unfold Plain
    decide +kernel
  exact ⟨hr, listing_pure, hc, hplain, sharing_unobservable hr listing_pure hc hplain⟩

/-! ## around a live object -/

/-- `a` is a route collection that a parameter refers to, and gets a route each time it is set up;
`b` asks it for its paths -/
def routed (shared : Bool) : Registry where
  definitions :=
    [ { Definition.ofNode "a" (.parameter "p") with
        shared
        setup := [.mk "add" [.literal (.list []), .literal (.str "/"), .literal .null,
          .literal .null, .literal .null]] },
      { Definition.ofNode "b" (.statement (.method (.reference "a" false) "paths") [] []) with
        shared := false } ]
  parameters := .ofTree [("p", .service ⟨0⟩)]
  pipelines := []
  routes := .empty
  origin := none
  extensionOrder := []
  frozen := false

def oneRouter : Heap Empty := ⟨[.router []]⟩

/-- Where a parameter holds a live object, it can be told which services are shared: `a` is set up
once or each time, although no literal holds a live object. -/
theorem routed_sharing_observable :
    (routed true).unshared = (routed false).unshared ∧
    (∀ d ∈ (routed true).definitions, ∀ v ∈ d.literals, v.objects = []) ∧
    (Constructors.Pure (σ := Empty) []) ∧
    ∃ c c', ofRegistry (routed true) [] noServices = .ok c ∧
      ofRegistry (routed false) [] noServices = .ok c' ∧
      (c.getAll ["b", "b"] (.ofHeap oneRouter)).1 =
        [.ok (.list [.str "/"]), .ok (.list [.str "/"])] ∧
      (c'.getAll ["b", "b"] (.ofHeap oneRouter)).1 =
        [.ok (.list [.str "/"]), .ok (.list [.str "/", .str "/"])] := by
  refine ⟨rfl, by decide +kernel, fun _ _ hk => (by cases hk), ?_⟩
  exact ⟨_, _, rfl, rfl, rfl, rfl⟩

end Container
end ServiceGraph
