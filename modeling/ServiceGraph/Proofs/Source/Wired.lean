import ServiceGraph.Proofs.Container.Within
import ServiceGraph.Proofs.Container.Shared
import ServiceGraph.Proofs.Source.Checked
import ServiceGraph.Proofs.Source.Names

/-!
# A registry that compiles is wired

The compiler and the container walk over the same nodes. What the compiler looked at, the container
finds in its place.

* `Services.Faultless`, `Constructors.Faultless`: the application does not come up with an error of
  wiring by itself;
* `Compile.Context.Fits`: the compiler and the container know the same services and constructors;
* `Container.plan_within`: the plan of a node that has a term;
* `Compile.compile_eq_ok`: the text of a registry is that of its module;
* `Container.compiled_is_wired`: the result for every run.
-/

set_option linter.unusedSectionVars false

namespace ServiceGraph

variable {σ : Type}

/-- no method raises an error of wiring -/
def Services.Faultless (s : Services σ) : Prop :=
  ∀ busy self state method args h, Settled (s.call busy self state method args h).1

/-- no constructor comes up with an error of wiring by itself -/
def Container.ConstructorsFaultless (c : Container σ) : Prop :=
  ∀ name k, c.constructors.get? name = some k → ∀ args, k.arity.accepts args.length = true →
    (k.run c.lookup args).Faultless c

/-! ## calls on live objects -/

theorem LiveRoute.ofArgs_settled (args : List Value) : Settled (LiveRoute.ofArgs args) := by
  unfold LiveRoute.ofArgs
  split
  · split
    · exact settled_ok _
    · exact settled_error fun h => h
    · exact settled_error fun h => h
  · exact settled_error fun h => h

theorem Router.call_settled (t : Router) (method : String) (args : List Value) :
    Settled (t.call method args).1 := by
  unfold Router.call
  split
  · have hadd : t.add args = (LiveRoute.ofArgs args).map fun r => t ++ [r] := by
      unfold Router.add
      cases LiveRoute.ofArgs args <;> rfl
    have hargs : Settled (LiveRoute.ofArgs args) := LiveRoute.ofArgs_settled args
    rw [hadd]
    cases hr : LiveRoute.ofArgs args with
    | ok r => exact settled_ok _
    | error e => exact settled_error (hargs e hr)
  · split
    · exact settled_ok _
    · split
      · exact settled_ok _
      · exact settled_error fun h => h

namespace Heap

variable {s : Services σ}

theorem invoke_settled (hs : s.Faultless) (receiver : Value) (method : String)
    (args : List Value) (h : Heap σ) : Settled (h.invoke s receiver method args).1 := by
  unfold invoke invokeWith
  split
  · split
    · exact settled_error fun h => h
    · split
      · exact Router.call_settled _ _ _
      · exact hs _ _ _ _ _ _
      · exact settled_error fun h => h
  · exact settled_error fun h => h

theorem fluent_settled (hs : s.Faultless) (receiver : Value) (method : String)
    (args : List Value) (h : Heap σ) : Settled (h.fluent s receiver method args).1 := by
  unfold fluent
  split
  · exact settled_ok _
  · exact invoke_settled hs _ _ _ _

end Heap

/-! ## the plans of nodes with terms -/

/-- the compiler knows the services and the constructors of the container -/
structure Compile.Context.Fits (ctx : Compile.Context) (c : Container σ) : Prop where
  methods : ∀ id, (ctx.methods.get? id).isSome = true ↔ c.Defines id
  arity : ctx.arity = some fun name => (OrderedMap.get? c.constructors name).map Constructor.arity

namespace Container

open Compile

variable {c : Container σ} {ctx : Context} {service : String}

/-- the plan ends settled, and a list that it ends with has this length -/
def EndsWith (count : Nat) (r : Except ContainerError (List Value)) : Prop :=
  Settled r ∧ ∀ vs, r = .ok vs → vs.length = count

theorem start_within (hfit : ctx.Fits c) (hcs : c.ConstructorsFaultless) {name : String}
    {count : Nat} (hcheck : checkConstructor ctx name count service = .ok ()) {args : List Value}
    (hargs : args.length = count) :
    ((c.constructors.start c.lookup name args).plan c).Within c.Defines Settled := by
  obtain ⟨a, ha, hcount⟩ := checkConstructor_eq_ok hfit.arity hcheck
  obtain ⟨k, hk, rfl⟩ := Option.map_eq_some_iff.mp ha
  rw [← hargs] at hcount
  have hstart : c.constructors.start c.lookup name args = k.run c.lookup args := by
    unfold Constructors.start
    rw [hk]
    exact if_pos hcount
  rw [hstart]
  exact (hcs name k hk args hcount).within

theorem invokePlan_within (hs : c.services.Faultless) (receiver : Value) (method : String)
    (args : List Value) : (c.invokePlan receiver method args).Within c.Defines Settled :=
  fun h => Heap.invoke_settled hs receiver method args h

theorem fluentPlan_within (hs : c.services.Faultless) (receiver : Value) (method : String)
    (args : List Value) : (c.fluentPlan receiver method args).Within c.Defines Settled :=
  fun h => Heap.fluent_settled hs receiver method args h

theorem referencePlan_within (hfit : ctx.Fits c) {id : String} {optional : Bool} {t : Term}
    (h : ofExcept (Compile.reference ctx service id optional) = some (.ok t)) :
    (c.referencePlan id optional).Within c.Defines Settled := by
  unfold referencePlan
  rcases reference_eq_ok h with ⟨m, hm, -⟩ | ⟨hm, rfl, -⟩
  · have hid : c.Defines id := (hfit.methods id).mp (by rw [hm]; rfl)
    split
    · exact settled_ok _
    · exact ⟨hid, fun r hr => hr⟩
  · have hid : ¬ c.Defines id := fun hid => by
      have := (hfit.methods id).mpr hid
      rw [hm] at this
      cases this
    rw [if_pos (by simpa [Defines] using hid)]
    exact settled_ok _

section
variable (hfit : ctx.Fits c) (hcs : c.ConstructorsFaultless) (hs : c.services.Faultless)
include hfit hcs hs

mutual

theorem plan_within {n n' : Node} {t : Term} (h : node ctx service n = some (.ok t))
    (hn : n.substitute ctx.parameters = .ok n') : (c.plan n').Within c.Defines Settled := by
  cases n with
  | literal v =>
    obtain ⟨w, -, rfl⟩ := Node.substitute_literal hn
    exact settled_ok w
  | parameter key =>
    obtain ⟨w, -, rfl⟩ := Node.substitute_parameter hn
    exact settled_ok w
  | reference id optional =>
    cases hn
    rw [node] at h
    exact referencePlan_within hfit h
  | statement callable args calls =>
    obtain ⟨ts, u, hts, hu, hcalls⟩ := node_statement h
    obtain ⟨callable', args', calls', hcallable, hargs', hcalls', rfl⟩ :=
      Node.substitute_statement hn
    have hcount : args'.length = ts.length := by
      rw [Node.substituteAll_length hargs', nodes_length hts]
    rw [plan]
    refine (planAll_within hts hargs').bind (fun vs hvs => ?_) fun e he => he.1.error_as
    have hvs : vs.length = ts.length := (hvs.2 vs rfl).trans hcount
    cases callable with
    | named name =>
      cases hcallable
      exact (start_within hfit hcs hu.1 hvs).bind
        (fun v _ => planCalls_within hcalls hcalls' v) fun _ he => he
    | method target method =>
      obtain ⟨target', htarget', rfl⟩ := hcallable
      obtain ⟨_, htarget, -⟩ := hu
      refine (plan_within htarget htarget').bind (fun receiver _ => ?_) fun _ he => he
      exact (invokePlan_within hs receiver method vs).bind
        (fun v _ => planCalls_within hcalls hcalls' v) fun _ he => he
    | array =>
      cases hcallable
      exact planCalls_within hcalls hcalls' (.list vs)
    | record keys =>
      cases hcallable
      exact planCalls_within hcalls hcalls' (zipRecord keys vs)

theorem planAll_within {ns ns' : List Node} {ts : List Term}
    (h : nodes ctx service ns = some (.ok ts))
    (hns : Node.substituteAll ctx.parameters ns = .ok ns') :
    (c.planAll ns').Within c.Defines (EndsWith ns'.length) := by
  cases ns with
  | nil =>
    cases hns
    exact ⟨settled_ok _, fun vs hvs => by cases hvs; rfl⟩
  | cons n ns =>
    obtain ⟨t, ts', ht, hts', -⟩ := nodes_cons h
    obtain ⟨m, ms, hm, hms, rfl⟩ := Node.substituteAll_cons hns
    rw [planAll]
    refine (plan_within ht hm).bind (fun v _ => ?_) fun e he =>
      ⟨he.error_as, fun _ hv => nomatch hv⟩
    refine (planAll_within hts' hms).bind (fun vs hvs => ?_)
      fun e he => ⟨he.1.error_as, fun _ hv => nomatch hv⟩
    have hlength : vs.length = ms.length := hvs.2 vs rfl
    refine ⟨settled_ok _, fun ws hws => ?_⟩
    cases hws
    rw [List.length_cons, List.length_cons, hlength]

theorem planCalls_within {receiver t : Term} {calls calls' : List MethodCall}
    (h : chain ctx service receiver calls = some (.ok t))
    (hcalls : Node.substituteCalls ctx.parameters calls = .ok calls') (v : Value) :
    (c.planCalls v calls').Within c.Defines Settled := by
  cases calls with
  | nil =>
    cases hcalls
    exact settled_ok v
  | cons call calls =>
    cases call with
    | mk method args =>
      obtain ⟨ts, hts, h⟩ := chain_cons h
      obtain ⟨args', rest, hargs', hrest, rfl⟩ := Node.substituteCalls_cons hcalls
      rw [planCalls]
      refine (planAll_within hts hargs').bind (fun vs _ => ?_) fun e he => he.1.error_as
      exact (fluentPlan_within hs v method vs).bind
        (fun w _ => planCalls_within h hrest w) fun _ he => he

end

theorem planSetUp_within {calls calls' : List MethodCall} {ts : List (String × List Term)}
    (h : setup ctx service calls = some (.ok ts))
    (hcalls : Node.substituteCalls ctx.parameters calls = .ok calls') (v : Value) :
    (c.planSetUp v calls').Within c.Defines Settled := by
  induction calls generalizing ts calls' with
  | nil =>
    cases hcalls
    exact settled_ok _
  | cons call calls ih =>
    obtain ⟨us, ts', hus, hts', -⟩ := setup_cons h
    cases call with
    | mk method args =>
      obtain ⟨args', rest, hargs', hrest, rfl⟩ := Node.substituteCalls_cons hcalls
      rw [planSetUp]
      refine (planAll_within hfit hcs hs hus hargs').bind (fun vs _ => ?_)
        fun e he => he.1.error_as
      exact (invokePlan_within hs v method vs).bind
        (fun _ _ => ih hts' hrest) fun _ he => he.error_as

end

end Container

/-! ## compiled registries -/

namespace Compile

theorem method_eq_ok {ctx : Context} {d : Definition} {m : SourceMethod}
    (h : method ctx d = some (.ok m)) :
    ∃ t ts, node ctx d.id d.root = some (.ok t) ∧ setup ctx d.id d.setup = some (.ok ts) := by
  rw [method] at h
  obtain ⟨t, ht, h⟩ := Compiling.bind_eq_ok h
  obtain ⟨ts, hts, -⟩ := Compiling.bind_eq_ok h
  exact ⟨t, ts, ht, hts⟩

theorem mapM_eq_ok {α β : Type} {f : α → Compiling β} {l : List α}
    {ys : List β} (h : l.mapM f = some (.ok ys)) : ∀ a ∈ l, ∃ b, f a = some (.ok b) := by
  induction l generalizing ys with
  | nil => exact fun a ha => nomatch ha
  | cons x l ih =>
    rw [List.mapM_cons] at h
    obtain ⟨b, hb, h⟩ := Compiling.bind_eq_ok h
    obtain ⟨bs, hbs, -⟩ := Compiling.bind_eq_ok h
    intro a ha
    rcases List.mem_cons.mp ha with rfl | ha
    · exact ⟨b, hb⟩
    · exact ih hbs a ha

variable {r : Registry} {cs : Option (Constructors σ)} {services : Services σ} {h : Heap σ}
  {options : SourceOptions}

theorem moduleOf_eq_ok {m : SourceModule}
    (hm : moduleOf r cs services h options = some (.ok m)) :
    r.frozen = true ∧
      ∀ d ∈ r.definitions, ∃ sm, method (context r cs services h) d = some (.ok sm) := by
  unfold moduleOf at hm
  by_cases hr : r.frozen = true
  · rw [if_pos hr] at hm
    obtain ⟨_, -, hm⟩ := Compiling.bind_eq_ok hm
    obtain ⟨_, hmethods, -⟩ := Compiling.bind_eq_ok hm
    exact ⟨hr, mapM_eq_ok hmethods⟩
  · rw [if_neg hr] at hm
    cases hm

/-- parameters can be put into all definitions of a registry that has methods for them -/
theorem exists_substituteAll (hmethods : ∀ d ∈ r.definitions,
      ∃ sm, method (context r cs services h) d = some (.ok sm)) :
    ∃ ds, Container.substituteAll r.parameters r.definitions = .ok ds := by
  refine Container.substituteAll_of_forall fun d hd => ?_
  obtain ⟨sm, hsm⟩ := hmethods d hd
  obtain ⟨t, ts, ht, hts⟩ := method_eq_ok hsm
  obtain ⟨root, hroot⟩ := substitute_of_node ht
  obtain ⟨setup, hsetup⟩ := substituteCalls_of_setup hts
  have hroot : d.root.substitute r.parameters = .ok root := hroot
  have hsetup : Node.substituteCalls r.parameters d.setup = .ok setup := hsetup
  exact ⟨_, by rw [Definition.substitute, hroot, hsetup]; rfl⟩

theorem compile_eq_ok {text : String}
    (htext : compile r cs services h options = some (.ok text)) :
    ∃ m, moduleOf r cs services h options = some (.ok m) ∧ text = m.text := by
  rw [compile] at htext
  obtain ⟨m, hm, htext⟩ := Compiling.bind_eq_ok htext
  cases htext
  exact ⟨m, hm, rfl⟩

end Compile

namespace Container

open Compile

/-- the container of a frozen registry knows what the compiler knows -/
theorem context_fits {r : Registry} (hr : r.frozen = true) {cs : Constructors σ}
    {services : Services σ} {c : Container σ} (hc : ofRegistry r cs services = .ok c)
    (h : Heap σ) : (context r (some cs) services h).Fits c where
  methods id := by
    rw [Defines, has_eq hr hc, Registry.has_iff_mem_ids]
    exact methodNames_isSome r.ids id
  arity := by
    obtain ⟨ds, -, rfl⟩ := substituteAll_of_ofRegistry hr hc
    rfl

/-- **A registry that compiles is wired.** When it compiles against the constructors, its container
opens, and no look-up in any run ends with an error of wiring, unless a constructor or a method
comes up with one. -/
theorem compiled_is_wired {r : Registry} {cs : Constructors σ} {services : Services σ}
    {h : Heap σ} {options : SourceOptions} {text : String}
    (htext : Compile.compile r (some cs) services h options = some (.ok text)) :
    ∃ c, ofRegistry r cs services = .ok c ∧
      (c.ConstructorsFaultless → services.Faultless →
        ∀ (client : Construction σ) (h' : Heap σ) (id : String)
          (result : Except ContainerError Value),
          .answered id result ∈ c.trace client h' → ∀ e, result = .error e → ¬ e.Wiring) := by
  obtain ⟨m, hm, -⟩ := compile_eq_ok htext
  obtain ⟨hr, hmethods⟩ := moduleOf_eq_ok hm
  obtain ⟨ds, hds⟩ := exists_substituteAll hmethods
  have hc : ofRegistry r cs services = .ok ⟨{ r with definitions := ds }, cs, services⟩ :=
    ofRegistry_of_substituteAll hr hds
  refine ⟨_, hc, fun hcs hs client h' id result hevent => ?_⟩
  refine trace_settled (fun i d' hd' => ?_) client h' _ hevent
  have hfit := context_fits hr hc h
  obtain ⟨d, hd, hdd⟩ := find?_substituted hr hc hd'
  obtain ⟨sm, hsm⟩ := hmethods d hd
  obtain ⟨t, ts, ht, hts⟩ := method_eq_ok hsm
  obtain ⟨root, setup, hroot, hsetup, rfl⟩ := Definition.substitute_eq_ok hdd
  refine (plan_within hfit hcs hs ht hroot).bind (fun v _ => ?_) fun _ he => he
  exact (planSetUp_within hfit hcs hs hts hsetup v).bind (fun _ _ => settled_ok v)
    fun _ he => he.error_as

/-- objects that count, and say how far they have come -/
def tallies : Services Int64 where
  typeName _ := "Tally"
  exported n := .int n
  call _ self n method args h :=
    if method = "add" then
      match args with
      | [.int k] => (.ok .null, h.put self (.custom (n + k)))
      | _ => (.error (.invalidArgument "Tally" "no number"), h)
    else if method = "total" then (.ok (.int n), h)
    else (.error (.unknownMethod "Tally" method), h)

/-- a tally that starts from a parameter and takes one, and books, which ask for the tally again and take
one or two -/
def tillConstructors : Constructors Int64 :=
  [ ("Tally", ⟨.exactly 1, fun _ args =>
      match args with
      | [.int n] => .create (.custom n)
      | _ => .done (.error (.invalidArgument "Tally" "no number"))⟩),
    ("Books", ⟨.range 1 2, fun _ args => .get "tally" fun r => .done (r.map fun v => .list (v :: args))⟩) ]

/-- a tally with something to add at the start, books with a service that there need not be, and what the
tally comes to -/
def till : Registry :=
  { Registry.ofParameters ⟨[("start", .int 3)], true⟩ with
    definitions :=
      [ { Definition.ofNode "tally" (.create "Tally" [.parameter "start"]) with
          setup := [.mk "add" [.literal (.int 2)]] },
        .ofNode "books" (.create "Books" [.reference "tally" false, .reference "audit" true]),
        .ofNode "total" (.statement (.method (.reference "tally" false) "total") [] []) ]
    frozen := true }

theorem tallies_faultless : tallies.Faultless := by
  intro busy self n method args h
  unfold tallies
  dsimp only
  split
  · split
    · exact settled_ok _
    · exact settled_error fun h => h
  · split
    · exact settled_ok _
    · exact settled_error fun h => h

theorem till_faultless {c : Container Int64} (hcs : c.constructors = tillConstructors)
    (htally : c.has "tally" = true) : c.ConstructorsFaultless := by
  intro name k hk args _
  rw [hcs, tillConstructors, OrderedMap.get?] at hk
  split at hk
  · cases hk
    dsimp only
    split
    · exact fun h => settled_ok _
    · exact settled_error fun h => h
  · rw [OrderedMap.get?] at hk
    split at hk
    · cases hk
      dsimp only
      rw [Construction.Faultless, if_pos htally]
      intro r hr
      cases r with
      | ok v => exact settled_ok _
      | error e => exact hr.error_as
    · cases hk

/-- the tally is looked up while the books are built, and what it comes to is asked of it afterwards -/
theorem till_is_wired : ∃ text c,
    Compile.compile till (some tillConstructors) tallies .empty .standard = some (.ok text) ∧
      ofRegistry till tillConstructors tallies = .ok c ∧ c.ConstructorsFaultless ∧ tallies.Faultless ∧
      (c.get "total" (.ofHeap .empty)).1 = .ok (.int 5) ∧
      ∀ (client : Construction Int64) (h' : Heap Int64) (id : String) (result : Except ContainerError Value),
        .answered id result ∈ c.trace client h' → ∀ e, result = .error e → ¬ e.Wiring := by
  obtain ⟨m, hm⟩ : ∃ m, moduleOf till (some tillConstructors) tallies .empty .standard =
      some (.ok m) := ⟨_, rfl⟩
  have htext : Compile.compile till (some tillConstructors) tallies .empty .standard =
      some (.ok m.text) := by
    rw [Compile.compile, hm]
    rfl
  obtain ⟨c, hc, hwired⟩ := compiled_is_wired htext
  obtain ⟨opened, hopened, hcs, htally, htotal⟩ : ∃ opened,
      ofRegistry till tillConstructors tallies = .ok opened ∧
        opened.constructors = tillConstructors ∧ opened.has "tally" = true ∧
        (opened.get "total" (.ofHeap .empty)).1 = .ok (.int 5) := ⟨_, rfl, rfl, rfl, rfl⟩
  cases hopened.symm.trans hc
  have hfaultless : c.ConstructorsFaultless := till_faultless hcs htally
  exact ⟨m.text, c, htext, hc, hfaultless, tallies_faultless, htotal, hwired hfaultless tallies_faultless⟩

end Container
end ServiceGraph
