import ServiceGraph.Proofs.Container.Plan
import ServiceGraph.Proofs.Node.Order

/-!
# Plans that keep to rules

The plan of a definition asks for what the definition refers to, in evaluation order. It goes on
as long as it gets values and ends with the first error. Which values may be passed on, which
errors may come up and what may be done to the live objects is a matter of the application, and is
left open here.

* `Rules`: what may come up in a plan;
* `Plan.Obeys rules R p ids`: the plan keeps to the rules, ends in `R` and asks for these ids;
* `Plan.Obeys.bind`, `Plan.Obeys.follow`: plans in two steps, and plans that are carried out;
* `Plan.Obeys.follow_rel`: plans that are carried out in two ways;
* `Plan.follow_keeps`: what every look-up keeps is kept by any plan;
* `Container.Keeps`: constructors and services that keep to the rules;
* `Container.definitionPlan_obeys`: then so do the plans of the definitions.
-/

set_option linter.unusedSectionVars false

namespace ServiceGraph

variable {σ α β : Type}

/-- what may come up in a plan -/
structure Rules (σ : Type) where
  /-- an error that is not the answer to a question -/
  error : ContainerError → Prop
  /-- a value that is passed on -/
  value : Value → Prop
  /-- work on the live objects -/
  work : (Heap σ → Heap.Outcome σ) → Prop

namespace Rules

def values (rules : Rules σ) (vs : List Value) : Prop := ∀ v ∈ vs, rules.value v

theorem values_nil (rules : Rules σ) : rules.values [] := List.forall_mem_nil _

theorem values_cons {rules : Rules σ} {v : Value} {vs : List Value} (hv : rules.value v)
    (hvs : rules.values vs) : rules.values (v :: vs) := List.forall_mem_cons.mpr ⟨hv, hvs⟩

end Rules

namespace Plan

variable {rules : Rules σ} {R : α → Prop} {S : β → Prop} {p : Plan σ α} {ids ids' : List String}

/-- the plan keeps to the rules. It asks for the ids in this order while it gets values, gives up at
the first error, and has a result in `R` when it comes to its end. -/
def Obeys (rules : Rules σ) (R : α → Prop) : Plan σ α → List String → Prop
  | done (.ok a), ids => ids = [] ∧ R a
  | done (.error e), _ => rules.error e
  | ask id next, ids => ∃ rest, ids = id :: rest ∧
      (∀ v, rules.value v → Obeys rules R (next (.ok v)) rest) ∧
      ∀ e, next (.error e) = done (.error e)
  | act work next, ids => rules.work work ∧ ∀ h, Obeys rules R (next (work h).1) ids

theorem obeys_pure {a : α} (ha : R a) : (pure a : Plan σ α).Obeys rules R [] := ⟨rfl, ha⟩

theorem Obeys.bind {f : α → Plan σ β} (hp : p.Obeys rules R ids)
    (hf : ∀ a, R a → (f a).Obeys rules S ids') : (p >>= f).Obeys rules S (ids ++ ids') := by
  induction p generalizing ids with
  | done r =>
    cases r with
    | ok a =>
      obtain ⟨rfl, ha⟩ := hp
      exact hf a ha
    | error e => exact hp
  | ask id next ih =>
    obtain ⟨rest, rfl, hok, herror⟩ := hp
    refine ⟨rest ++ ids', rfl, fun v hv => ih _ (hok v hv), fun e => ?_⟩
    show (next (.error e) >>= f) = _
    rw [herror e, done_error_bind]
  | act work next ih =>
    obtain ⟨hwork, hnext⟩ := hp
    exact ⟨hwork, fun h => ih _ (hnext h)⟩

/-- A plan that keeps to the rules is carried out where every id is answered in the way `A` says
and every state is in `I`: it comes to its end after a value for each id, or ends with an error of
its own or with one that it was given. -/
theorem Obeys.follow {I : Building σ → Prop} {A : String → Except ContainerError Value → Prop}
    (heap : ∀ work, rules.work work → ∀ b, I b → I { b with heap := (work b.heap).2 })
    {resolve : String → Build σ Value}
    (answers : ∀ id ∈ ids, ∀ b, I b → A id (resolve id b).1 ∧ I (resolve id b).2)
    (told : ∀ id v, A id (.ok v) → rules.value v)
    (hp : p.Obeys rules R ids) {b : Building σ} (hb : I b) :
    I (p.follow resolve b).2 ∧
    (∀ a, (p.follow resolve b).1 = .ok a → R a ∧ ∀ id ∈ ids, ∃ v, A id (.ok v)) ∧
    (∀ e, (p.follow resolve b).1 = .error e → rules.error e ∨ ∃ id ∈ ids, A id (.error e)) := by
  -- by induction on the plan; `ids` is what it may still ask for
  induction p generalizing ids b with
  | done r =>
    refine ⟨hb, fun a ha => ?_, fun e he => ?_⟩
    · cases ha
      obtain ⟨rfl, hR⟩ := hp
      exact ⟨hR, List.forall_mem_nil _⟩
    · cases he
      exact .inl hp
  | ask id next ih =>
    obtain ⟨rest, rfl, hok, herror⟩ := hp
    obtain ⟨hA, hI⟩ := answers id (List.mem_cons_self ..) b hb
    rw [follow_ask]
    cases hr : (resolve id b).1 with
    | error e =>
      rw [hr] at hA
      rw [herror e, follow_done]
      refine ⟨hI, fun a ha => (by cases ha), fun e' he' => ?_⟩
      cases he'
      exact .inr ⟨id, List.mem_cons_self .., hA⟩
    | ok v =>
      rw [hr] at hA
      have hrest := ih (.ok v) (fun j hj => answers j (List.mem_cons_of_mem _ hj))
        (hok v (told id v hA)) hI
      obtain ⟨hlast, hvalue, hfail⟩ := hrest
      refine ⟨hlast, fun a ha => ?_, fun e he => ?_⟩
      · obtain ⟨hR, hall⟩ := hvalue a ha
        exact ⟨hR, List.forall_mem_cons.mpr ⟨⟨v, hA⟩, hall⟩⟩
      · rcases hfail e he with hown | ⟨j, hj, hAj⟩
        · exact .inl hown
        · exact .inr ⟨j, List.mem_cons_of_mem _ hj, hAj⟩
  | act work next ih =>
    obtain ⟨hwork, hnext⟩ := hp
    rw [follow_act]
    exact ih _ answers (hnext b.heap) (heap work hwork b hb)

/-- A plan that keeps to the rules is carried out in two ways, from states that are related by `S`.
When the work and the answers are the same and keep the states related, so is the outcome. -/
theorem Obeys.follow_rel {S : Building σ → Building σ → Prop}
    (heap : ∀ work, rules.work work → ∀ b b', S b b' → (work b.heap).1 = (work b'.heap).1 ∧
      S { b with heap := (work b.heap).2 } { b' with heap := (work b'.heap).2 })
    {resolve resolve' : String → Build σ Value}
    (answers : ∀ id ∈ ids, ∀ b b', S b b' → (resolve id b).1 = (resolve' id b').1 ∧
      (∀ v, (resolve id b).1 = .ok v → rules.value v) ∧ S (resolve id b).2 (resolve' id b').2)
    (hp : p.Obeys rules R ids) {b b' : Building σ} (hb : S b b') :
    (p.follow resolve b).1 = (p.follow resolve' b').1 ∧
      S (p.follow resolve b).2 (p.follow resolve' b').2 := by
  induction p generalizing ids b b' with
  | done r => exact ⟨rfl, hb⟩
  | ask id next ih =>
    obtain ⟨rest, rfl, hok, herror⟩ := hp
    obtain ⟨hsame, htold, hS⟩ := answers id (List.mem_cons_self ..) b b' hb
    rw [follow_ask, follow_ask, ← hsame]
    cases hr : (resolve id b).1 with
    | error e =>
      rw [herror e, follow_done, follow_done]
      exact ⟨rfl, hS⟩
    | ok v =>
      have hv : rules.value v := htold v hr
      exact ih (.ok v) (fun j hj => answers j (List.mem_cons_of_mem _ hj)) (hok v hv) hS
  | act work next ih =>
    obtain ⟨hwork, hnext⟩ := hp
    obtain ⟨hsame, hS⟩ := heap work hwork b b' hb
    rw [follow_act, follow_act, ← hsame]
    exact ih _ answers (hnext b.heap) hS

theorem follow_keeps {I : Building σ → Prop} (heap : ∀ b h, I b → I { b with heap := h })
    {resolve : String → Build σ Value} (kept : ∀ id b, I b → I (resolve id b).2)
    (p : Plan σ α) {b : Building σ} (hb : I b) : I (p.follow resolve b).2 := by
  induction p generalizing b with
  | done r => exact hb
  | ask id next ih => exact ih _ (kept id b hb)
  | act work next ih => exact ih _ (heap b _ hb)

end Plan

/-! ## data and services of definitions -/

namespace Node

mutual

/-- the values that a node brings along, `parameter` answering for its parameters -/
def data (parameter : String → Except ContainerError Value) : Node → List Value
  | literal v => [v]
  | .parameter key => (parameter key).toOption.toList
  | reference _ _ => []
  | statement callable args calls =>
    dataOfCallable parameter callable ++ (dataOf parameter args ++ dataOfCalls parameter calls)

def dataOfCallable (parameter : String → Except ContainerError Value) : Callable → List Value
  | .method target _ => data parameter target
  | .named _ | .array | .record _ => []

def dataOf (parameter : String → Except ContainerError Value) : List Node → List Value
  | [] => []
  | n :: ns => data parameter n ++ dataOf parameter ns

def dataOfCalls (parameter : String → Except ContainerError Value) : List MethodCall → List Value
  | [] => []
  | .mk _ args :: calls => dataOf parameter args ++ dataOfCalls parameter calls

end

def evaluationOrderOfCallable (defined : String → Bool) : Callable → List String
  | .method target _ => evaluationOrder defined target
  | .named _ | .array | .record _ => []

theorem evaluationOrder_statement (defined : String → Bool) (callable : Callable)
    (args : List Node) (calls : List MethodCall) :
    (statement callable args calls).evaluationOrder defined =
      evaluationOrderOf defined args ++
        (evaluationOrderOfCallable defined callable ++ evaluationOrderOfCalls defined calls) := by
  cases callable <;> exact List.append_assoc ..

end Node

namespace Definition

def data (parameter : String → Except ContainerError Value) (d : Definition) : List Value :=
  d.root.data parameter ++ Node.dataOfCalls parameter d.setup

/-- the services that building a definition asks for, in order -/
def evaluationOrder (defined : String → Bool) (d : Definition) : List String :=
  d.root.evaluationOrder defined ++ Node.evaluationOrderOfCalls defined d.setup

theorem mem_evaluationOrder {defined : String → Bool} {id : String} (hid : defined id = true)
    (d : Definition) : id ∈ d.evaluationOrder defined ↔ id ∈ d.references := by
  rw [evaluationOrder, references, List.mem_append, List.mem_append,
    Node.mem_evaluationOrder_iff hid, Node.mem_evaluationOrderOfCalls_iff hid]

end Definition

namespace Container

def calleePlan (c : Container σ) (args : List Value) : Callable → Plan σ Value
  | .named name => (c.constructors.start c.lookup name args).plan c
  | .method target method => do c.invokePlan (← c.plan target) method args
  | .array => pure (.list args)
  | .record keys => pure (zipRecord keys args)

theorem plan_statement (c : Container σ) (callable : Callable) (args : List Node)
    (calls : List MethodCall) :
    c.plan (.statement callable args calls) =
      (do c.planCalls (← c.calleePlan (← c.planAll args) callable) calls) := by
  rw [plan]
  cases callable with
  | method target method => simp only [calleePlan, Plan.bind_assoc]
  | named name | array | record keys => rfl

/-- the constructors and the services of a container keep to the rules, and so does what the
container makes of values -/
structure Keeps (c : Container σ) (rules : Rules σ) : Prop where
  unknown : ∀ id, rules.error (.unknownService id)
  parameter : ∀ e, rules.error (.parameter e)
  null : rules.value .null
  list : ∀ vs, rules.values vs → rules.value (.list vs)
  record : ∀ keys vs, rules.values vs → rules.value (zipRecord keys vs)
  start : ∀ name args, rules.values args →
    ((c.constructors.start c.lookup name args).plan c).Obeys rules rules.value []
  invoke : ∀ receiver method args, rules.value receiver → rules.values args →
    (c.invokePlan receiver method args).Obeys rules rules.value []
  fluent : ∀ receiver method args, rules.value receiver → rules.values args →
    (c.fluentPlan receiver method args).Obeys rules rules.value []

section
variable {c : Container σ} {rules : Rules σ} (hc : c.Keeps rules)
include hc

theorem parameter_obeys {key : String} (hkey : rules.values (c.parameter key).toOption.toList) :
    (Plan.done (c.parameter key)).Obeys rules rules.value [] := by
  unfold Container.parameter at hkey ⊢
  cases h : c.registry.parameters.get key with
  | ok v =>
    rw [h] at hkey
    exact ⟨rfl, hkey v (List.mem_singleton_self v)⟩
  | error e => exact hc.parameter e

theorem referencePlan_obeys (id : String) (optional : Bool) :
    (c.referencePlan id optional).Obeys rules rules.value
      (Node.referenced c.registry.has id optional) := by
  unfold referencePlan Node.referenced
  split
  · exact Plan.obeys_pure hc.null
  · exact ⟨[], rfl, fun v hv => ⟨rfl, hv⟩, fun e => rfl⟩

mutual

theorem plan_obeys {n : Node} (hn : rules.values (n.data c.parameter)) :
    (c.plan n).Obeys rules rules.value (n.evaluationOrder c.registry.has) := by
  cases n with
  | literal v => exact Plan.obeys_pure (hn v (List.mem_singleton_self v))
  | parameter key => exact parameter_obeys hc hn
  | reference id optional => exact referencePlan_obeys hc id optional
  | statement callable args calls =>
    obtain ⟨hcallable, hrest⟩ := List.forall_mem_append.mp hn
    obtain ⟨hargs, hcalls⟩ := List.forall_mem_append.mp hrest
    rw [plan_statement, Node.evaluationOrder_statement]
    apply (planAll_obeys hargs).bind
    intro vs hvs
    apply (calleePlan_obeys hcallable hvs).bind
    intro v hv
    exact planCalls_obeys hv hcalls

theorem calleePlan_obeys {callable : Callable}
    (hcallable : rules.values (Node.dataOfCallable c.parameter callable)) {args : List Value}
    (hargs : rules.values args) :
    (c.calleePlan args callable).Obeys rules rules.value
      (Node.evaluationOrderOfCallable c.registry.has callable) := by
  cases callable with
  | named name => exact hc.start name args hargs
  | method target method =>
    rw [calleePlan, Node.evaluationOrderOfCallable,
      ← List.append_nil (target.evaluationOrder c.registry.has)]
    apply (plan_obeys hcallable).bind
    intro receiver hreceiver
    exact hc.invoke receiver method args hreceiver hargs
  | array => exact Plan.obeys_pure (hc.list args hargs)
  | record keys => exact Plan.obeys_pure (hc.record keys args hargs)

theorem planAll_obeys {ns : List Node} (hns : rules.values (Node.dataOf c.parameter ns)) :
    (c.planAll ns).Obeys rules rules.values (Node.evaluationOrderOf c.registry.has ns) := by
  cases ns with
  | nil => exact Plan.obeys_pure rules.values_nil
  | cons n ns =>
    obtain ⟨hn, hns⟩ := List.forall_mem_append.mp hns
    rw [planAll, Node.evaluationOrderOf]
    apply (plan_obeys hn).bind
    intro v hv
    rw [← List.append_nil (Node.evaluationOrderOf c.registry.has ns)]
    apply (planAll_obeys hns).bind
    intro vs hvs
    exact Plan.obeys_pure (Rules.values_cons hv hvs)

theorem planCalls_obeys {receiver : Value} (hreceiver : rules.value receiver)
    {calls : List MethodCall} (hcalls : rules.values (Node.dataOfCalls c.parameter calls)) :
    (c.planCalls receiver calls).Obeys rules rules.value
      (Node.evaluationOrderOfCalls c.registry.has calls) := by
  cases calls with
  | nil => exact Plan.obeys_pure hreceiver
  | cons call calls =>
    cases call with
    | mk method args =>
      obtain ⟨hargs, hcalls⟩ := List.forall_mem_append.mp hcalls
      rw [planCalls, Node.evaluationOrderOfCalls]
      apply (planAll_obeys hargs).bind
      intro vs hvs
      apply (hc.fluent receiver method vs hreceiver hvs).bind
      intro v hv
      exact planCalls_obeys hv hcalls

end

theorem planSetUp_obeys {v : Value} (hv : rules.value v) {calls : List MethodCall}
    (hcalls : rules.values (Node.dataOfCalls c.parameter calls)) :
    (c.planSetUp v calls).Obeys rules (fun _ => True)
      (Node.evaluationOrderOfCalls c.registry.has calls) := by
  induction calls with
  | nil => exact Plan.obeys_pure trivial
  | cons call calls ih =>
    cases call with
    | mk method args =>
      obtain ⟨hargs, hcalls⟩ := List.forall_mem_append.mp hcalls
      rw [planSetUp, Node.evaluationOrderOfCalls]
      apply (planAll_obeys hc hargs).bind
      intro vs hvs
      apply (hc.invoke v method vs hv hvs).bind
      intro _ _
      exact ih hcalls

/-- the plan of a definition asks for what the definition refers to -/
theorem definitionPlan_obeys {d : Definition} (hd : rules.values (d.data c.parameter)) :
    (c.definitionPlan d).Obeys rules rules.value (d.evaluationOrder c.registry.has) := by
  obtain ⟨hroot, hsetup⟩ := List.forall_mem_append.mp hd
  rw [definitionPlan, Definition.evaluationOrder]
  apply (plan_obeys hc hroot).bind
  intro v hv
  rw [← List.append_nil (Node.evaluationOrderOfCalls c.registry.has d.setup)]
  apply (planSetUp_obeys hc hv hsetup).bind
  intro _ _
  exact Plan.obeys_pure hv

end

end Container
end ServiceGraph
