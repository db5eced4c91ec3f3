import ServiceGraph.Container.Basic

/-!
# Evaluation as a plan

Evaluating a node is a dialogue: it asks for services, works on the live objects, and goes on with
what comes back. A plan is that dialogue written down, so that what is to be said of evaluation is
said of three constructors.

* `Plan`: a result, a service asked for, or work on the live objects;
* `Plan.follow`: the plan carried out, given how services are resolved;
* `Container.plan`, `planAll`, `planCalls`: the plan of a node, of nodes, of calls;
* `Container.definitionPlan`: the plan of a definition, its setup included;
* `Container.evaluate_eq_follow`, `build_eq`: evaluation carries the plan out;
* `Plan.asked`: the services that a plan asks for when it is carried out.
-/

namespace ServiceGraph

/-- a dialogue with a container -/
inductive Plan (σ α : Type) where
  | done (result : Except ContainerError α)
  /-- ask for a service, private ones included, and go on with what comes back -/
  | ask (id : String) (next : Except ContainerError Value → Plan σ α)
  /-- work on the live objects and go on with what comes of it -/
  | act (work : Heap σ → Heap.Outcome σ) (next : Except ContainerError Value → Plan σ α)

namespace Plan

variable {σ α β γ : Type}

/-- go on with the value of a plan; an error ends the plan -/
def bind : Plan σ α → (α → Plan σ β) → Plan σ β
  | done (.ok a), f => f a
  | done (.error e), _ => done (.error e)
  | ask id next, f => ask id fun r => bind (next r) f
  | act work next, f => act work fun r => bind (next r) f

instance : Monad (Plan σ) where
  pure a := done (.ok a)
  bind := bind

@[simp] theorem done_ok_bind (a : α) (f : α → Plan σ β) : (done (.ok a) >>= f) = f a := rfl

@[simp] theorem pure_bind (a : α) (f : α → Plan σ β) : ((pure a : Plan σ α) >>= f) = f a := rfl

@[simp] theorem done_error_bind (e : ContainerError) (f : α → Plan σ β) :
    (done (.error e) >>= f) = done (.error e) := rfl

@[simp] theorem ask_bind (id : String) (next : Except ContainerError Value → Plan σ α)
    (f : α → Plan σ β) : (ask id next >>= f) = ask id fun r => next r >>= f := rfl

@[simp] theorem act_bind (work : Heap σ → Heap.Outcome σ)
    (next : Except ContainerError Value → Plan σ α) (f : α → Plan σ β) :
    (act work next >>= f) = act work fun r => next r >>= f := rfl

theorem map_id (p : Plan σ α) : id <$> p = p := by
  induction p with
  | done r => cases r <;> rfl
  | ask i next ih => exact congrArg (ask i) (funext ih)
  | act work next ih => exact congrArg (act work) (funext ih)

theorem bind_assoc (p : Plan σ α) (f : α → Plan σ β) (g : β → Plan σ γ) :
    (p >>= f >>= g) = p >>= fun a => f a >>= g := by
  induction p with
  | done r => cases r <;> rfl
  | ask i next ih => exact congrArg (ask i) (funext ih)
  | act work next ih => exact congrArg (act work) (funext ih)

instance : LawfulMonad (Plan σ) :=
  LawfulMonad.mk' (Plan σ) map_id (fun _ _ => rfl) bind_assoc

/-! ## carrying a plan out -/

/-- carry a plan out, given how services are resolved -/
def follow (resolve : String → Build σ Value) : Plan σ α → Build σ α
  | done result => .ofOutcome result
  | ask id next => do follow resolve (next (← (resolve id).outcome))
  | act work next => do follow resolve (next (← (Build.onHeap work).outcome))

variable (resolve : String → Build σ Value)

@[simp] theorem follow_done (r : Except ContainerError α) (b : Building σ) :
    follow resolve (done r) b = (r, b) := rfl

@[simp] theorem follow_pure (a : α) (b : Building σ) :
    follow resolve (pure a) b = (.ok a, b) := rfl

@[simp] theorem follow_ask (id : String) (next : Except ContainerError Value → Plan σ α)
    (b : Building σ) :
    follow resolve (ask id next) b = follow resolve (next (resolve id b).1) (resolve id b).2 :=
  rfl

@[simp] theorem follow_act (work : Heap σ → Heap.Outcome σ)
    (next : Except ContainerError Value → Plan σ α) (b : Building σ) :
    follow resolve (act work next) b =
      follow resolve (next (work b.heap).1) { b with heap := (work b.heap).2 } := rfl

theorem follow_bind (p : Plan σ α) (f : α → Plan σ β) :
    follow resolve (p >>= f) = follow resolve p >>= fun a => follow resolve (f a) := by
  funext b
  induction p generalizing b with
  | done r => cases r <;> rfl
  | ask id next ih => exact ih (resolve id b).1 (resolve id b).2
  | act work next ih => exact ih (work b.heap).1 { b with heap := (work b.heap).2 }

/-- the ids that a plan asks for when it is carried out, in order -/
def asked : Plan σ α → Building σ → List String
  | done _, _ => []
  | ask id next, b => id :: asked (next (resolve id b).1) (resolve id b).2
  | act work next, b => asked (next (work b.heap).1) { b with heap := (work b.heap).2 }

/-- a plan in two steps that succeeds: both succeed, and both ask -/
theorem bind_eq_ok {p : Plan σ α} {f : α → Plan σ β} {b b' : Building σ} {v : β}
    (h : follow resolve (p >>= f) b = (.ok v, b')) :
    ∃ a b₁, follow resolve p b = (.ok a, b₁) ∧ follow resolve (f a) b₁ = (.ok v, b') ∧
      asked resolve (p >>= f) b = asked resolve p b ++ asked resolve (f a) b₁ := by
  induction p generalizing b with
  | done r =>
    cases r with
    | ok a => exact ⟨a, b, rfl, h, rfl⟩
    | error e => cases h
  | ask id next ih =>
    obtain ⟨a, b₁, hp, hf, hasked⟩ := ih _ h
    exact ⟨a, b₁, hp, hf, congrArg (id :: ·) hasked⟩
  | act work next ih =>
    obtain ⟨a, b₁, hp, hf, hasked⟩ := ih _ h
    exact ⟨a, b₁, hp, hf, hasked⟩

end Plan

/-- the plan of a constructor's run; a service that is not public is refused at once -/
def Construction.plan {σ : Type} (c : Container σ) : Construction σ → Plan σ Value
  | done result => .done result
  | get id next =>
    if c.has id then .ask id fun r => plan c (next r)
    else plan c (next (.error (.unknownService id)))
  | act work next => .act work fun r => plan c (next r)

namespace Container

variable {σ : Type}

def referencePlan (c : Container σ) (id : String) (optional : Bool) : Plan σ Value :=
  if optional && !c.registry.has id then pure .null else .ask id .done

def invokePlan (c : Container σ) (receiver : Value) (method : String) (args : List Value) :
    Plan σ Value :=
  .act (·.invoke c.services receiver method args) .done

def fluentPlan (c : Container σ) (receiver : Value) (method : String) (args : List Value) :
    Plan σ Value :=
  .act (·.fluent c.services receiver method args) .done

mutual

/-- the plan of a node: first its arguments, then what it invokes, then the calls on it -/
def plan (c : Container σ) : Node → Plan σ Value
  | .literal v => pure v
  | .parameter key => .done (c.parameter key)
  | .reference id optional => c.referencePlan id optional
  | .statement callable args calls => do
    let args ← planAll c args
    let v ← match callable with
      | .named name => (c.constructors.start c.lookup name args).plan c
      | .method target method => do c.invokePlan (← plan c target) method args
      | .array => pure (.list args)
      | .record keys => pure (zipRecord keys args)
    planCalls c v calls

def planAll (c : Container σ) : List Node → Plan σ (List Value)
  | [] => pure []
  | n :: ns => return (← plan c n) :: (← planAll c ns)

def planCalls (c : Container σ) (receiver : Value) : List MethodCall → Plan σ Value
  | [] => pure receiver
  | .mk method args :: calls => do
    let args ← planAll c args
    planCalls c (← c.fluentPlan receiver method args) calls

end

def planSetUp (c : Container σ) (v : Value) : List MethodCall → Plan σ Unit
  | [] => pure ()
  | call :: calls => do
    let args ← planAll c call.args
    let _ ← c.invokePlan v call.method args
    planSetUp c v calls

def definitionPlan (c : Container σ) (d : Definition) : Plan σ Value := do
  let v ← c.plan d.root
  planSetUp c v d.setup
  return v

/-! ## evaluation carries the plan out -/

section
variable (c : Container σ) (resolve : String → Build σ Value)

theorem run_eq_follow (k : Construction σ) : c.run resolve k = (k.plan c).follow resolve := by
  funext b
  induction k generalizing b with
  | done r => rfl
  | get id next ih =>
    show c.run resolve (next (c.getWith resolve id b).1) (c.getWith resolve id b).2 = _
    rw [ih]
    by_cases h : c.has id
    · simp only [getWith, Construction.plan, h, if_true]
      rfl
    · simp only [getWith, Construction.plan, h]
      rfl
  | act work next ih => exact ih _ _

theorem reference_eq_follow (id : String) (optional : Bool) :
    c.reference resolve id optional = (c.referencePlan id optional).follow resolve := by
  unfold reference referencePlan
  split
  · rfl
  · funext b
    rfl

mutual

theorem evaluate_eq_follow (n : Node) : c.evaluate resolve n = (c.plan n).follow resolve := by
  cases n with
  | literal v => rfl
  | parameter key => rfl
  | reference id optional => exact c.reference_eq_follow resolve id optional
  | statement callable args calls =>
    simp only [evaluate, plan, Plan.follow_bind, evaluateAll_eq_follow args]
    congr 1
    funext vs
    cases callable with
    | named name =>
      simp only [run_eq_follow, Plan.follow_bind, evaluateCalls_eq_follow _ calls]
    | method target method =>
      simp only [Plan.follow_bind, evaluate_eq_follow target, evaluateCalls_eq_follow _ calls]
      rfl
    | array => exact evaluateCalls_eq_follow _ calls
    | record keys => exact evaluateCalls_eq_follow _ calls

theorem evaluateAll_eq_follow (ns : List Node) :
    c.evaluateAll resolve ns = (c.planAll ns).follow resolve := by
  cases ns with
  | nil => rfl
  | cons n ns =>
    simp only [evaluateAll, planAll, Plan.follow_bind, evaluate_eq_follow n,
      evaluateAll_eq_follow ns]
    rfl

theorem evaluateCalls_eq_follow (v : Value) (calls : List MethodCall) :
    c.evaluateCalls resolve v calls = (c.planCalls v calls).follow resolve := by
  cases calls with
  | nil => rfl
  | cons call calls =>
    cases call with
    | mk method args =>
      simp only [evaluateCalls, planCalls, Plan.follow_bind, evaluateAll_eq_follow args,
        evaluateCalls_eq_follow _ calls]
      rfl

end

theorem setUp_eq_follow (v : Value) (calls : List MethodCall) :
    c.setUp resolve v calls = (c.planSetUp v calls).follow resolve := by
  induction calls with
  | nil => rfl
  | cons call calls ih =>
    simp only [setUp, planSetUp, Plan.follow_bind, evaluateAll_eq_follow, ih]
    rfl

/-- building a definition is its plan, and then the memory of it -/
theorem build_eq (d : Definition) :
    c.build resolve d = do
      let v ← (c.definitionPlan d).follow resolve
      if d.shared then modify fun b => { b with instances := b.instances.insert d.id v }
      return v := by
  simp only [build, definitionPlan, Plan.follow_bind, evaluate_eq_follow, setUp_eq_follow,
    bind_assoc]
  rfl

end

end Container
end ServiceGraph
