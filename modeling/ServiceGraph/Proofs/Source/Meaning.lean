import ServiceGraph.Proofs.Source.Order
import ServiceGraph.Proofs.Source.Unambiguous

/-!
# The meaning of a term

A container can evaluate a term as it evaluates a node, arguments first. What it makes of the term
of a node is what it makes of the node itself, and since a text is the text of one term, two nodes
with one text cannot be told apart.

* `Term.plan`: the plan of a term;
* `Value.Plain`, `Node.Plain`: data without live objects and NaNs, nodes with such literals;
* `Container.plan_node`: a node and its term have one plan;
* `Compile.legible_node`: the term of a plain node is legible;
* `Container.evaluate_eq_of_render_eq`: plain nodes with one text evaluate alike.
-/

set_option linter.unusedSectionVars false

namespace ServiceGraph

variable {σ : Type}

/-! ## the plan of a term -/

namespace Term

mutual

/-- the plan of a term; like a node it has its arguments evaluated before its receiver, except where
a call goes on with a value that is there -/
def plan (c : Container σ) (methods : OrderedMap String) : Term → Plan σ Value
  | null => pure .null
  | bool b => pure (.bool b)
  | int n => pure (.int n)
  | float x => pure (.float x)
  | str s => pure (.str s)
  | list ts => return .list (← planAll c methods ts)
  | map es => return Container.zipRecord (es.map Prod.fst) (← planEntries c methods es)
  | revive typeName state => do
    (c.constructors.revive c.lookup typeName (← plan c methods state)).plan c
  | parameter key => .done (c.parameter key)
  | service method => .ask ((Compile.idOf methods method).getD method) .done
  | construct name ts => do
    (c.constructors.start c.lookup name (← planAll c methods ts)).plan c
  | invoke receiver method ts => do
    let args ← planAll c methods ts
    c.invokePlan (← plan c methods receiver) method args
  | fluent receiver method ts => do
    let v ← plan c methods receiver
    c.fluentPlan v method (← planAll c methods ts)

def planAll (c : Container σ) (methods : OrderedMap String) : List Term → Plan σ (List Value)
  | [] => pure []
  | t :: ts => return (← plan c methods t) :: (← planAll c methods ts)

def planEntries (c : Container σ) (methods : OrderedMap String) :
    List (String × Term) → Plan σ (List Value)
  | [] => pure []
  | (_, t) :: es => return (← plan c methods t) :: (← planEntries c methods es)

end

theorem planEntries_zip (c : Container σ) (methods : OrderedMap String) {keys : List String}
    {ts : List Term} (h : ts.length ≤ keys.length) :
    planEntries c methods (keys.zip ts) = planAll c methods ts := by
  induction ts generalizing keys with
  | nil =>
    rw [List.zip_nil_right]
    rfl
  | cons t ts ih =>
    cases keys with
    | nil => exact absurd h (by simp)
    | cons k keys =>
      rw [List.zip_cons_cons, planEntries, planAll, ih (by simpa using h)]

end Term

/-! ## plain data -/

namespace Value

mutual

/-- no live object and no NaN stands in a value, and no map in it repeats a key -/
def Plain : Value → Prop
  | null | bool _ | int _ | str _ => True
  | float x => x.isNaN = false
  | list items => PlainItems items
  | map entries => OrderedMap.Distinct entries ∧ PlainEntries entries
  | service _ => False

def PlainItems : List Value → Prop
  | [] => True
  | v :: vs => Plain v ∧ PlainItems vs

def PlainEntries : List (String × Value) → Prop
  | [] => True
  | (_, v) :: vs => Plain v ∧ PlainEntries vs

end

end Value

namespace Node

mutual

/-- the literals of a node are plain once they are expanded, and its records have a key for every
argument and an argument for every key -/
def Plain (p : Parameters) : Node → Prop
  | literal v => ∀ w, p.expand v = .ok w → w.Plain
  | parameter _ | reference _ _ => True
  | statement callable args calls =>
    PlainCallable p args.length callable ∧ PlainAll p args ∧ PlainCalls p calls

def PlainCallable (p : Parameters) (count : Nat) : Callable → Prop
  | .method target _ => Plain p target
  | .record keys => keys.length = count
  | .named _ | .array => True

def PlainAll (p : Parameters) : List Node → Prop
  | [] => True
  | n :: ns => Plain p n ∧ PlainAll p ns

def PlainCalls (p : Parameters) : List MethodCall → Prop
  | [] => True
  | .mk _ args :: calls => PlainAll p args ∧ PlainCalls p calls

end

end Node

namespace Term

/-! ## terms of plain data -/

section
variable (c : Container σ) (methods : OrderedMap String) {object : ObjectId → Option Term}

mutual

/-- the term of plain data is legible -/
theorem legible_ofValueWith {v : Value} (hv : v.Plain) {t : Term}
    (h : ofValueWith object v = some t) : t.Legible := by
  cases v with
  | null | bool _ | int _ | str _ =>
    cases h
    trivial
  | float x =>
    cases h
    exact hv
  | list items =>
    obtain ⟨ts, hts, rfl⟩ := ofValueWith_list h
    exact legibleAll_ofItems hv hts
  | map entries =>
    obtain ⟨es, hes, rfl⟩ := ofValueWith_map h
    exact legibleEntries_ofEntries hv.2 hes
  | service id => exact hv.elim

theorem legibleAll_ofItems {vs : List Value} (hvs : Value.PlainItems vs) {ts : List Term}
    (h : ofItems object vs = some ts) : LegibleAll ts := by
  cases vs with
  | nil =>
    cases h
    trivial
  | cons v vs =>
    obtain ⟨t, ts', ht, hts', rfl⟩ := ofItems_cons h
    exact ⟨legible_ofValueWith hvs.1 ht, legibleAll_ofItems hvs.2 hts'⟩

theorem legibleEntries_ofEntries {vs : List (String × Value)} (hvs : Value.PlainEntries vs)
    {es : List (String × Term)} (h : ofEntries object vs = some es) : LegibleEntries es := by
  cases vs with
  | nil =>
    cases h
    trivial
  | cons e vs =>
    cases e with
    | mk k v =>
      obtain ⟨t, es', ht, hes', rfl⟩ := ofEntries_cons h
      exact ⟨legible_ofValueWith hvs.1 ht, legibleEntries_ofEntries hvs.2 hes'⟩

end

theorem legibleEntries_zip (keys : List String) {ts : List Term} (h : LegibleAll ts) :
    LegibleEntries (keys.zip ts) := by
  induction ts generalizing keys with
  | nil =>
    rw [List.zip_nil_right]
    trivial
  | cons t ts ih =>
    cases keys with
    | nil => trivial
    | cons k keys => exact ⟨h.1, ih keys h.2⟩

mutual

/-- the term of plain data means the data -/
theorem plan_ofValueWith {v : Value} (hv : v.Plain) {t : Term}
    (h : ofValueWith object v = some t) : t.plan c methods = pure v := by
  cases v with
  | null | bool _ | int _ | str _ | float _ =>
    cases h
    rfl
  | list items =>
    obtain ⟨ts, hts, rfl⟩ := ofValueWith_list h
    rw [plan, planAll_ofItems hv hts]
    rfl
  | map entries =>
    obtain ⟨es, hes, rfl⟩ := ofValueWith_map h
    obtain ⟨hkeys, hplan⟩ := planEntries_ofEntries hv.2 hes
    rw [plan, hplan, hkeys]
    exact congrArg (fun w => (pure w : Plan σ Value)) (Container.zipRecord_of_distinct hv.1)
  | service id => exact hv.elim

theorem planAll_ofItems {vs : List Value} (hvs : Value.PlainItems vs) {ts : List Term}
    (h : ofItems object vs = some ts) : planAll c methods ts = pure vs := by
  cases vs with
  | nil =>
    cases h
    rfl
  | cons v vs =>
    obtain ⟨t, ts', ht, hts', rfl⟩ := ofItems_cons h
    rw [planAll, plan_ofValueWith hvs.1 ht, planAll_ofItems hvs.2 hts']
    rfl

theorem planEntries_ofEntries {vs : List (String × Value)} (hvs : Value.PlainEntries vs)
    {es : List (String × Term)} (h : ofEntries object vs = some es) :
    es.map Prod.fst = vs.map Prod.fst ∧
      planEntries c methods es = pure (vs.map Prod.snd) := by
  cases vs with
  | nil =>
    cases h
    exact ⟨rfl, rfl⟩
  | cons e vs =>
    cases e with
    | mk k v =>
      obtain ⟨t, es', ht, hes', rfl⟩ := ofEntries_cons h
      obtain ⟨hkeys, hplan⟩ := planEntries_ofEntries hvs.2 hes'
      refine ⟨congrArg (k :: ·) hkeys, ?_⟩
      rw [planEntries, plan_ofValueWith hvs.1 ht, hplan]
      rfl

end

end

end Term

namespace Compile

variable {ctx : Context} {service : String}

section
variable {p : Parameters} (hp : ctx.parameters = p)
  (hnames : ∀ id m, ctx.methods.get? id = some m → MethodName m)
include hp hnames

mutual

/-- the term of a plain node is legible -/
theorem legible_node {n : Node} {t : Term} (h : node ctx service n = some (.ok t))
    (hplain : n.Plain p) : t.Legible := by
  cases n with
  | literal v =>
    rw [node] at h
    obtain ⟨w, hw, ht⟩ := literal_eq_ok h
    rw [hp] at hw
    exact Term.legible_ofValueWith (hplain w hw) ht
  | parameter key =>
    rw [node] at h
    obtain ⟨w, -, rfl⟩ := parameter_eq_ok h
    trivial
  | reference id optional =>
    rw [node] at h
    rcases reference_eq_ok h with ⟨m, hm, rfl⟩ | ⟨-, -, rfl⟩
    · exact hnames id m hm
    · trivial
  | statement callable args calls =>
    obtain ⟨ts, u, hts, hu, hchain⟩ := node_statement h
    obtain ⟨hcallable, hargs, hcalls⟩ := hplain
    have hlegible := legibleAll_nodes hts hargs
    refine legible_chain hchain ?_ hcalls
    cases callable with
    | named name =>
      obtain ⟨-, rfl⟩ := hu
      exact hlegible
    | method target method =>
      obtain ⟨receiver, hreceiver, rfl⟩ := hu
      exact ⟨legible_node hreceiver hcallable, hlegible⟩
    | array =>
      cases hu
      exact hlegible
    | record keys =>
      cases hu
      exact Term.legibleEntries_zip keys hlegible

theorem legibleAll_nodes {ns : List Node} {ts : List Term}
    (h : nodes ctx service ns = some (.ok ts)) (hplain : Node.PlainAll p ns) :
    Term.LegibleAll ts := by
  cases ns with
  | nil =>
    cases h
    trivial
  | cons n ns =>
    obtain ⟨t, ts', ht, hts', rfl⟩ := nodes_cons h
    exact ⟨legible_node ht hplain.1, legibleAll_nodes hts' hplain.2⟩

theorem legible_chain {receiver t : Term} {calls : List MethodCall}
    (h : chain ctx service receiver calls = some (.ok t)) (hreceiver : receiver.Legible)
    (hplain : Node.PlainCalls p calls) : t.Legible := by
  cases calls with
  | nil =>
    cases h
    exact hreceiver
  | cons call calls =>
    cases call with
    | mk method args =>
      obtain ⟨ts, hts, h⟩ := chain_cons h
      exact legible_chain h ⟨hreceiver, legibleAll_nodes hts hplain.1⟩ hplain.2

end

end

end Compile

namespace Container

open Compile

variable {c : Container σ} {ctx : Context} {service : String} {p : Parameters}

section
variable (hp : ctx.parameters = p) (hparameters : c.registry.parameters = p)
  (hdefined : ∀ id, c.registry.has id = (ctx.methods.get? id).isSome)
  (hnames : ∀ id m, ctx.methods.get? id = some m → idOf ctx.methods m = some id)
include hp hparameters hdefined hnames

mutual

/-- a plain node has the plan of its term -/
theorem plan_node {n n' : Node} {t : Term} (h : node ctx service n = some (.ok t))
    (hn : n.substitute p = .ok n') (hplain : n.Plain p) :
    c.plan n' = t.plan c ctx.methods := by
  cases n with
  | literal v =>
    rw [node] at h
    obtain ⟨w, hw, ht⟩ := literal_eq_ok h
    obtain ⟨w', hw', rfl⟩ := Node.substitute_literal hn
    rw [hp, hw'] at hw
    cases hw
    exact (Term.plan_ofValueWith c ctx.methods (hplain w hw') ht).symm
  | parameter key =>
    rw [node] at h
    obtain ⟨w, -, rfl⟩ := parameter_eq_ok h
    obtain ⟨w', hw', rfl⟩ := Node.substitute_parameter hn
    show _ = Plan.done ((c.registry.parameters.get key).mapError .parameter)
    rw [hparameters, hw']
    rfl
  | reference id optional =>
    cases hn
    rw [node] at h
    show c.referencePlan id optional = _
    unfold referencePlan
    rcases reference_eq_ok h with ⟨m, hm, rfl⟩ | ⟨hm, rfl, rfl⟩
    · rw [hdefined, hm, Bool.and_comm, Term.plan, hnames id m hm]
      rfl
    · rw [hdefined, hm]
      rfl
  | statement callable args calls =>
    obtain ⟨ts, u, hts, hu, hchain⟩ := node_statement h
    obtain ⟨callable', args', calls', hcallable, hargs', hcalls', rfl⟩ :=
      Node.substitute_statement hn
    obtain ⟨hkind, hargs, hcalls⟩ := hplain
    -- without the calls at its end the term is the invocation alone
    rw [← planCalls_chain hchain hcalls' hcalls, plan, planAll_nodes hts hargs' hargs]
    cases callable with
    | named name =>
      obtain ⟨-, rfl⟩ := hu
      cases hcallable
      rw [Term.plan, Plan.bind_assoc]
    | method target method =>
      obtain ⟨receiver, hreceiver, rfl⟩ := hu
      obtain ⟨target', htarget', rfl⟩ := hcallable
      have htarget := plan_node hreceiver htarget' hkind
      rw [Term.plan, Plan.bind_assoc]
      simp only [htarget, Plan.bind_assoc]
    | array =>
      cases hu
      cases hcallable
      rw [Term.plan, Plan.bind_assoc]
    | record keys =>
      cases hu
      cases hcallable
      have hlength : ts.length = keys.length := (nodes_length hts).trans hkind.symm
      rw [Term.plan, Plan.bind_assoc, Term.planEntries_zip c ctx.methods hlength.le,
        List.map_fst_zip hlength.ge]

theorem planAll_nodes {ns ns' : List Node} {ts : List Term}
    (h : nodes ctx service ns = some (.ok ts)) (hns : Node.substituteAll p ns = .ok ns')
    (hplain : Node.PlainAll p ns) : c.planAll ns' = Term.planAll c ctx.methods ts := by
  cases ns with
  | nil =>
    cases h
    cases hns
    rfl
  | cons n ns =>
    obtain ⟨t, ts', ht, hts', rfl⟩ := nodes_cons h
    obtain ⟨m, ms, hm, hms, rfl⟩ := Node.substituteAll_cons hns
    rw [planAll, Term.planAll, plan_node ht hm hplain.1, planAll_nodes hts' hms hplain.2]

theorem planCalls_chain {receiver t : Term} {calls calls' : List MethodCall}
    (h : chain ctx service receiver calls = some (.ok t))
    (hcalls : Node.substituteCalls p calls = .ok calls') (hplain : Node.PlainCalls p calls) :
    (do c.planCalls (← receiver.plan c ctx.methods) calls') = t.plan c ctx.methods := by
  cases calls with
  | nil =>
    cases h
    cases hcalls
    exact bind_pure _
  | cons call calls =>
    cases call with
    | mk method args =>
      obtain ⟨ts, hts, h⟩ := chain_cons h
      obtain ⟨args', rest, hargs', hrest, rfl⟩ := Node.substituteCalls_cons hcalls
      rw [← planCalls_chain h hrest hplain.2, Term.plan]
      simp only [planCalls, planAll_nodes hts hargs' hplain.1, Plan.bind_assoc]

end

end

/-- **A text has one meaning.** Two plain nodes of a frozen registry that are written alike evaluate
alike, from every state and however services are resolved. -/
theorem evaluate_eq_of_render_eq {r : Registry} (hr : r.frozen = true) {cs : Constructors σ}
    {services : Services σ} {c : Container σ} (hc : ofRegistry r cs services = .ok c)
    {known : Option (Constructors σ)} {h : Heap σ} {service₁ service₂ : String} {n₁ n₂ : Node}
    {t₁ t₂ : Term} (ht₁ : node (context r known services h) service₁ n₁ = some (.ok t₁))
    (ht₂ : node (context r known services h) service₂ n₂ = some (.ok t₂))
    (hn₁ : n₁.Plain r.parameters) (hn₂ : n₂.Plain r.parameters) {library : String}
    (hlib : Term.IsPath library) (htext : t₁.render library = t₂.render library) :
    ∃ n₁' n₂', n₁.substitute r.parameters = .ok n₁' ∧ n₂.substitute r.parameters = .ok n₂' ∧
      ∀ resolve b, c.evaluate resolve n₁' b = c.evaluate resolve n₂' b := by
  obtain ⟨n₁', hsub₁⟩ := substitute_of_node ht₁
  obtain ⟨n₂', hsub₂⟩ := substitute_of_node ht₂
  have hlegible : ∀ id m, (context r known services h).methods.get? id = some m →
      MethodName m := fun _ _ hm => methodName_of_get? hm
  obtain rfl : t₁ = t₂ := Term.render_inj hlib (legible_node rfl hlegible ht₁ hn₁)
    (legible_node rfl hlegible ht₂ hn₂) htext
  have hparameters : c.registry.parameters = r.parameters := by
    obtain ⟨ds, -, rfl⟩ := substituteAll_of_ofRegistry hr hc
    rfl
  have hdefined : ∀ id, c.registry.has id =
      ((context r known services h).methods.get? id).isSome := fun id =>
    (has_eq hr hc id).trans (context_methods r known services h id)
  have hnames : ∀ id m, (context r known services h).methods.get? id = some m →
      idOf (context r known services h).methods m = some id := fun _ _ hm => idOf_methodNames hm
  have hplan : c.plan n₁' = c.plan n₂' :=
    (plan_node rfl hparameters hdefined hnames ht₁ hsub₁ hn₁).trans
      (plan_node rfl hparameters hdefined hnames ht₂ hsub₂ hn₂).symm
  refine ⟨n₁', n₂', hsub₁, hsub₂, fun resolve b => ?_⟩
  rw [evaluate_eq_follow, evaluate_eq_follow, hplan]

/-- a record with an optional reference that is absent -/
def absentRecord : Node := .record [("a", .reference "absent" true)]

/-- a literal with null in the place of the reference -/
def nullRecord : Node := .literal (.map [("a", .null)])

theorem records_evaluate_alike :
    node (context paired.registry none paired.services .empty) "c" absentRecord =
        some (.ok (.map [("a", .null)])) ∧
      node (context paired.registry none paired.services .empty) "d" nullRecord =
        some (.ok (.map [("a", .null)])) ∧
      ∃ n₁' n₂', absentRecord.substitute paired.registry.parameters = .ok n₁' ∧
        nullRecord.substitute paired.registry.parameters = .ok n₂' ∧
        ∀ resolve b, paired.evaluate resolve n₁' b = paired.evaluate resolve n₂' b := by
  have ht₁ : node (context paired.registry none paired.services .empty) "c" absentRecord =
      some (.ok (.map [("a", .null)])) := rfl
  have ht₂ : node (context paired.registry none paired.services .empty) "d" nullRecord =
      some (.ok (.map [("a", .null)])) := rfl
  have hc : ofRegistry paired.registry paired.constructors paired.services = .ok paired := rfl
  have hn₁ : absentRecord.Plain paired.registry.parameters := ⟨rfl, ⟨trivial, trivial⟩, trivial⟩
  have hn₂ : nullRecord.Plain paired.registry.parameters := by
    intro w hw
    cases hw
    exact ⟨by decide, trivial, trivial⟩
  have hlib : Term.IsPath "::kiln" := by decide
  exact ⟨ht₁, ht₂, evaluate_eq_of_render_eq rfl hc ht₁ ht₂ hn₁ hn₂ hlib rfl⟩

/-- a container whose parameters are two route collections with the same content -/
def twins : Container Empty where
  registry :=
    { Registry.ofParameters ⟨[("p", .service ⟨0⟩), ("q", .service ⟨1⟩)], true⟩ with frozen := true }
  constructors := Constructors.builtin
  services := ⟨nofun, nofun, fun _ _ s => nomatch s⟩

def twinHeap : Heap Empty := ⟨[.router [], .router []]⟩

/-- Two strings that stand for the collections are written alike, since a live object is written as
its content, but they are not the same object. -/
theorem twins_written_alike :
    twins.registry.frozen = true ∧
    ofRegistry twins.registry twins.constructors twins.services = .ok twins ∧
    (∃ t, node (context twins.registry none twins.services twinHeap) "a" (.literal (.str "%p%")) =
        some (.ok t) ∧
      node (context twins.registry none twins.services twinHeap) "b" (.literal (.str "%q%")) =
        some (.ok t)) ∧
    (Node.literal (.str "%p%")).substitute twins.registry.parameters =
      .ok (.literal (.service ⟨0⟩)) ∧
    (Node.literal (.str "%q%")).substitute twins.registry.parameters =
      .ok (.literal (.service ⟨1⟩)) ∧
    ∀ b, (twins.value (.literal (.service ⟨0⟩)) b).1 ≠
      (twins.value (.literal (.service ⟨1⟩)) b).1 :=
  ⟨rfl, rfl, ⟨_, rfl, rfl⟩, rfl, rfl, fun _ heq => nomatch heq⟩

end Container
end ServiceGraph
