import ServiceGraph.Proofs.Container.Opening
import ServiceGraph.Proofs.Container.Plan
import ServiceGraph.Proofs.Node.Order
import ServiceGraph.Proofs.Source.Calls
import ServiceGraph.Proofs.Source.Checked
import Mathlib.Data.List.Forall2

/-!
# Evaluating a node and running its text

The container evaluates the arguments of a statement before the receiver, and the text of the
statement has the receiver in front of its arguments. So the two ask for services in orders that
are not always the same.

* `Container.asked_plan`: what a node asks for that is evaluated to the end;
* `Compile.idOf`: the service that a method builds;
* `Compile.calls_node`: what the term of a node calls;
* `Container.orders_agree_iff`: the two orders agree exactly for the nodes whose evaluation order is
  the order of their text;
* `Container.asked_eq_called_of_ordered`: they agree for the nodes that are ordered.
-/

set_option linter.unusedSectionVars false

namespace ServiceGraph

variable {σ : Type}

/-! ## what evaluation asks for -/

theorem Construction.asked_eq_nil {c : Container σ} {resolve : String → Build σ Value}
    {k : Construction σ} (hk : k.Standalone) (b : Building σ) :
    (k.plan c).asked resolve b = [] := by
  induction k generalizing b with
  | done r => rfl
  | get id next _ => exact hk.elim
  | act work next ih => exact ih _ (hk _) _

theorem Constructors.start_standalone {cs : Constructors σ} (hcs : cs.Standalone) (l : Lookup)
    (name : String) (args : List Value) : (cs.start l name args).Standalone := by
  unfold Constructors.start
  split
  · trivial
  · next k hk =>
    split
    · exact hcs name k hk l args
    · trivial

namespace Container

section
variable {c : Container σ} {resolve : String → Build σ Value} {p : Parameters}
  (hcs : c.constructors.Standalone)
include hcs

mutual

/-- a node that is evaluated to the end asks for its services in evaluation order -/
theorem asked_plan {n n' : Node} (hn : n.substitute p = .ok n') {b b' : Building σ} {v : Value}
    (h : (c.plan n').follow resolve b = (.ok v, b')) :
    (c.plan n').asked resolve b = n.evaluationOrder c.registry.has := by
  cases n with
  | literal w =>
    obtain ⟨w', -, rfl⟩ := Node.substitute_literal hn
    rfl
  | parameter key =>
    obtain ⟨w, -, rfl⟩ := Node.substitute_parameter hn
    rfl
  | reference id optional =>
    cases hn
    show (c.referencePlan id optional).asked resolve b = Node.referenced _ id optional
    unfold referencePlan Node.referenced
    split
    · rfl
    · rfl
  | statement callable args calls =>
    obtain ⟨callable', args', calls', hcallable, hargs', hcalls', rfl⟩ :=
      Node.substitute_statement hn
    rw [plan] at h ⊢
    -- each part was carried out to its end, because the whole was
    obtain ⟨vs, b₁, hvs, h, hasked⟩ := Plan.bind_eq_ok resolve h
    rw [hasked, asked_planAll hargs' hvs]
    cases callable with
    | named name =>
      cases hcallable
      obtain ⟨w, b₂, hw, h, hasked⟩ := Plan.bind_eq_ok resolve h
      have hstart := Constructors.start_standalone hcs c.lookup name vs
      rw [hasked, Construction.asked_eq_nil hstart, asked_planCalls hcalls' h,
        Node.evaluationOrder, List.append_assoc]
    | method target method =>
      obtain ⟨target', htarget', rfl⟩ := hcallable
      obtain ⟨receiver, b₂, hreceiver, h, hasked⟩ := Plan.bind_eq_ok resolve h
      obtain ⟨w, b₃, -, h, hasked'⟩ := Plan.bind_eq_ok resolve h
      rw [hasked, hasked', asked_plan htarget' hreceiver, asked_planCalls hcalls' h,
        Node.evaluationOrder, List.append_assoc]
      rfl
    | array | record _ =>
      cases hcallable
      have hcalls := asked_planCalls hcalls' h
      rw [Node.evaluationOrder, List.append_assoc]
      exact congrArg _ hcalls

theorem asked_planAll {ns ns' : List Node} (hns : Node.substituteAll p ns = .ok ns')
    {b b' : Building σ} {vs : List Value}
    (h : (c.planAll ns').follow resolve b = (.ok vs, b')) :
    (c.planAll ns').asked resolve b = Node.evaluationOrderOf c.registry.has ns := by
  cases ns with
  | nil =>
    cases hns
    rfl
  | cons n ns =>
    obtain ⟨m, ms, hm, hms, rfl⟩ := Node.substituteAll_cons hns
    rw [planAll] at h ⊢
    obtain ⟨v, b₁, hv, h, hasked⟩ := Plan.bind_eq_ok resolve h
    obtain ⟨ws, b₂, hws, -, hasked'⟩ := Plan.bind_eq_ok resolve h
    rw [hasked, hasked', asked_plan hm hv, asked_planAll hms hws]
    exact congrArg _ (List.append_nil _)

theorem asked_planCalls {calls calls' : List MethodCall}
    (hcalls : Node.substituteCalls p calls = .ok calls') {b b' : Building σ} {w v : Value}
    (h : (c.planCalls w calls').follow resolve b = (.ok v, b')) :
    (c.planCalls w calls').asked resolve b =
      Node.evaluationOrderOfCalls c.registry.has calls := by
  cases calls with
  | nil =>
    cases hcalls
    rfl
  | cons call calls =>
    cases call with
    | mk method args =>
      obtain ⟨args', rest, hargs', hrest, rfl⟩ := Node.substituteCalls_cons hcalls
      rw [planCalls] at h ⊢
      obtain ⟨vs, b₁, hvs, h, hasked⟩ := Plan.bind_eq_ok resolve h
      obtain ⟨u, b₂, -, h, hasked'⟩ := Plan.bind_eq_ok resolve h
      rw [hasked, hasked', asked_planAll hargs' hvs]
      exact congrArg _ (asked_planCalls hrest h)

end

end

end Container

/-! ## what a term calls -/

namespace Term

section
variable {object : ObjectId → Option Term}

theorem ofValueWith_list {items : List Value} {t : Term} (h : ofValueWith object (.list items) = some t) :
    ∃ ts, ofItems object items = some ts ∧ t = .list ts := by
  rw [ofValueWith] at h
  obtain ⟨ts, hts, h⟩ := Option.bind_eq_some_iff.mp h
  exact ⟨ts, hts, (Option.some.inj h).symm⟩

theorem ofValueWith_map {entries : List (String × Value)} {t : Term}
    (h : ofValueWith object (.map entries) = some t) :
    ∃ es, ofEntries object entries = some es ∧ t = .map es := by
  rw [ofValueWith] at h
  obtain ⟨es, hes, h⟩ := Option.bind_eq_some_iff.mp h
  exact ⟨es, hes, (Option.some.inj h).symm⟩

theorem ofItems_cons {v : Value} {vs : List Value} {ts : List Term}
    (h : ofItems object (v :: vs) = some ts) :
    ∃ t us, ofValueWith object v = some t ∧ ofItems object vs = some us ∧ ts = t :: us := by
  rw [ofItems] at h
  obtain ⟨t, ht, h⟩ := Option.bind_eq_some_iff.mp h
  obtain ⟨us, hus, h⟩ := Option.bind_eq_some_iff.mp h
  exact ⟨t, us, ht, hus, (Option.some.inj h).symm⟩

theorem ofEntries_cons {e : String × Value} {vs : List (String × Value)} {es : List (String × Term)}
    (h : ofEntries object (e :: vs) = some es) :
    ∃ t us, ofValueWith object e.2 = some t ∧ ofEntries object vs = some us ∧ es = (e.1, t) :: us := by
  rw [ofEntries] at h
  obtain ⟨t, ht, h⟩ := Option.bind_eq_some_iff.mp h
  obtain ⟨us, hus, h⟩ := Option.bind_eq_some_iff.mp h
  exact ⟨t, us, ht, hus, (Option.some.inj h).symm⟩

end

mutual

/-- the term of a value calls nothing, unless a live object in it does -/
theorem calls_ofValueWith {object : ObjectId → Option Term}
    (hobject : ∀ id t, object id = some t → t.calls = []) {v : Value} {t : Term}
    (h : ofValueWith object v = some t) : t.calls = [] := by
  cases v with
  | null | bool _ | int _ | float _ | str _ =>
    cases h
    rfl
  | list items =>
    obtain ⟨ts, hts, rfl⟩ := ofValueWith_list h
    exact callsOf_ofItems hobject hts
  | map entries =>
    obtain ⟨es, hes, rfl⟩ := ofValueWith_map h
    exact callsOf_ofEntries hobject hes
  | service id => exact hobject id t h

theorem callsOf_ofItems {object : ObjectId → Option Term}
    (hobject : ∀ id t, object id = some t → t.calls = []) {vs : List Value} {ts : List Term}
    (h : ofItems object vs = some ts) : callsOf ts = [] := by
  cases vs with
  | nil =>
    cases h
    rfl
  | cons v vs =>
    obtain ⟨t, ts', ht, hts', rfl⟩ := ofItems_cons h
    rw [callsOf, calls_ofValueWith hobject ht, callsOf_ofItems hobject hts']
    rfl

theorem callsOf_ofEntries {object : ObjectId → Option Term}
    (hobject : ∀ id t, object id = some t → t.calls = []) {vs : List (String × Value)}
    {es : List (String × Term)} (h : ofEntries object vs = some es) :
    callsOfEntries es = [] := by
  cases vs with
  | nil =>
    cases h
    rfl
  | cons e vs =>
    cases e with
    | mk k v =>
      obtain ⟨t, es', ht, hes', rfl⟩ := ofEntries_cons h
      rw [callsOfEntries, calls_ofValueWith hobject ht, callsOf_ofEntries hobject hes']
      rfl

end

theorem calls_unfold (s : Services σ) (h : Heap σ) (room : Nat) (id : ObjectId) {t : Term}
    (ht : unfold s h room id = some t) : t.calls = [] := by
  induction room generalizing id t with
  | zero => cases ht
  | succ room ih =>
    obtain ⟨state, hstate, rfl⟩ := Option.map_eq_some_iff.mp ht
    show state.calls = []
    exact calls_ofValueWith (fun id t => ih id) hstate

theorem callsOfEntries_zip (keys : List String) (ts : List Term) :
    callsOfEntries (keys.zip ts) = callsOf (ts.take keys.length) := by
  induction keys generalizing ts with
  | nil => rfl
  | cons k keys ih =>
    cases ts with
    | nil => rfl
    | cons t ts =>
      show calls t ++ callsOfEntries (keys.zip ts) = calls t ++ callsOf (ts.take keys.length)
      rw [ih]

end Term

namespace Compile

/-- the service that a method builds -/
def idOf (methods : OrderedMap String) (name : String) : Option String :=
  (methods.find? (·.2 = name)).map Prod.fst

theorem idOf_zip {ids names : List String} (hnames : names.Nodup) {id name : String}
    (h : OrderedMap.get? (ids.zip names) id = some name) : idOf (ids.zip names) name = some id := by
  induction ids generalizing names with
  | nil => cases h
  | cons i ids ih =>
    cases names with
    | nil => cases h
    | cons n names =>
      obtain ⟨hn, hnames⟩ := List.nodup_cons.mp hnames
      rw [List.zip_cons_cons, OrderedMap.get?] at h
      split at h
      · next hi =>
        cases h
        rw [idOf, List.zip_cons_cons, List.find?_cons_of_pos (by simp), hi]
        rfl
      · have hne : n ≠ name := fun heq => hn (heq ▸ get?_zip_mem h)
        rw [idOf, List.zip_cons_cons, List.find?_cons_of_neg (by simpa using hne)]
        exact ih hnames h

theorem idOf_methodNames {ids : List String} {id name : String}
    (h : (methodNames ids).get? id = some name) : idOf (methodNames ids) name = some id :=
  idOf_zip (namesFor_nodup [] ids) h

/-- every definition has a method -/
theorem context_methods (r : Registry) (known : Option (Constructors σ)) (services : Services σ)
    (h : Heap σ) (id : String) :
    r.has id = ((context r known services h).methods.get? id).isSome := by
  rw [Bool.eq_iff_iff, Registry.has_iff_mem_ids]
  exact (methodNames_isSome r.ids id).symm

/-- a method builds a service -/
def Context.Builds (ctx : Context) (name id : String) : Prop := ctx.methods.get? id = some name

section
variable {ctx : Context} {service : String} {defined : String → Bool}
  (hdefined : ∀ id, defined id = (ctx.methods.get? id).isSome)
  (hobject : ∀ id t, ctx.object id = some t → t.calls = [])
include hdefined hobject

mutual

/-- the term of a node calls the services of the node in text order -/
theorem calls_node {n : Node} {t : Term} (h : node ctx service n = some (.ok t)) :
    List.Forall₂ ctx.Builds t.calls (n.textOrder defined) := by
  cases n with
  | literal v =>
    rw [node] at h
    obtain ⟨w, -, ht⟩ := literal_eq_ok h
    rw [Term.calls_ofValueWith hobject ht]
    exact .nil
  | parameter key =>
    rw [node] at h
    obtain ⟨w, -, rfl⟩ := parameter_eq_ok h
    exact .nil
  | reference id optional =>
    rw [node] at h
    show List.Forall₂ ctx.Builds t.calls (Node.referenced defined id optional)
    unfold Node.referenced
    rcases reference_eq_ok h with ⟨m, hm, rfl⟩ | ⟨hm, rfl, rfl⟩
    · rw [hdefined, hm, Bool.and_comm]
      exact .cons hm .nil
    · rw [hdefined, hm]
      exact .nil
  | statement callable args calls =>
    obtain ⟨ts, u, hts, hu, hchain⟩ := node_statement h
    have hall := callsOf_nodes hts args.length
    rw [← nodes_length hts, List.take_length, nodes_length hts] at hall
    cases callable with
    | named name =>
      obtain ⟨-, rfl⟩ := hu
      rw [Node.textOrder]
      exact calls_chain hchain hall
    | method target method =>
      obtain ⟨receiver, hreceiver, rfl⟩ := hu
      rw [Node.textOrder]
      exact calls_chain hchain (List.rel_append (calls_node hreceiver) hall)
    | array =>
      cases hu
      rw [Node.textOrder]
      exact calls_chain hchain hall
    | record keys =>
      cases hu
      rw [Node.textOrder]
      refine calls_chain hchain ?_
      rw [Term.calls, Term.callsOfEntries_zip]
      exact callsOf_nodes hts keys.length

theorem callsOf_nodes {ns : List Node} {ts : List Term}
    (h : nodes ctx service ns = some (.ok ts)) (count : Nat) :
    List.Forall₂ ctx.Builds (Term.callsOf (ts.take count)) (Node.textOrderOf defined count ns) := by
  cases ns with
  | nil =>
    cases h
    cases count <;> exact .nil
  | cons n ns =>
    obtain ⟨t, ts', ht, hts', rfl⟩ := nodes_cons h
    cases count with
    | zero => exact .nil
    | succ count =>
      rw [List.take_succ_cons, Term.callsOf, Node.textOrderOf]
      exact List.rel_append (calls_node ht) (callsOf_nodes hts' count)

theorem calls_chain {receiver t : Term} {calls : List MethodCall}
    (h : chain ctx service receiver calls = some (.ok t)) {ids : List String}
    (hreceiver : List.Forall₂ ctx.Builds receiver.calls ids) :
    List.Forall₂ ctx.Builds t.calls (ids ++ Node.textOrderOfCalls defined calls) := by
  cases calls with
  | nil =>
    cases h
    rw [Node.textOrderOfCalls, List.append_nil]
    exact hreceiver
  | cons call calls =>
    cases call with
    | mk method args =>
      obtain ⟨ts, hts, h⟩ := chain_cons h
      have hall := callsOf_nodes hts args.length
      rw [← nodes_length hts, List.take_length, nodes_length hts] at hall
      rw [Node.textOrderOfCalls, ← List.append_assoc]
      exact calls_chain h (List.rel_append hreceiver hall)

end

end

theorem filterMap_idOf {r : Registry} {cs : Option (Constructors σ)} {services : Services σ}
    {h : Heap σ} {names ids : List String}
    (hnames : List.Forall₂ (context r cs services h).Builds names ids) :
    names.filterMap (idOf (methodNames r.ids)) = ids := by
  induction hnames with
  | nil => rfl
  | cons hid _ ih => rw [List.filterMap_cons, idOf_methodNames hid, ih]

theorem methodName_of_builds {r : Registry} {cs : Option (Constructors σ)} {services : Services σ}
    {h : Heap σ} {names ids : List String}
    (hnames : List.Forall₂ (context r cs services h).Builds names ids) :
    ∀ m ∈ names, MethodName m := by
  induction hnames with
  | nil => exact fun m hm => nomatch hm
  | cons hid _ ih => exact List.forall_mem_cons.mpr ⟨methodName_of_get? hid, ih⟩

end Compile

/-! ## the two orders -/

namespace Container

open Compile

theorem asked_value {r : Registry} (hr : r.frozen = true) {cs : Constructors σ} {services : Services σ}
    {c : Container σ} (hc : ofRegistry r cs services = .ok c) (hcs : cs.Standalone) {n n' : Node}
    (hn : n.substitute r.parameters = .ok n') {b b' : Building σ} {v : Value}
    (hv : c.value n' b = (.ok v, b')) :
    (c.plan n').asked c.resolveFresh b = n.evaluationOrder r.has := by
  have hstandalone : c.constructors.Standalone := by
    obtain ⟨ds, -, rfl⟩ := substituteAll_of_ofRegistry hr hc
    exact hcs
  have hhas : c.registry.has = r.has := funext (has_eq hr hc)
  rw [value, evaluate_eq_follow] at hv
  rw [asked_plan hstandalone hn hv, hhas]

theorem called_render {r : Registry} {known : Option (Constructors σ)} {services : Services σ}
    {h : Heap σ} {service : String} {n : Node} {t : Term}
    (ht : node (context r known services h) service n = some (.ok t)) {library : String}
    (hlib : Term.IsPath library) :
    (Source.calls (t.render library)).filterMap (idOf (methodNames r.ids)) = n.textOrder r.has := by
  have hbuilds : List.Forall₂ (context r known services h).Builds t.calls (n.textOrder r.has) :=
    calls_node (context_methods r known services h)
      (fun id t ht => Term.calls_unfold services h _ id ht) ht
  rw [Term.calls_render hlib t (methodName_of_builds hbuilds), filterMap_idOf hbuilds]

/-- **The two orders agree exactly when they are the same order of the node.** Evaluation asks for
the services of a node in evaluation order, and the text of the node calls them in text order. -/
theorem orders_agree_iff {r : Registry} (hr : r.frozen = true) {cs : Constructors σ}
    {services : Services σ} {c : Container σ} (hc : ofRegistry r cs services = .ok c)
    (hcs : cs.Standalone) {known : Option (Constructors σ)} {h : Heap σ} {service : String}
    {n n' : Node} {t : Term} (ht : node (context r known services h) service n = some (.ok t))
    (hn : n.substitute r.parameters = .ok n') {library : String} (hlib : Term.IsPath library)
    {b b' : Building σ} {v : Value} (hv : c.value n' b = (.ok v, b')) :
    let asked := (c.plan n').asked c.resolveFresh b
    let called := (Source.calls (t.render library)).filterMap (idOf (methodNames r.ids))
    asked = n.evaluationOrder r.has ∧ called = n.textOrder r.has ∧
      (asked = called ↔ n.evaluationOrder r.has = n.textOrder r.has) := by
  have hasked := asked_value hr hc hcs hn hv
  have hcalled := called_render ht hlib
  refine ⟨hasked, hcalled, ?_⟩
  rw [hasked, hcalled]

/-- a container with a route collection `a` and a list `b` -/
def paired : Container Empty where
  registry :=
    { Registry.ofParameters .empty with
      definitions := [.ofNode "a" (.create "make" []), .ofNode "b" (.array [])], frozen := true }
  constructors := [("make", ⟨.any, fun _ _ => .create (.router [])⟩)]
  services := ⟨nofun, nofun, fun _ _ s => nomatch s⟩

/-- a method of `a` is called with `b` -/
def contested : Node :=
  .statement (.method (.reference "a" false) "paths") [.reference "b" false] []

def contestedTerm : Term := .invoke (.service "service_a") "paths" [.service "service_b"]

theorem paired_standalone : paired.constructors.Standalone := by
  intro name k hk l args
  have hk : (if "make" = name then
      some (⟨.any, fun _ _ => .create (.router [])⟩ : Constructor Empty)
    else none) = some k := hk
  split at hk
  · cases hk
    exact fun _ => trivial
  · cases hk

theorem contested_node :
    node (context paired.registry none paired.services .empty) "c" contested =
      some (.ok contestedTerm) := rfl

theorem contested_value :
    ∃ b', paired.value contested (.ofHeap .empty) = (.ok (.list []), b') := ⟨_, rfl⟩

theorem contested_orders :
    (paired.plan contested).asked paired.resolveFresh (.ofHeap .empty) =
        contested.evaluationOrder paired.registry.has ∧
      (Source.calls (contestedTerm.render "::kiln")).filterMap
          (idOf (methodNames paired.registry.ids)) = contested.textOrder paired.registry.has ∧
      ((paired.plan contested).asked paired.resolveFresh (.ofHeap .empty) =
          (Source.calls (contestedTerm.render "::kiln")).filterMap
            (idOf (methodNames paired.registry.ids)) ↔
        contested.evaluationOrder paired.registry.has =
          contested.textOrder paired.registry.has) := by
  obtain ⟨b', hv⟩ := contested_value
  exact orders_agree_iff (r := paired.registry) (c := paired) rfl rfl paired_standalone
    contested_node rfl (by decide) hv

/-- the text of `contested` asks for `a` first, and its evaluation for `b` -/
theorem contested_orders_differ :
    ofRegistry paired.registry paired.constructors paired.services = .ok paired ∧
    paired.constructors.Standalone ∧
    (∃ b', paired.value contested (.ofHeap .empty) = (.ok (.list []), b')) ∧
    node (context paired.registry none paired.services .empty) "c" contested =
      some (.ok contestedTerm) ∧
    (paired.plan contested).asked paired.resolveFresh (.ofHeap .empty) = ["b", "a"] ∧
    (Source.calls (contestedTerm.render "::kiln")).filterMap
      (idOf (methodNames paired.registry.ids)) = ["a", "b"] := by
  have hcalls : Source.calls (contestedTerm.render "::kiln") = ["service_a", "service_b"] := by
    decide +kernel
  refine ⟨rfl, paired_standalone, contested_value, contested_node, rfl, ?_⟩
  rw [hcalls]
  rfl

/-- **An ordered node is evaluated in the order of its text.** Where no receiver competes with its
arguments and no argument is without a key, the services that the evaluation asks for are those that the
text calls, in the same order. -/
theorem asked_eq_called_of_ordered {r : Registry} (hr : r.frozen = true) {cs : Constructors σ}
    {services : Services σ} {c : Container σ} (hc : ofRegistry r cs services = .ok c)
    (hcs : cs.Standalone) {known : Option (Constructors σ)} {h : Heap σ} {service : String}
    {n n' : Node} {t : Term} (ht : node (context r known services h) service n = some (.ok t))
    (hn : n.substitute r.parameters = .ok n') {library : String} (hlib : Term.IsPath library)
    {b b' : Building σ} {v : Value} (hv : c.value n' b = (.ok v, b')) (hordered : n.Ordered r.has) :
    (c.plan n').asked c.resolveFresh b =
      (Source.calls (t.render library)).filterMap (idOf (methodNames r.ids)) := by
  rw [asked_value hr hc hcs hn hv, called_render ht hlib, Node.evaluationOrder_eq_textOrder hordered]

end Container
end ServiceGraph
