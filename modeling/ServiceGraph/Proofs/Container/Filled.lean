import ServiceGraph.Proofs.Node.Leaves
import ServiceGraph.Proofs.Outcomes

/-!
# Nodes with their parameters filled in

Filling parameters into a node changes its leaves and nothing else. Every parameter becomes the literal of its
value, every literal is expanded once, and a container keeps what came of it.

* `Leaf.Filled`: what becomes of a leaf; `Node.outline`: a node without the content of its leaves;
* `Node.filled_of_substitute`: a filled node has the outline it had, and its leaves are filled;
* `Node.references_eq`: references are leaves;
* `Container.filled_of_ofRegistry`: the definitions of a container;
* `Container.parameters_filled`: the result.
-/

set_option linter.unusedSectionVars false

namespace ServiceGraph

namespace Leaf

/-- the second leaf is the first one after its parameters were filled in -/
def Filled (p : Parameters) : Leaf → Leaf → Prop
  | literal v, l => ∃ w, p.expand v = .ok w ∧ l = literal w
  | parameter key, l => ∃ w, p.get key = .ok w ∧ l = literal w
  | reference id optional, l => l = reference id optional

def id? : Leaf → Option String
  | reference id _ => some id
  | literal _ | parameter _ => none

theorem Filled.ne_parameter {p : Parameters} {l l' : Leaf} (h : l.Filled p l') (key : String) :
    l' ≠ parameter key := by
  cases l with
  | literal _ | parameter _ =>
    obtain ⟨w, -, rfl⟩ := h
    exact nofun
  | reference id optional =>
    cases h
    exact nofun

theorem Filled.id?_eq {p : Parameters} {l l' : Leaf} (h : l.Filled p l') : l'.id? = l.id? := by
  cases l with
  | literal _ | parameter _ =>
    obtain ⟨w, -, rfl⟩ := h
    rfl
  | reference id optional =>
    cases h
    rfl

theorem not_mem_of_filled {p : Parameters} {ls ls' : List Leaf} (h : List.Forall₂ (Filled p) ls ls')
    (key : String) : parameter key ∉ ls' := fun hmem =>
  forall_mem_of_forall₂ h (fun _ _ hfilled => hfilled.ne_parameter key) _ hmem rfl

end Leaf

namespace Node

/-! ## outlines -/

mutual

/-- the same node with null in place of its literals and parameters -/
def outline : Node → Node
  | literal _ | parameter _ => literal .null
  | reference id optional => reference id optional
  | statement callable args calls =>
    statement (outlineOfCallable callable) (outlineOf args) (outlineOfCalls calls)

def outlineOfCallable : Callable → Callable
  | .method target name => .method (outline target) name
  | .named name => .named name
  | .array => .array
  | .record keys => .record keys

def outlineOf : List Node → List Node
  | [] => []
  | n :: ns => outline n :: outlineOf ns

def outlineOfCalls : List MethodCall → List MethodCall
  | [] => []
  | .mk method args :: calls => .mk method (outlineOf args) :: outlineOfCalls calls

end

section
variable {p : Parameters}

mutual

/-- a filled node has its outline, and each of its leaves is filled -/
theorem filled_of_substitute (n : Node) {n' : Node} (h : n.substitute p = .ok n') :
    n'.outline = n.outline ∧ List.Forall₂ (Leaf.Filled p) n.leaves n'.leaves := by
  cases n with
  | literal v =>
    obtain ⟨w, hw, rfl⟩ := substitute_literal h
    exact ⟨rfl, .cons ⟨w, hw, rfl⟩ .nil⟩
  | parameter key =>
    obtain ⟨w, hw, rfl⟩ := substitute_parameter h
    exact ⟨rfl, .cons ⟨w, hw, rfl⟩ .nil⟩
  | reference id optional =>
    cases h
    exact ⟨rfl, .cons rfl .nil⟩
  | statement callable args calls =>
    obtain ⟨callable', args', calls', hcallable, hargs, hcalls, rfl⟩ := substitute_statement h
    obtain ⟨houtline, hleaves⟩ := filled_of_substituted callable hcallable
    obtain ⟨houtlines, hleavesOf⟩ := filled_of_substituteAll args hargs
    obtain ⟨houtlinesOfCalls, hleavesOfCalls⟩ := filled_of_substituteCalls calls hcalls
    refine ⟨?_, List.rel_append hleaves (List.rel_append hleavesOf hleavesOfCalls)⟩
    rw [outline, outline, houtline, houtlines, houtlinesOfCalls]

theorem filled_of_substituted (callable : Callable) {callable' : Callable}
    (h : callable.Substituted p callable') :
    outlineOfCallable callable' = outlineOfCallable callable ∧
      List.Forall₂ (Leaf.Filled p) (leavesOfCallable callable) (leavesOfCallable callable') := by
  cases callable with
  | method target name =>
    obtain ⟨target', htarget, rfl⟩ := h
    obtain ⟨houtline, hleaves⟩ := filled_of_substitute target htarget
    refine ⟨?_, hleaves⟩
    rw [outlineOfCallable, outlineOfCallable, houtline]
  | named name | array | record keys =>
    cases h
    exact ⟨rfl, .nil⟩

theorem filled_of_substituteAll (ns : List Node) {ns' : List Node} (h : substituteAll p ns = .ok ns') :
    outlineOf ns' = outlineOf ns ∧ List.Forall₂ (Leaf.Filled p) (leavesOf ns) (leavesOf ns') := by
  cases ns with
  | nil =>
    cases h
    exact ⟨rfl, .nil⟩
  | cons n ns =>
    obtain ⟨m, ms, hm, hms, rfl⟩ := substituteAll_cons h
    obtain ⟨houtline, hleaves⟩ := filled_of_substitute n hm
    obtain ⟨houtlines, hleavesOf⟩ := filled_of_substituteAll ns hms
    refine ⟨?_, List.rel_append hleaves hleavesOf⟩
    rw [outlineOf, outlineOf, houtline, houtlines]

theorem filled_of_substituteCalls (calls : List MethodCall) {calls' : List MethodCall}
    (h : substituteCalls p calls = .ok calls') :
    outlineOfCalls calls' = outlineOfCalls calls ∧
      List.Forall₂ (Leaf.Filled p) (leavesOfCalls calls) (leavesOfCalls calls') := by
  cases calls with
  | nil =>
    cases h
    exact ⟨rfl, .nil⟩
  | cons call calls =>
    cases call with
    | mk method args =>
      obtain ⟨args', rest, hargs, hrest, rfl⟩ := substituteCalls_cons h
      obtain ⟨houtlines, hleaves⟩ := filled_of_substituteAll args hargs
      obtain ⟨houtlinesOfCalls, hleavesOfCalls⟩ := filled_of_substituteCalls calls hrest
      refine ⟨?_, List.rel_append hleaves hleavesOfCalls⟩
      rw [outlineOfCalls, outlineOfCalls, houtlines, houtlinesOfCalls]

end

end

/-! ## references -/

mutual

/-- the references of a node, read off its leaves -/
theorem references_eq (n : Node) : n.references = n.leaves.filterMap Leaf.id? := by
  cases n with
  | literal v | parameter key | reference id optional => rfl
  | statement callable args calls =>
    cases callable with
    | method target name =>
      rw [references, leaves, leavesOfCallable, List.filterMap_append, List.filterMap_append,
        references_eq target, referencesOf_eq args, referencesOfCalls_eq calls, List.append_assoc]
    | named name | array | record keys =>
      rw [references, leaves, leavesOfCallable, List.nil_append, List.nil_append, List.filterMap_append,
        referencesOf_eq args, referencesOfCalls_eq calls]

theorem referencesOf_eq (ns : List Node) : referencesOf ns = (leavesOf ns).filterMap Leaf.id? := by
  cases ns with
  | nil => rfl
  | cons n ns => rw [referencesOf, leavesOf, List.filterMap_append, references_eq n, referencesOf_eq ns]

theorem referencesOfCalls_eq (calls : List MethodCall) :
    referencesOfCalls calls = (leavesOfCalls calls).filterMap Leaf.id? := by
  cases calls with
  | nil => rfl
  | cons call calls =>
    cases call with
    | mk method args =>
      rw [referencesOfCalls, leavesOfCalls, List.filterMap_append, referencesOf_eq args,
        referencesOfCalls_eq calls]

end

theorem references_of_filled {p : Parameters} {n n' : Node}
    (h : List.Forall₂ (Leaf.Filled p) n.leaves n'.leaves) : n'.references = n.references := by
  rw [references_eq, references_eq]
  generalize n.leaves = ls, n'.leaves = ls' at h
  induction h with
  | nil => rfl
  | cons hfilled _ ih => rw [List.filterMap_cons, List.filterMap_cons, hfilled.id?_eq, ih]

end Node

/-! ## containers -/

/-- the second definition is the first one after its parameters were filled in: it differs in the leaves of its
root and its setup only, and these are filled -/
structure Definition.Filled (p : Parameters) (d d' : Definition) : Prop where
  others : d' = { d with root := d'.root, setup := d'.setup }
  root : d'.root.outline = d.root.outline
  setup : Node.outlineOfCalls d'.setup = Node.outlineOfCalls d.setup
  leaves : List.Forall₂ (Leaf.Filled p) d.leaves d'.leaves

theorem Definition.filled_of_substitute {p : Parameters} {d d' : Definition} (h : d.substitute p = .ok d') :
    d.Filled p d' := by
  obtain ⟨root, setup, hroot, hsetup, rfl⟩ := substitute_eq_ok h
  obtain ⟨hroot, hleaves⟩ := Node.filled_of_substitute d.root hroot
  obtain ⟨hsetup, hleavesOfCalls⟩ := Node.filled_of_substituteCalls d.setup hsetup
  exact ⟨rfl, hroot, hsetup, List.rel_append hleaves hleavesOfCalls⟩

namespace Container

variable {σ : Type} {r : Registry} {cs : Constructors σ} {services : Services σ} {c : Container σ}

theorem filled_of_substituteAll {p : Parameters} {ds ds' : List Definition}
    (h : substituteAll p ds = .ok ds') : List.Forall₂ (Definition.Filled p) ds ds' := by
  induction ds generalizing ds' with
  | nil =>
    cases h
    exact .nil
  | cons d ds ih =>
    obtain ⟨e, es, he, hes, rfl⟩ := substituteAll_cons h
    exact .cons (Definition.filled_of_substitute he) (ih hes)

theorem definitions_of_freeze {r' : Registry} (h : r.freeze = .ok r') : r'.definitions = r.definitions := by
  unfold Registry.freeze at h
  split at h
  · cases h
    rfl
  · obtain ⟨parameters, -, h⟩ := Except.bind_eq_ok h
    cases h
    rfl

/-- a container over a registry is the frozen registry with its definitions filled, once -/
theorem filled_of_ofRegistry (h : ofRegistry r cs services = .ok c) :
    ∃ frozen, r.freeze = .ok frozen ∧ c.registry = { frozen with definitions := c.registry.definitions } ∧
      List.Forall₂ (Definition.Filled frozen.parameters) r.definitions c.registry.definitions := by
  rw [ofRegistry] at h
  obtain ⟨frozen, hfreeze, h⟩ := Except.bind_eq_ok h
  obtain ⟨ds, hds, h⟩ := Except.bind_eq_ok h
  cases h
  have hfrozen := Except.mapError_eq_ok hfreeze
  refine ⟨frozen, hfrozen, rfl, ?_⟩
  rw [← definitions_of_freeze hfrozen]
  exact filled_of_substituteAll (Except.mapError_eq_ok hds)

/-- **Filling in removes parameters and nothing else.** Parameters can be filled into a node if, and only if,
they can be filled into each of its leaves. Then no parameter is left in it, its references and its outline
(the names and keys in it, and the number and order of arguments and calls) are what they were, and each of its
literals is expanded, once. So it is with every definition of a container; in all else a container has what its
frozen registry has. -/
theorem parameters_filled :
    (∀ (p : Parameters) (n : Node),
      ((∃ n', n.substitute p = .ok n') ↔ ∀ l ∈ n.leaves, l.Substitutes p) ∧
      ∀ n', n.substitute p = .ok n' →
        (∀ key, .parameter key ∉ n'.leaves) ∧ n'.references = n.references ∧ n'.outline = n.outline ∧
        List.Forall₂ (Leaf.Filled p) n.leaves n'.leaves) ∧
    ∀ (r : Registry) (cs : Constructors σ) (services : Services σ) (c : Container σ),
      ofRegistry r cs services = .ok c →
        (∀ d ∈ c.registry.definitions, ∀ key, .parameter key ∉ d.leaves) ∧
        ∃ frozen, r.freeze = .ok frozen ∧ c.registry = { frozen with definitions := c.registry.definitions } ∧
          List.Forall₂ (Definition.Filled frozen.parameters) r.definitions c.registry.definitions := by
  constructor
  · intro p n
    refine ⟨Node.exists_substitute_iff n, fun n' h => ?_⟩
    obtain ⟨houtline, hleaves⟩ := Node.filled_of_substitute n h
    exact ⟨Leaf.not_mem_of_filled hleaves, Node.references_of_filled hleaves, houtline, hleaves⟩
  · intro r cs services c h
    obtain ⟨frozen, hfreeze, hc, hfilled⟩ := filled_of_ofRegistry h
    refine ⟨?_, frozen, hfreeze, hc, hfilled⟩
    exact forall_mem_of_forall₂ hfilled fun _ _ hd => Leaf.not_mem_of_filled hd.leaves

/-- a parameter filled in beside an escaped percent sign -/
def tax : Definition :=
  .ofNode "tax" (.statement (.method (.parameter "rate") "of")
    [.literal (.str "%%rate%% is %rate%"), .reference "shop" true] [.mk "round" [.parameter "rate"]])

/-- `tax`, filled; another round would make `5% is 5%` of its text -/
def signedTax : Definition :=
  .ofNode "tax" (.statement (.method (.literal (.str "5%")) "of")
    [.literal (.str "%rate% is 5%"), .reference "shop" true] [.mk "round" [.literal (.str "5%")]])

/-- a registry whose parameter holds a percent sign -/
def signed : Registry :=
  { Registry.ofParameters (.ofTree [("rate", .str "5%%")]) with definitions := [tax] }

theorem signed_filled :
    (∃ p : Parameters, p.get "rate" = .ok (.str "5%") ∧ tax.root.substitute p = .ok signedTax.root ∧
      (∀ key, .parameter key ∉ signedTax.root.leaves) ∧ signedTax.root.references = tax.root.references ∧
      signedTax.root.outline = tax.root.outline ∧
      List.Forall₂ (Leaf.Filled p) tax.root.leaves signedTax.root.leaves) ∧
    ∃ c : Container Empty, ofRegistry signed [] ⟨nofun, nofun, fun _ _ s => nomatch s⟩ = .ok c ∧
      c.registry.definitions = [signedTax] ∧ (∀ key, .parameter key ∉ signedTax.leaves) ∧
      ∃ frozen, signed.freeze = .ok frozen ∧
        List.Forall₂ (Definition.Filled frozen.parameters) [tax] [signedTax] := by
  let services : Services Empty := ⟨nofun, nofun, fun _ _ s => nomatch s⟩
  let p : Parameters := { tree := [("rate", .str "5%")], resolved := true }
  have hroot : tax.root.substitute p = .ok signedTax.root := by decide +kernel
  have hopens : ofRegistry signed [] services =
      .ok ⟨{ signed with parameters := p, definitions := [signedTax], frozen := true }, [], services⟩ := by
    rfl
  constructor
  · exact ⟨p, by decide +kernel, hroot, (parameters_filled (σ := Empty)).1 p tax.root |>.2 _ hroot⟩
  · obtain ⟨hnone, frozen, hfreeze, -, hfilled⟩ := parameters_filled.2 signed [] services _ hopens
    exact ⟨_, hopens, rfl, hnone signedTax (List.mem_singleton_self _), frozen, hfreeze, hfilled⟩

end Container
end ServiceGraph
