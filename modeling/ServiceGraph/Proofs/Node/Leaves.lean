import ServiceGraph.Proofs.Container.Unshared
import ServiceGraph.Proofs.Node.Substituted

/-!
# The leaves of a node

A node is a tree of statements over literals, parameters and references. What can go wrong in it goes wrong
at one of these.

* `Leaf`, `Node.leaves`, `Definition.leaves`: the leaves, in the order in which they are written;
* `Node.exists_substitute_iff`: parameters can be put into a node when they can be put into its leaves;
* `Definition.mem_required_iff`, `Definition.mem_literals_iff`: the ids that a definition cannot do without
  and its literals are leaves.
-/

set_option linter.unusedSectionVars false

namespace ServiceGraph

/-- what a node consists of beside statements -/
inductive Leaf where
  | literal (v : Value)
  | parameter (key : String)
  | reference (id : String) (optional : Bool)

/-- parameters can be put into the leaf -/
def Leaf.Substitutes (p : Parameters) : Leaf → Prop
  | literal v => ∃ w, p.expand v = .ok w
  | parameter key => ∃ w, p.get key = .ok w
  | reference _ _ => True

namespace Node

mutual

def leaves : Node → List Leaf
  | literal v => [.literal v]
  | parameter key => [.parameter key]
  | reference id optional => [.reference id optional]
  | statement callable args calls => leavesOfCallable callable ++ (leavesOf args ++ leavesOfCalls calls)

def leavesOfCallable : Callable → List Leaf
  | .method target _ => leaves target
  | .named _ | .array | .record _ => []

def leavesOf : List Node → List Leaf
  | [] => []
  | n :: ns => leaves n ++ leavesOf ns

def leavesOfCalls : List MethodCall → List Leaf
  | [] => []
  | .mk _ args :: calls => leavesOf args ++ leavesOfCalls calls

end

/-! ## parameters in leaves -/

section
variable {p : Parameters}

mutual

/-- parameters can be put into a node when they can be put into its leaves -/
theorem exists_substitute_iff (n : Node) :
    (∃ n', n.substitute p = .ok n') ↔ ∀ l ∈ n.leaves, l.Substitutes p := by
  cases n with
  | literal v =>
    rw [leaves, List.forall_mem_singleton]
    constructor
    · rintro ⟨n', h⟩
      obtain ⟨w, hw, -⟩ := substitute_literal h
      exact ⟨w, hw⟩
    · rintro ⟨w, hw⟩
      exact ⟨.literal w, by rw [substitute, hw]; rfl⟩
  | parameter key =>
    rw [leaves, List.forall_mem_singleton]
    constructor
    · rintro ⟨n', h⟩
      obtain ⟨w, hw, -⟩ := substitute_parameter h
      exact ⟨w, hw⟩
    · rintro ⟨w, hw⟩
      exact ⟨.literal w, by rw [substitute, hw]; rfl⟩
  | reference id optional =>
    rw [leaves, List.forall_mem_singleton]
    exact ⟨fun _ => trivial, fun _ => ⟨_, rfl⟩⟩
  | statement callable args calls =>
    rw [leaves, List.forall_mem_append, List.forall_mem_append, ← exists_substituted_iff callable,
      ← exists_substituteAll_iff args, ← exists_substituteCalls_iff calls]
    constructor
    · rintro ⟨n', h⟩
      obtain ⟨callable', args', calls', hcallable, hargs, hcalls, -⟩ := substitute_statement h
      exact ⟨⟨callable', hcallable⟩, ⟨args', hargs⟩, ⟨calls', hcalls⟩⟩
    · rintro ⟨⟨callable', hcallable⟩, ⟨args', hargs⟩, ⟨calls', hcalls⟩⟩
      refine ⟨.statement callable' args' calls', ?_⟩
      cases callable with
      | method target name =>
        obtain ⟨target', htarget, rfl⟩ := hcallable
        rw [substitute, htarget, hargs, hcalls]
        rfl
      | named name | array | record keys =>
        cases hcallable
        rw [substitute, hargs, hcalls]
        rfl

theorem exists_substituted_iff (callable : Callable) :
    (∃ callable', callable.Substituted p callable') ↔ ∀ l ∈ leavesOfCallable callable, l.Substitutes p := by
  cases callable with
  | method target name =>
    rw [leavesOfCallable, ← exists_substitute_iff target]
    constructor
    · rintro ⟨callable', target', htarget, -⟩
      exact ⟨target', htarget⟩
    · rintro ⟨target', htarget⟩
      exact ⟨.method target' name, target', htarget, rfl⟩
  | named name | array | record keys => exact ⟨fun _ => List.forall_mem_nil _, fun _ => ⟨_, rfl⟩⟩

theorem exists_substituteAll_iff (ns : List Node) :
    (∃ ns', substituteAll p ns = .ok ns') ↔ ∀ l ∈ leavesOf ns, l.Substitutes p := by
  cases ns with
  | nil => exact ⟨fun _ => List.forall_mem_nil _, fun _ => ⟨[], rfl⟩⟩
  | cons n ns =>
    rw [leavesOf, List.forall_mem_append, ← exists_substitute_iff n, ← exists_substituteAll_iff ns]
    constructor
    · rintro ⟨ns', h⟩
      obtain ⟨m, ms, hm, hms, -⟩ := substituteAll_cons h
      exact ⟨⟨m, hm⟩, ⟨ms, hms⟩⟩
    · rintro ⟨⟨m, hm⟩, ⟨ms, hms⟩⟩
      exact ⟨m :: ms, by rw [substituteAll, hm, hms]; rfl⟩

theorem exists_substituteCalls_iff (calls : List MethodCall) :
    (∃ calls', substituteCalls p calls = .ok calls') ↔ ∀ l ∈ leavesOfCalls calls, l.Substitutes p := by
  cases calls with
  | nil => exact ⟨fun _ => List.forall_mem_nil _, fun _ => ⟨[], rfl⟩⟩
  | cons call calls =>
    cases call with
    | mk method args =>
      rw [leavesOfCalls, List.forall_mem_append, ← exists_substituteAll_iff args,
        ← exists_substituteCalls_iff calls]
      constructor
      · rintro ⟨calls', h⟩
        obtain ⟨args', rest, hargs, hrest, -⟩ := substituteCalls_cons h
        exact ⟨⟨args', hargs⟩, ⟨rest, hrest⟩⟩
      · rintro ⟨⟨args', hargs⟩, ⟨rest, hrest⟩⟩
        exact ⟨.mk method args' :: rest, by rw [substituteCalls, hargs, hrest]; rfl⟩

end

end

/-! ## references and literals -/

mutual

theorem mem_required_iff {id : String} (n : Node) : id ∈ n.required ↔ .reference id false ∈ n.leaves := by
  cases n with
  | literal v => simp [required, leaves]
  | parameter key => simp [required, leaves]
  | reference other optional => cases optional <;> simp [required, leaves]
  | statement callable args calls =>
    cases callable with
    | method target name =>
      rw [required, leaves, leavesOfCallable, List.mem_append, List.mem_append, List.mem_append,
        List.mem_append, mem_required_iff target, mem_requiredOf_iff args, mem_requiredOfCalls_iff calls,
        or_assoc]
    | named name | array | record keys =>
      rw [required, leaves, leavesOfCallable, List.nil_append, List.nil_append, List.mem_append,
        List.mem_append, mem_requiredOf_iff args, mem_requiredOfCalls_iff calls]

theorem mem_requiredOf_iff {id : String} (ns : List Node) :
    id ∈ requiredOf ns ↔ .reference id false ∈ leavesOf ns := by
  cases ns with
  | nil => simp [requiredOf, leavesOf]
  | cons n ns =>
    rw [requiredOf, leavesOf, List.mem_append, List.mem_append, mem_required_iff n, mem_requiredOf_iff ns]

theorem mem_requiredOfCalls_iff {id : String} (calls : List MethodCall) :
    id ∈ requiredOfCalls calls ↔ .reference id false ∈ leavesOfCalls calls := by
  cases calls with
  | nil => simp [requiredOfCalls, leavesOfCalls]
  | cons call calls =>
    cases call with
    | mk method args =>
      rw [requiredOfCalls, leavesOfCalls, List.mem_append, List.mem_append, mem_requiredOf_iff args,
        mem_requiredOfCalls_iff calls]

end

section
variable {unknown : String → Except ContainerError Value} (hunknown : ∀ key, ∃ e, unknown key = .error e)
  {v : Value}
include hunknown

mutual

theorem mem_data_iff (n : Node) : v ∈ n.data unknown ↔ .literal v ∈ n.leaves := by
  cases n with
  | literal w => simp [data, leaves]
  | parameter key =>
    obtain ⟨e, he⟩ := hunknown key
    simp [data, leaves, he, Except.toOption]
  | reference id optional => simp [data, leaves]
  | statement callable args calls =>
    rw [data, leaves, List.mem_append, List.mem_append, List.mem_append, List.mem_append,
      mem_dataOf_iff args, mem_dataOfCalls_iff calls]
    refine or_congr_left ?_
    cases callable with
    | method target name => exact mem_data_iff target
    | named name | array | record keys => exact ⟨fun h => (nomatch h), fun h => nomatch h⟩

theorem mem_dataOf_iff (ns : List Node) : v ∈ dataOf unknown ns ↔ .literal v ∈ leavesOf ns := by
  cases ns with
  | nil => simp [dataOf, leavesOf]
  | cons n ns => rw [dataOf, leavesOf, List.mem_append, List.mem_append, mem_data_iff n, mem_dataOf_iff ns]

theorem mem_dataOfCalls_iff (calls : List MethodCall) :
    v ∈ dataOfCalls unknown calls ↔ .literal v ∈ leavesOfCalls calls := by
  cases calls with
  | nil => simp [dataOfCalls, leavesOfCalls]
  | cons call calls =>
    cases call with
    | mk method args =>
      rw [dataOfCalls, leavesOfCalls, List.mem_append, List.mem_append, mem_dataOf_iff args,
        mem_dataOfCalls_iff calls]

end

end

end Node

namespace Definition

def leaves (d : Definition) : List Leaf := d.root.leaves ++ Node.leavesOfCalls d.setup

theorem exists_substitute_iff {p : Parameters} (d : Definition) :
    (∃ d', d.substitute p = .ok d') ↔ ∀ l ∈ d.leaves, l.Substitutes p := by
  rw [leaves, List.forall_mem_append, ← Node.exists_substitute_iff, ← Node.exists_substituteCalls_iff]
  constructor
  · rintro ⟨d', h⟩
    obtain ⟨root, setup, hroot, hsetup, -⟩ := substitute_eq_ok h
    exact ⟨⟨root, hroot⟩, ⟨setup, hsetup⟩⟩
  · rintro ⟨⟨root, hroot⟩, ⟨setup, hsetup⟩⟩
    exact ⟨{ d with root, setup }, by rw [substitute, hroot, hsetup]; rfl⟩

theorem mem_required_iff {id : String} (d : Definition) :
    id ∈ d.required ↔ .reference id false ∈ d.leaves := by
  rw [required, leaves, List.mem_append, List.mem_append, Node.mem_required_iff, Node.mem_requiredOfCalls_iff]

theorem mem_literals_iff {v : Value} (d : Definition) : v ∈ d.literals ↔ .literal v ∈ d.leaves := by
  have hunknown : ∀ key, ∃ e, (fun key => .error (.parameter (.unknown key)) :
      String → Except ContainerError Value) key = .error e := fun key => ⟨_, rfl⟩
  rw [literals, data, leaves, List.mem_append, List.mem_append, Node.mem_data_iff hunknown,
    Node.mem_dataOfCalls_iff hunknown]

end Definition
end ServiceGraph
