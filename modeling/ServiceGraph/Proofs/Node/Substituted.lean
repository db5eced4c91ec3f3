import ServiceGraph.Node.Substitution

/-!
# Substituted nodes, taken apart

* `Callable.Substituted`: what becomes of a callable;
* `Node.substitute_statement`, `substituteAll_cons`, `substituteCalls_cons`: a substitution that
  succeeds keeps the shape of a node.
-/

namespace ServiceGraph

/-- the second callable is the first one with the parameters substituted -/
def Callable.Substituted (p : Parameters) : Callable → Callable → Prop
  | .method target name, callable =>
    ∃ target', target.substitute p = .ok target' ∧ callable = .method target' name
  | .named name, callable => callable = .named name
  | .array, callable => callable = .array
  | .record keys, callable => callable = .record keys

namespace Node

variable {p : Parameters}

theorem substitute_literal {v : Value} {n' : Node} (h : (literal v).substitute p = .ok n') :
    ∃ w, p.expand v = .ok w ∧ n' = literal w := by
  rw [substitute] at h
  obtain ⟨w, hw, h⟩ := Expansion.bind_eq_ok h
  cases h
  exact ⟨w, hw, rfl⟩

theorem substitute_parameter {key : String} {n' : Node}
    (h : (parameter key).substitute p = .ok n') : ∃ w, p.get key = .ok w ∧ n' = literal w := by
  rw [substitute] at h
  obtain ⟨w, hw, h⟩ := Expansion.bind_eq_ok h
  cases h
  exact ⟨w, hw, rfl⟩

theorem substitute_statement {callable : Callable} {args : List Node} {calls : List MethodCall}
    {n' : Node} (h : (statement callable args calls).substitute p = .ok n') :
    ∃ callable' args' calls', callable.Substituted p callable' ∧
      substituteAll p args = .ok args' ∧ substituteCalls p calls = .ok calls' ∧
      n' = statement callable' args' calls' := by
  cases callable with
  | method target name =>
    rw [substitute] at h
    obtain ⟨target', htarget', h⟩ := Expansion.bind_eq_ok h
    obtain ⟨_, hk, h⟩ := Expansion.bind_eq_ok h
    obtain ⟨args', hargs', h⟩ := Expansion.bind_eq_ok h
    obtain ⟨calls', hcalls', h⟩ := Expansion.bind_eq_ok h
    cases hk
    cases h
    exact ⟨_, args', calls', ⟨target', htarget', rfl⟩, hargs', hcalls', rfl⟩
  | named _ | array | record _ =>
    rw [substitute] at h
    obtain ⟨_, hk, h⟩ := Expansion.bind_eq_ok h
    obtain ⟨args', hargs', h⟩ := Expansion.bind_eq_ok h
    obtain ⟨calls', hcalls', h⟩ := Expansion.bind_eq_ok h
    cases hk
    cases h
    exact ⟨_, args', calls', rfl, hargs', hcalls', rfl⟩

theorem substituteAll_cons {n : Node} {ns ns' : List Node}
    (h : substituteAll p (n :: ns) = .ok ns') :
    ∃ m ms, n.substitute p = .ok m ∧ substituteAll p ns = .ok ms ∧ ns' = m :: ms := by
  rw [substituteAll] at h
  obtain ⟨m, hm, h⟩ := Expansion.bind_eq_ok h
  obtain ⟨ms, hms, h⟩ := Expansion.bind_eq_ok h
  cases h
  exact ⟨m, ms, hm, hms, rfl⟩

theorem substituteAll_length {ns ns' : List Node} (h : substituteAll p ns = .ok ns') :
    ns'.length = ns.length := by
  induction ns generalizing ns' with
  | nil =>
    cases h
    rfl
  | cons n ns ih =>
    obtain ⟨m, ms, -, hms, rfl⟩ := substituteAll_cons h
    rw [List.length_cons, List.length_cons, ih hms]

theorem substituteCalls_cons {method : String} {args : List Node}
    {calls calls' : List MethodCall}
    (h : substituteCalls p (.mk method args :: calls) = .ok calls') :
    ∃ args' rest, substituteAll p args = .ok args' ∧ substituteCalls p calls = .ok rest ∧
      calls' = .mk method args' :: rest := by
  rw [substituteCalls] at h
  obtain ⟨args', hargs', h⟩ := Expansion.bind_eq_ok h
  obtain ⟨rest, hrest, h⟩ := Expansion.bind_eq_ok h
  cases h
  exact ⟨args', rest, hargs', hrest, rfl⟩

end Node
end ServiceGraph
