import ServiceGraph.Source.Compile

/-!
# What a compiled node went through

A node that has a term was looked at everywhere: its literals expand, its parameters have values,
its references are defined and its constructors take their arguments.

* `Compiling.bind_eq_ok`: a compilation in two steps that succeeds;
* `Compile.node_statement`, `nodes_cons`, `chain_cons`, `setup_cons`: a node with a term, taken
  apart;
* `Compile.substitute_of_node`: its parameters can be substituted.
-/

namespace ServiceGraph

theorem Compiling.bind_eq_ok {α β : Type} {x : Compiling α} {f : α → Compiling β} {b : β}
    (h : (x >>= f) = some (.ok b)) : ∃ a, x = some (.ok a) ∧ f a = some (.ok b) := by
  cases x with
  | none => cases h
  | some r =>
    cases r with
    | error e => cases h
    | ok a => exact ⟨a, rfl, h⟩

namespace Compile

variable {c : Context} {service : String}

/-- what a statement invokes, as a term, given the terms of its arguments -/
def Invoked (c : Context) (service : String) (ts : List Term) : Callable → Term → Prop
  | .named name, t =>
    checkConstructor c name ts.length service = .ok () ∧ t = .construct name ts
  | .method target method, t =>
    ∃ u, node c service target = some (.ok u) ∧ t = .invoke u method ts
  | .array, t => t = .list ts
  | .record keys, t => t = .map (keys.zip ts)

/-- a constructor that was checked is known and takes that many arguments -/
theorem checkConstructor_eq_ok {arity : String → Option Arity} (ha : c.arity = some arity)
    {name : String} {count : Nat} (h : checkConstructor c name count service = .ok ()) :
    ∃ a, arity name = some a ∧ a.accepts count = true := by
  unfold checkConstructor at h
  rw [ha] at h
  cases hn : arity name with
  | none =>
    simp only [hn] at h
    cases h
  | some a =>
    simp only [hn] at h
    split at h
    · next hcount => exact ⟨a, rfl, hcount⟩
    · cases h

theorem node_statement {callable : Callable} {args : List Node} {calls : List MethodCall}
    {t : Term} (h : node c service (.statement callable args calls) = some (.ok t)) :
    ∃ ts u, nodes c service args = some (.ok ts) ∧ Invoked c service ts callable u ∧
      chain c service u calls = some (.ok t) := by
  rw [node] at h
  obtain ⟨ts, hts, h⟩ := Compiling.bind_eq_ok h
  cases callable with
  | named name =>
    obtain ⟨⟨⟩, hcheck, h⟩ := Compiling.bind_eq_ok h
    exact ⟨ts, _, hts, ⟨Option.some.inj hcheck, rfl⟩, h⟩
  | method target method =>
    obtain ⟨r, hr, h⟩ := Compiling.bind_eq_ok h
    exact ⟨ts, _, hts, ⟨r, hr, rfl⟩, h⟩
  | array => exact ⟨ts, _, hts, rfl, h⟩
  | record keys => exact ⟨ts, _, hts, rfl, h⟩

theorem nodes_cons {n : Node} {ns : List Node} {ts : List Term}
    (h : nodes c service (n :: ns) = some (.ok ts)) :
    ∃ t ts', node c service n = some (.ok t) ∧ nodes c service ns = some (.ok ts') ∧
      ts = t :: ts' := by
  rw [nodes] at h
  obtain ⟨t, ht, h⟩ := Compiling.bind_eq_ok h
  obtain ⟨ts', hts', h⟩ := Compiling.bind_eq_ok h
  cases h
  exact ⟨t, ts', ht, hts', rfl⟩

theorem chain_cons {receiver t : Term} {method : String} {args : List Node}
    {calls : List MethodCall}
    (h : chain c service receiver (.mk method args :: calls) = some (.ok t)) :
    ∃ ts, nodes c service args = some (.ok ts) ∧
      chain c service (.fluent receiver method ts) calls = some (.ok t) := by
  rw [chain] at h
  exact Compiling.bind_eq_ok h

theorem setup_cons {call : MethodCall} {calls : List MethodCall}
    {ts : List (String × List Term)}
    (h : setup c service (call :: calls) = some (.ok ts)) :
    ∃ us ts', nodes c service call.args = some (.ok us) ∧
      setup c service calls = some (.ok ts') ∧ ts = (call.method, us) :: ts' := by
  rw [setup] at h
  obtain ⟨us, hus, h⟩ := Compiling.bind_eq_ok h
  obtain ⟨ts', hts', h⟩ := Compiling.bind_eq_ok h
  cases h
  exact ⟨us, ts', hus, hts', rfl⟩

theorem nodes_length {ns : List Node} {ts : List Term}
    (h : nodes c service ns = some (.ok ts)) : ts.length = ns.length := by
  induction ns generalizing ts with
  | nil =>
    cases h
    rfl
  | cons n ns ih =>
    obtain ⟨t, ts', -, hts', rfl⟩ := nodes_cons h
    rw [List.length_cons, List.length_cons, ih hts']

theorem literal_eq_ok {v : Value} {t : Term} (h : literal c v = some (.ok t)) :
    ∃ w, c.parameters.expand v = .ok w ∧ Term.ofValueWith c.object w = some t := by
  obtain ⟨w, hw, h⟩ := Compiling.bind_eq_ok h
  refine ⟨w, ?_, ?_⟩
  · cases he : c.parameters.expand v with
    | error e =>
      rw [he] at hw
      cases hw
    | ok w' =>
      rw [he] at hw
      cases hw
      rfl
  · cases ht : Term.ofValueWith c.object w with
    | none =>
      rw [ht] at h
      cases h
    | some t' =>
      rw [ht] at h
      cases h
      rfl

theorem parameter_eq_ok {key : String} {t : Term}
    (h : ofExcept (parameter c key) = some (.ok t)) :
    ∃ v, c.parameters.get key = .ok v ∧ t = .parameter key := by
  have h := Option.some.inj h
  unfold parameter at h
  split at h
  · next v hv =>
    cases h
    exact ⟨v, hv, rfl⟩
  · cases h

/-- a reference with a term is defined, or it is optional and has the term of null -/
theorem reference_eq_ok {id : String} {optional : Bool} {t : Term}
    (h : ofExcept (reference c service id optional) = some (.ok t)) :
    (∃ m, c.methods.get? id = some m ∧ t = .service m) ∨
      (c.methods.get? id = none ∧ optional = true ∧ t = .null) := by
  have h := Option.some.inj h
  unfold reference at h
  split at h
  · next m hm =>
    cases h
    exact .inl ⟨m, hm, rfl⟩
  · next hm =>
    split at h
    · next ho =>
      cases h
      exact .inr ⟨hm, ho, rfl⟩
    · cases h

/-! ## substitution -/

mutual

/-- the parameters of a node with a term can be substituted -/
theorem substitute_of_node {n : Node} {t : Term} (h : node c service n = some (.ok t)) :
    ∃ n', n.substitute c.parameters = .ok n' := by
  cases n with
  | literal v =>
    rw [node] at h
    obtain ⟨w, hw, -⟩ := literal_eq_ok h
    exact ⟨.literal w, by rw [Node.substitute, hw]; rfl⟩
  | parameter key =>
    rw [node] at h
    obtain ⟨v, hv, -⟩ := parameter_eq_ok h
    exact ⟨.literal v, by rw [Node.substitute, hv]; rfl⟩
  | reference id optional => exact ⟨_, rfl⟩
  | statement callable args calls =>
    obtain ⟨ts, u, hargs, hu, hcalls⟩ := node_statement h
    obtain ⟨args', hargs'⟩ := substituteAll_of_nodes hargs
    obtain ⟨calls', hcalls'⟩ := substituteCalls_of_chain hcalls
    cases callable with
    | named name => exact ⟨_, by rw [Node.substitute, hargs', hcalls']; rfl⟩
    | method target method =>
      obtain ⟨r, hr, -⟩ := hu
      obtain ⟨target', htarget'⟩ := substitute_of_node hr
      exact ⟨_, by rw [Node.substitute, hargs', hcalls', htarget']; rfl⟩
    | array => exact ⟨_, by rw [Node.substitute, hargs', hcalls']; rfl⟩
    | record keys => exact ⟨_, by rw [Node.substitute, hargs', hcalls']; rfl⟩

theorem substituteAll_of_nodes {ns : List Node} {ts : List Term}
    (h : nodes c service ns = some (.ok ts)) :
    ∃ ns', Node.substituteAll c.parameters ns = .ok ns' := by
  cases ns with
  | nil => exact ⟨[], rfl⟩
  | cons n ns =>
    obtain ⟨t, ts', ht, hts', -⟩ := nodes_cons h
    obtain ⟨n', hn'⟩ := substitute_of_node ht
    obtain ⟨ns', hns'⟩ := substituteAll_of_nodes hts'
    exact ⟨n' :: ns', by rw [Node.substituteAll, hn', hns']; rfl⟩

theorem substituteCalls_of_chain {receiver t : Term} {calls : List MethodCall}
    (h : chain c service receiver calls = some (.ok t)) :
    ∃ calls', Node.substituteCalls c.parameters calls = .ok calls' := by
  cases calls with
  | nil => exact ⟨[], rfl⟩
  | cons call calls =>
    cases call with
    | mk method args =>
      obtain ⟨ts, hts, h⟩ := chain_cons h
      obtain ⟨args', hargs'⟩ := substituteAll_of_nodes hts
      obtain ⟨calls', hcalls'⟩ := substituteCalls_of_chain h
      exact ⟨.mk method args' :: calls', by
        rw [Node.substituteCalls, hargs', hcalls']; rfl⟩

end

theorem substituteCalls_of_setup {calls : List MethodCall} {ts : List (String × List Term)}
    (h : setup c service calls = some (.ok ts)) :
    ∃ calls', Node.substituteCalls c.parameters calls = .ok calls' := by
  induction calls generalizing ts with
  | nil => exact ⟨[], rfl⟩
  | cons call calls ih =>
    obtain ⟨us, ts', hus, hts', -⟩ := setup_cons h
    obtain ⟨args', hargs'⟩ := substituteAll_of_nodes hus
    obtain ⟨calls', hcalls'⟩ := ih hts'
    cases call with
    | mk method args =>
      have hargs' : Node.substituteAll c.parameters args = .ok args' := hargs'
      exact ⟨.mk method args' :: calls', by
        rw [Node.substituteCalls, hargs', hcalls']; rfl⟩

end Compile
end ServiceGraph
