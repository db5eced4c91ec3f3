import ServiceGraph.Node.Basic

/-!
# Two orders of the services in a node

* `Node.evaluationOrder`: arguments first, then what they are given to, then the calls;
* `Node.textOrder`: from left to right as a node is written: the receiver, its arguments, the calls;
  the arguments of a record end with its keys;
* `Node.Ordered`: no receiver competes with its arguments, and no argument is without a key;
* `Node.evaluationOrder_eq_textOrder`: then the orders are one;
* `Node.mem_evaluationOrder_iff`: in whatever order, the defined ones are those that the node
  refers to.

An optional reference counts when its service is defined.
-/

namespace ServiceGraph.Node

variable (defined : String → Bool)

/-- the service that a reference stands for, unless it may be absent and is -/
def referenced (id : String) (optional : Bool) : List String :=
  if optional && !defined id then [] else [id]

mutual

/-- the services in the order in which a node is evaluated -/
def evaluationOrder : Node → List String
  | literal _ | parameter _ => []
  | reference id optional => referenced defined id optional
  | statement callable args calls =>
    evaluationOrderOf args ++
    (match callable with
      | .method target _ => evaluationOrder target
      | .named _ | .array | .record _ => []) ++
    evaluationOrderOfCalls calls

def evaluationOrderOf : List Node → List String
  | [] => []
  | n :: ns => evaluationOrder n ++ evaluationOrderOf ns

def evaluationOrderOfCalls : List MethodCall → List String
  | [] => []
  | .mk _ args :: calls => evaluationOrderOf args ++ evaluationOrderOfCalls calls

end

mutual

/-- the services in the order in which a node is written -/
def textOrder : Node → List String
  | literal _ | parameter _ => []
  | reference id optional => referenced defined id optional
  | statement callable args calls =>
    (match callable with
      | .method target _ => textOrder target ++ textOrderOf args.length args
      | .named _ | .array => textOrderOf args.length args
      | .record keys => textOrderOf keys.length args) ++
    textOrderOfCalls calls

/-- the same for the first few of a list of nodes -/
def textOrderOf : Nat → List Node → List String
  | 0, _ | _, [] => []
  | count + 1, n :: ns => textOrder n ++ textOrderOf count ns

def textOrderOfCalls : List MethodCall → List String
  | [] => []
  | .mk _ args :: calls => textOrderOf args.length args ++ textOrderOfCalls calls

end

mutual

/-- no receiver competes with its arguments, and no argument of a record is without a key -/
def Ordered : Node → Prop
  | literal _ | parameter _ | reference _ _ => True
  | statement callable args calls =>
    (match callable with
      | .method target _ =>
        Ordered target ∧ (evaluationOrder defined target = [] ∨ evaluationOrderOf defined args = [])
      | .named _ | .array => True
      | .record keys => args.length ≤ keys.length) ∧
    OrderedAll args ∧ OrderedCalls calls

def OrderedAll : List Node → Prop
  | [] => True
  | n :: ns => Ordered n ∧ OrderedAll ns

def OrderedCalls : List MethodCall → Prop
  | [] => True
  | .mk _ args :: calls => OrderedAll args ∧ OrderedCalls calls

end

variable {defined}

mutual

/-- a node in which no receiver competes with its arguments is evaluated as it is written -/
theorem evaluationOrder_eq_textOrder {n : Node} (h : n.Ordered defined) :
    n.evaluationOrder defined = n.textOrder defined := by
  cases n with
  | literal v => rfl
  | parameter key => rfl
  | reference id optional => rfl
  | statement callable args calls =>
    cases callable with
    | named _ | array =>
      rw [Ordered] at h
      obtain ⟨-, hargs, hcalls⟩ := h
      rw [evaluationOrder, textOrder, evaluationOrderOf_eq hargs (Nat.le_refl _),
        evaluationOrderOfCalls_eq hcalls]
      exact congrArg (· ++ _) (List.append_nil _)
    | method target method =>
      rw [Ordered] at h
      obtain ⟨⟨htarget, hnone⟩, hargs, hcalls⟩ := h
      have hswap : evaluationOrderOf defined args ++ evaluationOrder defined target =
          evaluationOrder defined target ++ evaluationOrderOf defined args := by
        rcases hnone with hnone | hnone
        · rw [hnone, List.append_nil, List.nil_append]
        · rw [hnone, List.append_nil, List.nil_append]
      show evaluationOrderOf defined args ++ evaluationOrder defined target ++
        evaluationOrderOfCalls defined calls = _
      rw [hswap, evaluationOrder_eq_textOrder htarget,
        evaluationOrderOf_eq hargs (Nat.le_refl _), evaluationOrderOfCalls_eq hcalls]
      rfl
    | record keys =>
      rw [Ordered] at h
      obtain ⟨hcount, hargs, hcalls⟩ := h
      rw [evaluationOrder, textOrder, evaluationOrderOf_eq hargs hcount,
        evaluationOrderOfCalls_eq hcalls]
      exact congrArg (· ++ _) (List.append_nil _)

theorem evaluationOrderOf_eq {ns : List Node} (h : OrderedAll defined ns) {count : Nat}
    (hcount : ns.length ≤ count) :
    evaluationOrderOf defined ns = textOrderOf defined count ns := by
  cases ns with
  | nil => cases count <;> rfl
  | cons n ns =>
    cases count with
    | zero => exact absurd hcount (by simp)
    | succ count =>
      rw [OrderedAll] at h
      obtain ⟨hn, hns⟩ := h
      rw [evaluationOrderOf, textOrderOf, evaluationOrder_eq_textOrder hn,
        evaluationOrderOf_eq hns (by simpa using hcount)]

theorem evaluationOrderOfCalls_eq {calls : List MethodCall} (h : OrderedCalls defined calls) :
    evaluationOrderOfCalls defined calls = textOrderOfCalls defined calls := by
  cases calls with
  | nil => rfl
  | cons call calls =>
    cases call with
    | mk method args =>
      rw [OrderedCalls] at h
      obtain ⟨hargs, hcalls⟩ := h
      rw [evaluationOrderOfCalls, textOrderOfCalls, evaluationOrderOf_eq hargs (Nat.le_refl _),
        evaluationOrderOfCalls_eq hcalls]

end

/-! ## without regard to order -/

mutual

/-- a service that is defined is needed when the node refers to it -/
theorem mem_evaluationOrder_iff {id : String} (hid : defined id = true) (n : Node) :
    id ∈ n.evaluationOrder defined ↔ id ∈ n.references := by
  cases n with
  | literal v => rfl
  | parameter key => rfl
  | reference other optional =>
    rw [evaluationOrder, referenced, references]
    split
    · next h =>
      constructor
      · intro hmem
        cases hmem
      · intro hmem
        rw [← List.mem_singleton.mp hmem, hid] at h
        simp at h
    · rfl
  | statement callable args calls =>
    have hargs := mem_evaluationOrderOf_iff hid args
    have hcalls := mem_evaluationOrderOfCalls_iff hid calls
    cases callable with
    | method target method =>
      have htarget := mem_evaluationOrder_iff hid target
      show id ∈ evaluationOrderOf defined args ++ evaluationOrder defined target ++
        evaluationOrderOfCalls defined calls ↔
          id ∈ references target ++ referencesOf args ++ referencesOfCalls calls
      rw [List.mem_append, List.mem_append, List.mem_append, List.mem_append, htarget, hargs,
        hcalls, or_comm (a := id ∈ referencesOf args)]
    | named name | array | record keys =>
      rw [evaluationOrder, references, List.mem_append, List.mem_append, List.mem_append,
        List.mem_append, hargs, hcalls, or_comm (a := id ∈ referencesOf args)]

theorem mem_evaluationOrderOf_iff {id : String} (hid : defined id = true) (ns : List Node) :
    id ∈ evaluationOrderOf defined ns ↔ id ∈ referencesOf ns := by
  cases ns with
  | nil => rfl
  | cons n ns =>
    rw [evaluationOrderOf, referencesOf, List.mem_append, List.mem_append,
      mem_evaluationOrder_iff hid n, mem_evaluationOrderOf_iff hid ns]

theorem mem_evaluationOrderOfCalls_iff {id : String} (hid : defined id = true)
    (calls : List MethodCall) :
    id ∈ evaluationOrderOfCalls defined calls ↔ id ∈ referencesOfCalls calls := by
  cases calls with
  | nil => rfl
  | cons call calls =>
    cases call with
    | mk method args =>
      rw [evaluationOrderOfCalls, referencesOfCalls, List.mem_append, List.mem_append,
        mem_evaluationOrderOf_iff hid args, mem_evaluationOrderOfCalls_iff hid calls]

end

end ServiceGraph.Node
