import ServiceGraph.Value.Basic

/-!
# Nodes

A node says how to build a value.

* `Node`: a literal, a parameter, a reference to another definition, or a statement;
* `Callable`: what a statement invokes with its arguments;
* `MethodCall`: a call on the value built so far;
* `Node.references`: the ids a node refers to, in the order in which they are met;
* `Node.required`: the same without the optional references.
-/

namespace ServiceGraph

mutual

/-- how to build a value -/
inductive Node where
  | literal (v : Value)
  | parameter (key : String)
  | reference (id : String) (optional : Bool)
  | statement (callable : Callable) (args : List Node) (calls : List MethodCall)

/-- what a statement invokes: a named constructor, a method of another value, or one of the two
collections -/
inductive Callable where
  | named (name : String)
  | method (target : Node) (name : String)
  | array
  | record (keys : List String)

inductive MethodCall where
  | mk (method : String) (args : List Node)

end

deriving instance Repr for Node, Callable, MethodCall

instance : Inhabited Node := ⟨.literal .null⟩

namespace MethodCall

def method : MethodCall → String
  | mk method _ => method

def args : MethodCall → List Node
  | mk _ args => args

end MethodCall

namespace Node

def array (items : List Node) : Node := .statement .array items []

def record (entries : List (String × Node)) : Node :=
  .statement (.record (entries.map Prod.fst)) (entries.map Prod.snd) []

def create (name : String) (args : List Node) : Node := .statement (.named name) args []

def literal? : Node → Option Value
  | literal v => some v
  | _ => none

mutual

def references : Node → List String
  | literal _ | parameter _ => []
  | reference id _ => [id]
  | statement callable args calls =>
    (match callable with
      | .method target _ => references target
      | .named _ | .array | .record _ => []) ++
    referencesOf args ++ referencesOfCalls calls

def referencesOf : List Node → List String
  | [] => []
  | n :: ns => references n ++ referencesOf ns

def referencesOfCalls : List MethodCall → List String
  | [] => []
  | .mk _ args :: calls => referencesOf args ++ referencesOfCalls calls

end

mutual

/-- the ids a node cannot do without -/
def required : Node → List String
  | literal _ | parameter _ => []
  | reference id optional => if optional then [] else [id]
  | statement callable args calls =>
    (match callable with
      | .method target _ => required target
      | .named _ | .array | .record _ => []) ++
    requiredOf args ++ requiredOfCalls calls

def requiredOf : List Node → List String
  | [] => []
  | n :: ns => required n ++ requiredOf ns

def requiredOfCalls : List MethodCall → List String
  | [] => []
  | .mk _ args :: calls => requiredOf args ++ requiredOfCalls calls

end

/-! ## equality -/

mutual

def decEq : (m n : Node) → Decidable (m = n)
  | literal v, n => match n with
    | literal w => decidable_of_iff (v = w) (by simp)
    | parameter _ | reference _ _ | statement _ _ _ => isFalse nofun
  | parameter k, n => match n with
    | parameter l => decidable_of_iff (k = l) (by simp)
    | literal _ | reference _ _ | statement _ _ _ => isFalse nofun
  | reference i o, n => match n with
    | reference j p => decidable_of_iff (i = j ∧ o = p) (by simp)
    | literal _ | parameter _ | statement _ _ _ => isFalse nofun
  | statement c as ms, n => match n with
    | statement d bs ns =>
      match decEqCallable c d, decEqNodes as bs, decEqCalls ms ns with
      | isTrue h, isTrue h', isTrue h'' => isTrue (by rw [h, h', h''])
      | isFalse h, _, _ => isFalse (by simp [h])
      | _, isFalse h, _ => isFalse (by simp [h])
      | _, _, isFalse h => isFalse (by simp [h])
    | literal _ | parameter _ | reference _ _ => isFalse nofun

def decEqCallable : (c d : Callable) → Decidable (c = d)
  | .named a, d => match d with
    | .named b => decidable_of_iff (a = b) (by simp)
    | .method _ _ | .array | .record _ => isFalse nofun
  | .method t a, d => match d with
    | .method u b =>
      match decEq t u with
      | isTrue h => decidable_of_iff (a = b) (by simp [h])
      | isFalse h => isFalse (by simp [h])
    | .named _ | .array | .record _ => isFalse nofun
  | .array, d => match d with
    | .array => isTrue rfl
    | .named _ | .method _ _ | .record _ => isFalse nofun
  | .record ks, d => match d with
    | .record ls => decidable_of_iff (ks = ls) (by simp)
    | .named _ | .method _ _ | .array => isFalse nofun

def decEqNodes : (ms ns : List Node) → Decidable (ms = ns)
  | [], [] => isTrue rfl
  | [], _ :: _ => isFalse nofun
  | _ :: _, [] => isFalse nofun
  | m :: ms, n :: ns => match decEq m n, decEqNodes ms ns with
    | isTrue h, isTrue h' => isTrue (by rw [h, h'])
    | isFalse h, _ => isFalse (by simp [h])
    | _, isFalse h => isFalse (by simp [h])

def decEqCalls : (ms ns : List MethodCall) → Decidable (ms = ns)
  | [], [] => isTrue rfl
  | [], _ :: _ => isFalse nofun
  | _ :: _, [] => isFalse nofun
  | .mk a as :: ms, .mk b bs :: ns =>
    if hab : a = b then
      match decEqNodes as bs, decEqCalls ms ns with
      | isTrue h, isTrue h' => isTrue (by rw [hab, h, h'])
      | isFalse h, _ => isFalse (by simp [h])
      | _, isFalse h => isFalse (by simp [h])
    else isFalse (by simp [hab])

end

instance : DecidableEq Node := decEq
instance : DecidableEq Callable := decEqCallable
instance : DecidableEq MethodCall := fun
  | .mk a as, .mk b bs => decidable_of_iff (a = b ∧ as = bs) (by simp)

end Node
end ServiceGraph
