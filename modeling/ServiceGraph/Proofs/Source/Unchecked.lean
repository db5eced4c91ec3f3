import ServiceGraph.Proofs.Source.Checked

/-!
# Compiling with other constructors

The constructors of a kernel take no part in the text of a module. They only say which statements may
stand in it, so with others, or with none, the same text comes about or one of them is missed.

* `CompileError.OfConstructor`: an error about a constructor;
* `Compile.Kept`: what succeeds gives the same with other constructors, or such an error;
* `Compile.compile_kept`: this is so of whole modules.
-/

namespace ServiceGraph

/-- a constructor is unknown or takes other arguments -/
def CompileError.OfConstructor : CompileError → Prop
  | unknownCallable .. | arityMismatch .. => True
  | _ => False

namespace Compile

/-- the first compilation, if it succeeds, gives what the second gives, unless this one, which knows
constructors, misses one -/
def Kept {α : Type} (known : Bool) (x x' : Compiling α) : Prop :=
  ∀ a, x = some (.ok a) →
    x' = some (.ok a) ∨ known = true ∧ ∃ e, x' = some (.error e) ∧ e.OfConstructor

variable {α β : Type} {known : Bool}

theorem Kept.refl (x : Compiling α) : Kept known x x := fun _ h => .inl h

theorem Kept.bind {x x' : Compiling α} {f f' : α → Compiling β} (hx : Kept known x x')
    (hf : ∀ a, Kept known (f a) (f' a)) : Kept known (x >>= f) (x' >>= f') := by
  intro b hb
  obtain ⟨a, ha, hb⟩ := Compiling.bind_eq_ok hb
  rcases hx a ha with hsame | ⟨hknown, e, hfailed, he⟩
  · rw [hsame]
    exact hf a b hb
  · rw [hfailed]
    exact .inr ⟨hknown, e, rfl, he⟩

theorem Kept.mapM {f f' : α → Compiling β} (h : ∀ a, Kept known (f a) (f' a)) (l : List α) :
    Kept known (l.mapM f) (l.mapM f') := by
  induction l with
  | nil => exact .refl _
  | cons a l ih =>
    rw [List.mapM_cons, List.mapM_cons]
    exact (h a).bind fun b => ih.bind fun bs => .refl _

variable {c : Context} {arity : Option (String → Option Arity)} {service : String}

theorem checkConstructor_kept (c : Context) (name : String) (count : Nat) (service : String) :
    Kept arity.isSome (ofExcept (checkConstructor c name count service))
      (ofExcept (checkConstructor { c with arity } name count service)) := by
  rintro ⟨⟩ -
  rw [checkConstructor]
  cases arity with
  | none => exact .inl rfl
  | some arity =>
    dsimp only
    cases arity name with
    | none => exact .inr ⟨rfl, _, rfl, trivial⟩
    | some a =>
      dsimp only
      split
      · exact .inl rfl
      · exact .inr ⟨rfl, _, rfl, trivial⟩

mutual

theorem node_kept (c : Context) (service : String) (n : Node) :
    Kept arity.isSome (node c service n) (node { c with arity } service n) := by
  cases n with
  | literal v => exact .refl _
  | parameter key => exact .refl _
  | reference id optional => exact .refl _
  | statement callable args calls =>
    rw [node, node]
    refine (nodes_kept c service args).bind fun ts => ?_
    cases callable with
    | named name =>
      exact (checkConstructor_kept c name ts.length service).bind fun _ =>
        (Kept.refl _).bind fun t => chain_kept c service t calls
    | method target method =>
      exact (node_kept c service target).bind fun _ =>
        (Kept.refl _).bind fun t => chain_kept c service t calls
    | array => exact chain_kept c service _ calls
    | record keys => exact chain_kept c service _ calls

theorem nodes_kept (c : Context) (service : String) (ns : List Node) :
    Kept arity.isSome (nodes c service ns) (nodes { c with arity } service ns) := by
  cases ns with
  | nil => exact .refl _
  | cons n ns =>
    rw [nodes, nodes]
    exact (node_kept c service n).bind fun t => (nodes_kept c service ns).bind fun ts => .refl _

theorem chain_kept (c : Context) (service : String) (receiver : Term) (calls : List MethodCall) :
    Kept arity.isSome (chain c service receiver calls) (chain { c with arity } service receiver calls) := by
  cases calls with
  | nil => exact .refl _
  | cons call calls =>
    cases call with
    | mk method args =>
      rw [chain, chain]
      exact (nodes_kept c service args).bind fun ts => chain_kept c service _ calls

end

theorem setup_kept (c : Context) (service : String) (calls : List MethodCall) :
    Kept arity.isSome (setup c service calls) (setup { c with arity } service calls) := by
  induction calls with
  | nil => exact .refl _
  | cons call calls ih =>
    rw [setup, setup]
    exact (nodes_kept c service call.args).bind fun ts => ih.bind fun _ => .refl _

theorem method_kept (c : Context) (d : Definition) :
    Kept arity.isSome (method c d) (method { c with arity } d) := by
  rw [method, method]
  exact (node_kept c d.id d.root).bind fun t => (setup_kept c d.id d.setup).bind fun ts => .refl _

variable {σ : Type}

/-- **Constructors take no part in the text.** A registry that compiles gives the same text with other
constructors, or one of them is unknown or takes other arguments; without constructors it gives the same
text. -/
theorem compile_kept (r : Registry) (cs cs' : Option (Constructors σ)) (services : Services σ) (h : Heap σ)
    (options : SourceOptions) :
    Kept cs'.isSome (compile r cs services h options) (compile r cs' services h options) := by
  have hcontext : context r cs' services h =
      { context r cs services h with arity := (context r cs' services h).arity } := rfl
  have hknown : (context r cs' services h).arity.isSome = cs'.isSome := Option.isSome_map ..
  rw [compile, compile, moduleOf, moduleOf, ← hknown]
  refine Kept.bind ?_ fun m => .refl _
  split
  · refine (Kept.refl _).bind fun t => Kept.bind (Kept.mapM (fun d => ?_) _) fun methods => .refl _
    rw [hcontext]
    exact method_kept _ d
  · exact .refl _

end Compile
end ServiceGraph
