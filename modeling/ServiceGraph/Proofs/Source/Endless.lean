import ServiceGraph.Proofs.Source.Unchecked
import ServiceGraph.Proofs.Source.Unfolding

/-!
# Where compiling has no end

Of what live objects hold, compiling depends on one thing only: whether the objects in its literals come to an end.
If one of them leads into a circle there is no text of the module, and unless an error is met before, there is
no answer at all.

* `Compiling.Lags`: a compilation that answers like another one, or not at all;
* `Leaf.Ends`, `Compile.node_lags`: a node ends when its leaves end;
* `Compile.compile_lags`: so does a registry;
* `Registry.Endless`: some literal holds an object that leads into a circle;
* `Compile.compile_endless`: the result; `Compile.exists_compile_of_earlier`: when there is always an end.
-/

set_option linter.unusedSectionVars false

namespace ServiceGraph

namespace Compiling

variable {α β γ δ : Type} {E : Prop}

/-- the first compilation gives what the second one gives, up to `R`, or it has no end and `E` is so -/
inductive Lags (E : Prop) (R : α → β → Prop) : Compiling α → Compiling β → Prop
  | endless (hE : E) (x' : Compiling β) : Lags E R none x'
  | ok {a : α} {b : β} (hab : R a b) : Lags E R (some (.ok a)) (some (.ok b))
  | error (e : CompileError) : Lags E R (some (.error e)) (some (.error e))

theorem Lags.ofExcept (x : Except CompileError α) : Lags E Eq (Compile.ofExcept x) (Compile.ofExcept x) := by
  cases x with
  | ok a => exact .ok rfl
  | error e => exact .error e

theorem Lags.bind {R : α → β → Prop} {S : γ → δ → Prop} {x : Compiling α} {x' : Compiling β}
    {f : α → Compiling γ} {f' : β → Compiling δ} (hx : Lags E R x x')
    (hf : ∀ a b, R a b → Lags E S (f a) (f' b)) : Lags E S (x >>= f) (x' >>= f') := by
  cases hx with
  | endless hE => exact .endless hE _
  | ok hab => exact hf _ _ hab
  | error e => exact .error e

theorem Lags.exists_eq_some {R : α → β → Prop} {x : Compiling α} {x' : Compiling β} (h : Lags False R x x') :
    ∃ answer, x = some answer := by
  cases h with
  | endless hE => exact hE.elim
  | ok | error => exact ⟨_, rfl⟩

theorem Lags.mapM {f : α → Compiling β} {f' : α → Compiling γ} {as : List α}
    (h : ∀ a ∈ as, Lags E (fun _ _ => True) (f a) (f' a)) :
    Lags E (fun _ _ => True) (as.mapM f) (as.mapM f') := by
  induction as with
  | nil => exact .ok trivial
  | cons a as ih =>
    obtain ⟨ha, has⟩ := List.forall_mem_cons.mp h
    rw [List.mapM_cons, List.mapM_cons]
    exact ha.bind fun _ _ _ => (ih has).bind fun _ _ _ => .ok trivial

end Compiling

/-! ## leaves and nodes -/

namespace Leaf

/-- whatever the leaf expands to comes to an end -/
def Ends (c : Compile.Context) : Leaf → Prop
  | literal v => ∀ w, c.parameters.expand v = .ok w → (Term.ofValueWith c.object w).isSome = true
  | parameter _ | reference .. => True

/-- the leaf ends with other objects in place, and, unless `E`, it ends -/
structure Lags (E : Prop) (c : Compile.Context) (object : ObjectId → Option Term) (l : Leaf) : Prop where
  other : l.Ends { c with object }
  own : ¬ l.Ends c → E

/-- without live objects in the parameters a literal ends when its own objects do -/
theorem ends_literal {c : Compile.Context} (hresolved : c.parameters.resolved = true)
    (hdata : ∀ e ∈ c.parameters.tree, e.2.objects = []) {v : Value}
    (hv : ∀ x ∈ v.objects, (c.object x).isSome = true) : Ends c (literal v) := by
  intro w hw
  refine (Term.isSome_ofValueWith w).mpr fun x hx => hv x ?_
  exact (Parameters.mem_objects_expand_of_data hresolved hdata hw).mp hx

end Leaf

/-! ## emptied objects -/

section
variable {σ : Type} {s : Services σ} {h : Heap σ} {x : ObjectId}

/-- as many objects, of which none holds another -/
def Heap.emptied (h : Heap σ) : Heap σ := ⟨h.objects.map fun _ => .router []⟩

theorem Heap.not_holds_emptied {y : ObjectId} : ¬ h.emptied.Holds s x y := by
  rw [Holds, exportedBy]
  cases hx : h.emptied.get? x with
  | none => exact List.not_mem_nil
  | some o =>
    obtain ⟨_, -, rfl⟩ := List.mem_map.mp (List.mem_of_getElem? hx)
    exact List.not_mem_nil

theorem Heap.isSome_ofObject_emptied (hx : x.index < h.objects.length) :
    (Term.ofObject s h.emptied x).isSome = true := by
  rw [Term.ofObject, emptied, List.length_map]
  cases hlength : h.objects.length with
  | zero => omega
  | succ room => exact (Term.isSome_unfold_succ room).mpr fun y hy => absurd hy not_holds_emptied

/-- a literal of the registry holds an object that leads into a circle -/
def Registry.Endless (s : Services σ) (h : Heap σ) (r : Registry) : Prop :=
  ∃ d ∈ r.definitions, ∃ v ∈ d.literals, ∃ x ∈ v.objects, Circular (h.Holds s) x

end

namespace Compile

open Compiling (Lags)

section
variable {E : Prop} {c : Context} {object : ObjectId → Option Term} {service : String}

theorem literal_lags {v : Value} (hv : (Leaf.literal v).Lags E c object) :
    Lags E (fun _ _ => True) (literal c v) (literal { c with object } v) := by
  rw [literal, literal]
  cases hw : c.parameters.expand v with
  | error e => exact .error _
  | ok w =>
    show Lags E _ (ofUnfolding (Term.ofValueWith c.object w)) (ofUnfolding (Term.ofValueWith object w))
    obtain ⟨u, hu⟩ := Option.isSome_iff_exists.mp (hv.other w hw)
    rw [hu]
    cases ht : Term.ofValueWith c.object w with
    | none =>
      refine .endless (hv.own fun hends => ?_) _
      have hterm := hends w hw
      rw [ht] at hterm
      cases hterm
    | some t => exact .ok trivial

mutual

theorem node_lags (n : Node) (hn : ∀ l ∈ n.leaves, l.Lags E c object) :
    Lags E (fun _ _ => True) (node c service n) (node { c with object } service n) := by
  cases n with
  | literal v => exact literal_lags (hn _ (List.mem_singleton_self _))
  | parameter key =>
    rw [node, node, parameter, parameter]
    cases c.parameters.get key with
    | ok _ => exact .ok trivial
    | error e => exact .error _
  | reference id optional =>
    rw [node, node, reference, reference]
    cases c.methods.get? id with
    | some method => exact .ok trivial
    | none =>
      cases optional with
      | true => exact .ok trivial
      | false => exact .error _
  | statement callable args calls =>
    rw [Node.leaves, List.forall_mem_append, List.forall_mem_append] at hn
    obtain ⟨hcallable, hargs, hcalls⟩ := hn
    rw [node, node]
    refine (nodes_lags args hargs).bind fun ts us hlength => ?_
    cases callable with
    | named name =>
      -- the constructor is given as many arguments either way
      have hcheck : checkConstructor c name ts.length service =
          checkConstructor { c with object } name us.length service := by
        rw [hlength]
        rfl
      show Lags E _ (ofExcept (checkConstructor c name ts.length service) >>= fun _ => _)
        (ofExcept (checkConstructor { c with object } name us.length service) >>= fun _ => _)
      rw [← hcheck]
      exact (Lags.ofExcept _).bind fun _ _ _ => chain_lags _ _ calls hcalls
    | method target method =>
      exact (node_lags target hcallable).bind fun _ _ _ => chain_lags _ _ calls hcalls
    | array | record keys => exact chain_lags _ _ calls hcalls

theorem nodes_lags (ns : List Node) (hns : ∀ l ∈ Node.leavesOf ns, l.Lags E c object) :
    Lags E (fun ts us => ts.length = us.length) (nodes c service ns)
      (nodes { c with object } service ns) := by
  cases ns with
  | nil => exact .ok rfl
  | cons n ns =>
    rw [Node.leavesOf, List.forall_mem_append] at hns
    rw [nodes, nodes]
    exact (node_lags n hns.1).bind fun _ _ _ => (nodes_lags ns hns.2).bind fun _ _ hlength =>
      .ok (congrArg (· + 1) hlength)

theorem chain_lags (receiver receiver' : Term) (calls : List MethodCall)
    (hcalls : ∀ l ∈ Node.leavesOfCalls calls, l.Lags E c object) :
    Lags E (fun _ _ => True) (chain c service receiver calls)
      (chain { c with object } service receiver' calls) := by
  cases calls with
  | nil => exact .ok trivial
  | cons call calls =>
    cases call with
    | mk method args =>
      rw [Node.leavesOfCalls, List.forall_mem_append] at hcalls
      rw [chain, chain]
      exact (nodes_lags args hcalls.1).bind fun _ _ _ => chain_lags _ _ calls hcalls.2

end

theorem setup_lags (calls : List MethodCall)
    (hcalls : ∀ l ∈ Node.leavesOfCalls calls, l.Lags E c object) :
    Lags E (fun _ _ => True) (setup c service calls) (setup { c with object } service calls) := by
  induction calls with
  | nil => exact .ok trivial
  | cons call calls ih =>
    cases call with
    | mk method args =>
      rw [Node.leavesOfCalls, List.forall_mem_append] at hcalls
      rw [setup, setup]
      exact (nodes_lags args hcalls.1).bind fun _ _ _ => (ih hcalls.2).bind fun _ _ _ => .ok trivial

theorem method_lags (d : Definition) (hd : ∀ l ∈ d.leaves, l.Lags E c object) :
    Lags E (fun _ _ => True) (method c d) (method { c with object } d) := by
  obtain ⟨hroot, hsetup⟩ := List.forall_mem_append.mp hd
  rw [method, method]
  exact (node_lags d.root hroot).bind fun _ _ _ => (setup_lags d.setup hsetup).bind fun _ _ _ => .ok trivial

end

/-! ## registries -/

variable {σ : Type} {r : Registry} {cs : Option (Constructors σ)} {s : Services σ} {h : Heap σ}
  {options : SourceOptions}

/-- a registry with live objects in its parameters fails before it comes to its definitions -/
theorem compile_lags {E : Prop} {h' : Heap σ}
    (hleaves : (∀ e ∈ r.parameters.tree, e.2.objects = []) →
      ∀ d ∈ r.definitions, ∀ l ∈ d.leaves, l.Lags E (context r cs s h) (Term.ofObject s h')) :
    Lags E (fun _ _ => True) (compile r cs s h options) (compile r cs s h' options) := by
  rw [compile, compile]
  refine Lags.bind (R := fun _ _ => True) ?_ fun _ _ _ => .ok trivial
  rw [moduleOf, moduleOf]
  split
  · show Lags E _ (ofExcept (table r.parameters) >>= fun _ => _) (ofExcept (table r.parameters) >>= fun _ => _)
    cases htable : table r.parameters with
    | error e => exact .error e
    | ok t =>
      have hdata := exists_table_iff.mp ⟨t, htable⟩
      refine (Lags.ofExcept _).bind fun _ _ _ => ?_
      refine Lags.bind (Lags.mapM fun d hd => method_lags d (hleaves hdata d hd)) fun _ _ _ => ?_
      exact (Lags.ofExcept _).bind fun _ _ _ => .ok trivial
  · exact .error _

theorem not_endless_of_succeeds (hresolved : r.parameters.resolved = true)
    (hsucceeds : (compile r cs s h options).Succeeds) : ¬ r.Endless s h := by
  rintro ⟨d, hd, v, hv, x, hx, hcircle⟩
  -- what compiles with constructors compiles without
  obtain ⟨text, htext⟩ := hsucceeds
  have hunchecked : (compile r none s h options).Succeeds :=
    ⟨text, (compile_kept r cs none s h options text htext).resolve_right fun h => Bool.false_ne_true h.1⟩
  obtain ⟨-, hdata, hleaves, -⟩ := succeeds_compile_iff.mp hunchecked
  obtain ⟨w, hw, hterm⟩ := hleaves d hd _ (d.mem_literals_iff.mp hv)
  have hmem : x ∈ w.objects := (Parameters.mem_objects_expand_of_data hresolved hdata hw).mpr hx
  exact (Term.grounded_of_unfold ((Term.isSome_ofValueWith w).mp hterm x hmem)).not_circular hcircle

section
variable (hresolved : r.parameters.resolved = true)
  (hthere : ∀ d ∈ r.definitions, ∀ v ∈ d.literals, ∀ x ∈ v.objects, x.index < h.objects.length)
include hresolved hthere

/-- the leaves of a registry end once its objects are emptied -/
theorem ends_emptied (hdata : ∀ e ∈ r.parameters.tree, e.2.objects = []) {d : Definition}
    (hd : d ∈ r.definitions) {l : Leaf} (hl : l ∈ d.leaves) : l.Ends (context r cs s h.emptied) := by
  cases l with
  | parameter key | reference id optional => exact trivial
  | literal v =>
    refine Leaf.ends_literal hresolved hdata fun x hx => Heap.isSome_ofObject_emptied ?_
    exact hthere d hd v (d.mem_literals_iff.mpr hl) x hx

theorem exists_compile_emptied : ∃ answer, compile r cs s h.emptied options = some answer := by
  have hlags : Lags False (fun _ _ => True) (compile r cs s h.emptied options)
      (compile r cs s h.emptied options) := by
    refine compile_lags fun hdata d hd l hl => ?_
    have hends : l.Ends (context r cs s h.emptied) := ends_emptied hresolved hthere hdata hd hl
    exact ⟨hends, fun h => h hends⟩
  exact hlags.exists_eq_some

/-- a leaf without an end is a literal with an object that leads into a circle -/
theorem endless_of_not_ends (hsound : h.Sound s) (hdata : ∀ e ∈ r.parameters.tree, e.2.objects = [])
    {d : Definition} (hd : d ∈ r.definitions) {l : Leaf} (hl : l ∈ d.leaves)
    (hends : ¬ l.Ends (context r cs s h)) : r.Endless s h := by
  cases l with
  | parameter key | reference id optional => exact absurd trivial hends
  | literal v =>
    have hv : v ∈ d.literals := d.mem_literals_iff.mpr hl
    by_contra hgrounded
    refine hends (Leaf.ends_literal hresolved hdata fun x hx => ?_)
    refine (Term.isSome_ofObject_iff hsound (hthere d hd v hv x hx)).mpr fun hcircle => ?_
    exact hgrounded ⟨d, hd, v, hv, x, hx, hcircle⟩

theorem compile_lags_emptied (hsound : h.Sound s) :
    Lags (r.Endless s h) (fun _ _ => True) (compile r cs s h options) (compile r cs s h.emptied options) :=
  compile_lags fun hdata _ hd _ hl =>
    ⟨ends_emptied hresolved hthere hdata hd hl, endless_of_not_ends hresolved hthere hsound hdata hd hl⟩

/-- **Where compiling has no end.** A registry with expanded parameters is compiled as if its live objects held
nothing, as far as that is an answer without text: it gives the same error, unless there is no end before that.
If it would give a text, then it gives one when no object in its literals leads into a circle of objects that
hold each other, and has no end when some object does. -/
theorem compile_endless (hsound : h.Sound s) :
    (∃ answer, compile r cs s h.emptied options = some answer) ∧
    (∀ e, compile r cs s h.emptied options = some (.error e) →
      compile r cs s h options = some (.error e) ∨ compile r cs s h options = none ∧ r.Endless s h) ∧
    ((compile r cs s h.emptied options).Succeeds →
      ((compile r cs s h options).Succeeds ↔ ¬ r.Endless s h) ∧
      (compile r cs s h options = none ↔ r.Endless s h)) := by
  have hlags : Lags (r.Endless s h) (fun _ _ => True) (compile r cs s h options)
      (compile r cs s h.emptied options) := compile_lags_emptied hresolved hthere hsound
  have hnever : (compile r cs s h options).Succeeds → ¬ r.Endless s h := not_endless_of_succeeds hresolved
  refine ⟨exists_compile_emptied hresolved hthere, ?_⟩
  generalize compile r cs s h.emptied options = answer at hlags ⊢
  generalize compile r cs s h options = own at hlags hnever ⊢
  cases hlags with
  | endless hendless =>
    refine ⟨fun e _ => .inr ⟨rfl, hendless⟩, fun _ => ⟨?_, iff_of_true rfl hendless⟩⟩
    exact ⟨hnever, fun h => absurd hendless h⟩
  | ok =>
    have hends := hnever ⟨_, rfl⟩
    exact ⟨nofun, fun _ => ⟨iff_of_true ⟨_, rfl⟩ hends, iff_of_false nofun hends⟩⟩
  | error e =>
    refine ⟨fun e' he => .inl he, ?_⟩
    rintro ⟨text, htext⟩
    cases htext

/-- with objects that were made of earlier ones, and not changed since, compiling ends -/
theorem exists_compile_of_earlier (hearlier : ∀ x y, h.Holds s x y → y.index < x.index) :
    ∃ answer, compile r cs s h options = some answer := by
  have hsound : h.Sound s := Heap.sound_of_earlier hearlier
  cases hanswer : compile r cs s h options with
  | some answer => exact ⟨answer, rfl⟩
  | none =>
    have hlags : Lags (r.Endless s h) (fun _ _ => True) (compile r cs s h options)
        (compile r cs s h.emptied options) := compile_lags_emptied hresolved hthere hsound
    rw [hanswer] at hlags
    obtain ⟨hendless, -⟩ := hlags
    obtain ⟨d, -, v, -, x, -, hcircle⟩ := hendless
    exact absurd hcircle (Heap.not_circular_of_earlier hearlier)

end

/-- two collections, each of them the handler of the other one's only route -/
def mirrors : Heap Empty :=
  ⟨[.router [⟨[], "/", .service ⟨1⟩, [], none⟩], .router [⟨[], "/", .service ⟨0⟩, [], none⟩]]⟩

def mirrored : Registry :=
  { Registry.ofParameters ⟨[], true⟩ with
    definitions := [.ofNode "router" (.literal (.service ⟨0⟩))], frozen := true }

theorem mirrored_endless :
    let s : Services Empty := ⟨nofun, nofun, fun _ _ s => nomatch s⟩
    mirrored.freeze = .ok mirrored ∧ mirrors.Sound s ∧ mirrored.Endless s mirrors ∧
      (compile mirrored none s mirrors.emptied .standard).Succeeds ∧
      compile mirrored none s mirrors .standard = none := by
  intro s
  have hthere : ∀ d ∈ mirrored.definitions, ∀ v ∈ d.literals, ∀ x ∈ v.objects,
      x.index < mirrors.objects.length := by decide
  have hsound : mirrors.Sound s := by decide
  have hemptied : (compile mirrored none s mirrors.emptied .standard).Succeeds := by decide +kernel
  have hthither : mirrors.Holds s ⟨0⟩ ⟨1⟩ := List.mem_singleton_self _
  have hback : mirrors.Holds s ⟨1⟩ ⟨0⟩ := List.mem_singleton_self _
  have hendless : mirrored.Endless s mirrors :=
    ⟨_, List.mem_singleton_self _, .service ⟨0⟩, List.mem_singleton_self _, ⟨0⟩, List.mem_singleton_self _,
      ⟨0⟩, .refl, .head hthither (.single hback)⟩
  have hanswer : compile mirrored none s mirrors .standard = none ↔ mirrored.Endless s mirrors :=
    ((compile_endless rfl hthere hsound).2.2 hemptied).2
  exact ⟨rfl, hsound, hendless, hemptied, hanswer.mpr hendless⟩

end Compile
end ServiceGraph
