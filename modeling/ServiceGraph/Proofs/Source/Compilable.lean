import ServiceGraph.Proofs.Node.Leaves
import ServiceGraph.Proofs.Parameters.Objects
import ServiceGraph.Proofs.Source.Emitted
import ServiceGraph.Proofs.Source.Grouped
import ServiceGraph.Proofs.Source.Static

/-!
# What it takes to compile

Whether a step of the compiler succeeds does not depend on what the steps before it came up with. So a
registry compiles without constructors when each of its parts does.

* `Compiling.succeeds_bind`: two steps, of which the second succeeds or fails in any case;
* `Term.isSome_ofValueWith`: the values that have terms;
* `Leaf.Compiles`, `Compile.succeeds_node`: a node has a term when its leaves have;
* `Compile.succeeds_tagArms_iff`: the arms that answer for tags;
* `Compile.succeeds_compile_iff`: the registries that compile;
* `Compile.succeeds_compile_of_resolved_iff`: the same in terms of parameters, references and live objects.
-/

set_option linter.unusedSectionVars false

namespace ServiceGraph

/-- compiling comes to an end, and not with an error -/
def Compiling.Succeeds {α : Type} (x : Compiling α) : Prop := ∃ a, x = some (.ok a)

namespace Compiling

variable {α β : Type}

instance (x : Compiling α) : Decidable x.Succeeds :=
  match x with
  | some (.ok a) => isTrue ⟨a, rfl⟩
  | some (.error _) | none => isFalse fun ⟨_, h⟩ => nomatch h

theorem succeeds_pure (a : α) : Succeeds (pure a : Compiling α) := ⟨a, rfl⟩

theorem succeeds_bind {x : Compiling α} {f : α → Compiling β} {P : Prop} (hf : ∀ a, (f a).Succeeds ↔ P) :
    (x >>= f).Succeeds ↔ x.Succeeds ∧ P := by
  constructor
  · rintro ⟨b, hb⟩
    obtain ⟨a, ha, hb⟩ := bind_eq_ok hb
    exact ⟨⟨a, ha⟩, (hf a).mp ⟨b, hb⟩⟩
  · rintro ⟨⟨a, rfl⟩, hP⟩
    exact (hf a).mpr hP

/-- a last step that cannot fail -/
theorem succeeds_map {x : Compiling α} {f : α → β} :
    Succeeds (x >>= fun a => pure (f a)) ↔ x.Succeeds := by
  rw [succeeds_bind fun a => iff_true_intro (succeeds_pure (f a)), and_true]

theorem succeeds_ofExcept {x : Except CompileError α} : (Compile.ofExcept x).Succeeds ↔ ∃ a, x = .ok a :=
  exists_congr fun _ => ⟨Option.some.inj, congrArg some⟩

theorem succeeds_ofUnfolding {x : Option α} : (Compile.ofUnfolding x).Succeeds ↔ x.isSome = true := by
  cases x with
  | none =>
    refine iff_of_false ?_ Bool.false_ne_true
    rintro ⟨a, ha⟩
    cases ha
  | some a => exact iff_of_true ⟨a, rfl⟩ rfl

theorem succeeds_mapM {f : α → Compiling β} {as : List α} :
    Succeeds (as.mapM f) ↔ ∀ a ∈ as, (f a).Succeeds := by
  induction as with
  | nil => exact iff_of_true ⟨[], rfl⟩ (List.forall_mem_nil _)
  | cons a as ih =>
    rw [List.mapM_cons, List.forall_mem_cons, ← ih]
    exact succeeds_bind fun b => succeeds_map

end Compiling

/-! ## terms of values -/

namespace Term

section
variable {object : ObjectId → Option Term}

mutual

/-- a value has a term when its live objects have -/
theorem isSome_ofValueWith (v : Value) :
    (ofValueWith object v).isSome = true ↔ ∀ id ∈ v.objects, (object id).isSome = true := by
  cases v with
  | null | bool _ | int _ | float _ | str _ => exact iff_of_true rfl (List.forall_mem_nil _)
  | list items =>
    rw [ofValueWith, Value.objects, ← isSome_ofItems items]
    cases ofItems object items <;> rfl
  | map entries =>
    rw [ofValueWith, Value.objects, ← isSome_ofEntries entries]
    cases ofEntries object entries <;> rfl
  | service id =>
    rw [ofValueWith, Value.objects, List.forall_mem_singleton]

theorem isSome_ofItems (vs : List Value) :
    (ofItems object vs).isSome = true ↔ ∀ id ∈ Value.objectsOfItems vs, (object id).isSome = true := by
  cases vs with
  | nil => exact iff_of_true rfl (List.forall_mem_nil _)
  | cons v vs =>
    rw [ofItems, Value.objectsOfItems, List.forall_mem_append, ← isSome_ofValueWith v, ← isSome_ofItems vs]
    cases ofValueWith object v <;> cases ofItems object vs <;> simp

theorem isSome_ofEntries (es : List (String × Value)) :
    (ofEntries object es).isSome = true ↔ ∀ id ∈ Value.objectsOfEntries es, (object id).isSome = true := by
  cases es with
  | nil => exact iff_of_true rfl (List.forall_mem_nil _)
  | cons e es =>
    obtain ⟨k, v⟩ := e
    rw [ofEntries, Value.objectsOfEntries, List.forall_mem_append, ← isSome_ofValueWith v,
      ← isSome_ofEntries es]
    cases ofValueWith object v <;> cases ofEntries object es <;> simp

end

end

end Term

/-! ## terms of nodes -/

/-- the leaf has a term -/
def Leaf.Compiles (c : Compile.Context) : Leaf → Prop
  | literal v => ∃ w, c.parameters.expand v = .ok w ∧ (Term.ofValueWith c.object w).isSome = true
  | parameter key => ∃ w, c.parameters.get key = .ok w
  | reference id optional => optional = true ∨ (c.methods.get? id).isSome = true

namespace Compile

open Compiling

section
variable {c : Context} {service : String}

theorem succeeds_literal (v : Value) : (literal c v).Succeeds ↔ Leaf.Compiles c (.literal v) := by
  constructor
  · rintro ⟨t, h⟩
    obtain ⟨w, hw, ht⟩ := literal_eq_ok h
    exact ⟨w, hw, by rw [ht]; rfl⟩
  · rintro ⟨w, hw, ht⟩
    rw [literal, hw]
    exact succeeds_ofUnfolding.mpr ht

theorem succeeds_parameter (key : String) :
    (ofExcept (parameter c key)).Succeeds ↔ Leaf.Compiles c (.parameter key) := by
  constructor
  · rintro ⟨t, h⟩
    obtain ⟨w, hw, -⟩ := parameter_eq_ok h
    exact ⟨w, hw⟩
  · rintro ⟨w, hw⟩
    exact ⟨.parameter key, by rw [parameter, hw]; rfl⟩

theorem succeeds_reference (id : String) (optional : Bool) :
    (ofExcept (reference c service id optional)).Succeeds ↔ Leaf.Compiles c (.reference id optional) := by
  rw [succeeds_ofExcept, Leaf.Compiles, reference]
  cases c.methods.get? id with
  | some m => exact iff_of_true ⟨_, rfl⟩ (.inr rfl)
  | none =>
    cases optional with
    | true => exact iff_of_true ⟨_, rfl⟩ (.inl rfl)
    | false =>
      refine iff_of_false ?_ (by simp)
      rintro ⟨t, h⟩
      cases h

variable (harity : c.arity = none)
include harity

theorem checkConstructor_eq_ok_of_none (name : String) (count : Nat) :
    checkConstructor c name count service = .ok () := by
  rw [checkConstructor, harity]

mutual

/-- without constructors a node has a term when its leaves have -/
theorem succeeds_node (n : Node) : (node c service n).Succeeds ↔ ∀ l ∈ n.leaves, l.Compiles c := by
  cases n with
  | literal v =>
    rw [node, Node.leaves, List.forall_mem_singleton]
    exact succeeds_literal v
  | parameter key =>
    rw [node, Node.leaves, List.forall_mem_singleton]
    exact succeeds_parameter key
  | reference id optional =>
    rw [node, Node.leaves, List.forall_mem_singleton]
    exact succeeds_reference id optional
  | statement callable args calls =>
    rw [node, Node.leaves, List.forall_mem_append, List.forall_mem_append, and_left_comm,
      ← succeeds_nodes args]
    refine succeeds_bind fun ts => ?_
    cases callable with
    | named name =>
      show (ofExcept (checkConstructor c name ts.length service) >>= fun _ =>
        chain c service (.construct name ts) calls).Succeeds ↔ _
      rw [checkConstructor_eq_ok_of_none harity]
      exact (succeeds_chain _ calls).trans (and_iff_right (List.forall_mem_nil _)).symm
    | method target method =>
      rw [Node.leavesOfCallable, ← succeeds_node target]
      exact succeeds_bind fun receiver => succeeds_chain _ calls
    | array | record keys => exact (succeeds_chain _ calls).trans (and_iff_right (List.forall_mem_nil _)).symm

theorem succeeds_nodes (ns : List Node) :
    (nodes c service ns).Succeeds ↔ ∀ l ∈ Node.leavesOf ns, l.Compiles c := by
  cases ns with
  | nil => exact iff_of_true (succeeds_pure _) (List.forall_mem_nil _)
  | cons n ns =>
    rw [nodes, Node.leavesOf, List.forall_mem_append, ← succeeds_node n, ← succeeds_nodes ns]
    exact succeeds_bind fun t => succeeds_map

/-- whatever the calls are made on -/
theorem succeeds_chain (receiver : Term) (calls : List MethodCall) :
    (chain c service receiver calls).Succeeds ↔ ∀ l ∈ Node.leavesOfCalls calls, l.Compiles c := by
  cases calls with
  | nil => exact iff_of_true (succeeds_pure _) (List.forall_mem_nil _)
  | cons call calls =>
    cases call with
    | mk method args =>
      rw [chain, Node.leavesOfCalls, List.forall_mem_append, ← succeeds_nodes args]
      exact succeeds_bind fun ts => succeeds_chain _ calls

end

theorem succeeds_setup (calls : List MethodCall) :
    (setup c service calls).Succeeds ↔ ∀ l ∈ Node.leavesOfCalls calls, l.Compiles c := by
  induction calls with
  | nil => exact iff_of_true (succeeds_pure _) (List.forall_mem_nil _)
  | cons call calls ih =>
    cases call with
    | mk method args =>
      rw [setup, Node.leavesOfCalls, List.forall_mem_append, ← succeeds_nodes harity args, ← ih]
      exact succeeds_bind fun ts => succeeds_map

theorem succeeds_method (d : Definition) : (method c d).Succeeds ↔ ∀ l ∈ d.leaves, l.Compiles c := by
  rw [method, Definition.leaves, List.forall_mem_append, ← succeeds_node harity d.root,
    ← succeeds_setup harity d.setup]
  exact succeeds_bind fun t => succeeds_map

end

/-! ## tables -/

/-- a pair with a value that is written as data -/
theorem exists_entry_iff (key : String) (e : String × Value) :
    (∃ e', (static key e.2 >>= fun t => pure (e.1, t) : Except CompileError (String × Term)) = .ok e') ↔
      e.2.objects = [] := by
  rw [← exists_static_iff key]
  constructor
  · rintro ⟨e', h⟩
    obtain ⟨t, ht, -⟩ := Except.bind_eq_ok h
    exact ⟨t, ht⟩
  · rintro ⟨t, ht⟩
    exact ⟨(e.1, t), by rw [ht]; rfl⟩

theorem exists_table_iff {p : Parameters} : (∃ es, table p = .ok es) ↔ ∀ e ∈ p.tree, e.2.objects = [] :=
  Except.exists_mapM_iff.trans (forall₂_congr fun e _ => exists_entry_iff e.1 e)

/-- what is grouped is what there was -/
theorem forall_grouped_iff {α : Type} {pairs : List (String × α)} {P : String → α → Prop} :
    (∀ g ∈ grouped pairs, ∀ a ∈ g.2, P g.1 a) ↔ ∀ p ∈ pairs, P p.1 p.2 := by
  have hentries : ∀ key a, a ∈ entriesOf pairs key ↔ (key, a) ∈ pairs := fun key a => by
    simp [entriesOf]
  constructor
  · intro h p hp
    have hmem := (hentries p.1 p.2).mpr hp
    have hget := get?_grouped pairs p.1
    rw [nonempty?, if_neg (by simpa using List.ne_nil_of_mem hmem)] at hget
    exact h _ (OrderedMap.mem_of_get? hget) p.2 hmem
  · intro h g hg a ha
    have hget : (grouped pairs).get? g.1 = some g.2 := (grouped_distinct pairs).get?_of_mem hg
    rw [get?_grouped] at hget
    have hentry := nonempty?_getD (entriesOf pairs g.1)
    rw [hget, Option.getD_some] at hentry
    exact h (g.1, a) ((hentries g.1 a).mp (hentry ▸ ha))

theorem exists_tagArms_iff {ds : List Definition} :
    (∃ as, tagArms ds = .ok as) ↔ ∀ d ∈ ds, ∀ t ∈ d.tags, t.2.objects = [] := by
  have harm : ∀ g : String × List (String × Value),
      (∃ a, (g.2.mapM (fun e => static g.1 e.2 >>= fun t => pure (e.1, t)) >>= fun es => pure (g.1, es) :
        Except CompileError (String × List (String × Term))) = .ok a) ↔ ∀ e ∈ g.2, e.2.objects = [] := by
    intro g
    rw [← forall₂_congr fun e _ => exists_entry_iff g.1 e, ← Except.exists_mapM_iff]
    constructor
    · rintro ⟨a, h⟩
      obtain ⟨es, hes, -⟩ := Except.bind_eq_ok h
      exact ⟨es, hes⟩
    · rintro ⟨es, hes⟩
      exact ⟨(g.1, es), by rw [hes]; rfl⟩
  refine (Except.exists_mapM_iff.trans (forall₂_congr fun g _ => harm g)).trans ?_
  have hdata : (∀ g ∈ tagGroups ds, ∀ e ∈ g.2, e.2.objects = []) ↔ _ :=
    forall_grouped_iff (P := fun _ (e : String × Value) => e.2.objects = [])
  rw [hdata]
  simp only [List.forall_mem_flatMap, List.forall_mem_map]

/-! ## definitions -/

/-- parameters without live objects: the leaves of a definition have terms when its parameters can be put
into it, the ids that it needs have methods, and the live objects that it refers to have terms -/
theorem compiles_leaves_iff {c : Context} (hresolved : c.parameters.resolved = true)
    (hdata : ∀ e ∈ c.parameters.tree, e.2.objects = []) (d : Definition) :
    (∀ l ∈ d.leaves, l.Compiles c) ↔
      (∃ d', d.substitute c.parameters = .ok d') ∧
      (∀ id ∈ d.required, (c.methods.get? id).isSome = true) ∧
      ∀ v ∈ d.literals, ∀ id ∈ v.objects, (c.object id).isSome = true := by
  have hobjects : ∀ {v w}, c.parameters.expand v = .ok w → ∀ id, id ∈ w.objects ↔ id ∈ v.objects :=
    fun hw id => Parameters.mem_objects_expand_of_data hresolved hdata hw
  rw [d.exists_substitute_iff]
  constructor
  · intro h
    refine ⟨fun l hl => ?_, fun id hid => ?_, fun v hv id hid => ?_⟩
    · have hcompiles := h l hl
      cases l with
      | literal v =>
        obtain ⟨w, hw, -⟩ := hcompiles
        exact ⟨w, hw⟩
      | parameter key => exact hcompiles
      | reference id optional => trivial
    · exact (h _ (d.mem_required_iff.mp hid)).resolve_left Bool.false_ne_true
    · obtain ⟨w, hw, hterm⟩ := h _ (d.mem_literals_iff.mp hv)
      exact (Term.isSome_ofValueWith w).mp hterm id ((hobjects hw id).mpr hid)
  · rintro ⟨hsubstitutes, hrequired, hliterals⟩ l hl
    cases l with
    | literal v =>
      obtain ⟨w, hw⟩ := hsubstitutes _ hl
      refine ⟨w, hw, (Term.isSome_ofValueWith w).mpr fun id hid => ?_⟩
      exact hliterals v (d.mem_literals_iff.mpr hl) id ((hobjects hw id).mp hid)
    | parameter key => exact hsubstitutes _ hl
    | reference id optional =>
      cases optional with
      | true => exact .inl rfl
      | false => exact .inr (hrequired id (d.mem_required_iff.mpr hl))

/-! ## the module -/

variable {σ : Type} {r : Registry} {services : Services σ} {h : Heap σ} {options : SourceOptions}

/-- **The registries that compile** without constructors are the frozen ones whose parameters and whose
public tags hold no live objects, and whose definitions consist of leaves that have terms. -/
theorem succeeds_compile_iff :
    (compile r none services h options).Succeeds ↔
      r.frozen = true ∧ (∀ e ∈ r.parameters.tree, e.2.objects = []) ∧
      (∀ d ∈ r.definitions, ∀ l ∈ d.leaves, l.Compiles (context r none services h)) ∧
      ∀ d ∈ r.definitions.filter (·.isPublic), ∀ t ∈ d.tags, t.2.objects = [] := by
  rw [compile, succeeds_map, moduleOf]
  by_cases hr : r.frozen = true
  · rw [if_pos hr, and_iff_right hr, ← exists_table_iff, ← succeeds_ofExcept, ← exists_tagArms_iff,
      ← succeeds_ofExcept, ← forall₂_congr fun d _ => succeeds_method rfl d, ← succeeds_mapM]
    exact succeeds_bind fun t => succeeds_bind fun ms => succeeds_map
  · rw [if_neg hr]
    refine iff_of_false ?_ fun h => hr h.1
    rintro ⟨m, hm⟩
    cases hm

/-- what a registry with resolved parameters and without live objects in its tags needs to compile -/
theorem succeeds_compile_of_resolved_iff (hfrozen : r.frozen = true)
    (hresolved : r.parameters.resolved = true)
    (htags : ∀ d ∈ r.definitions, ∀ t ∈ d.tags, t.2.objects = []) :
    (compile r none services h options).Succeeds ↔
      (∀ e ∈ r.parameters.tree, e.2.objects = []) ∧
      ∀ d ∈ r.definitions, (∃ d', d.substitute r.parameters = .ok d') ∧ (∀ id ∈ d.required, id ∈ r.ids) ∧
        ∀ v ∈ d.literals, ∀ id ∈ v.objects, (Term.ofObject services h id).isSome = true := by
  have hpublic : ∀ d ∈ r.definitions.filter (·.isPublic), ∀ t ∈ d.tags, t.2.objects = [] :=
    fun d hd => htags d (List.mem_of_mem_filter hd)
  rw [succeeds_compile_iff, and_iff_right hfrozen, and_iff_left hpublic]
  refine and_congr_right fun hdata => forall₂_congr fun d _ => ?_
  rw [compiles_leaves_iff (c := context r none services h) hresolved hdata d]
  refine and_congr_right fun _ => and_congr_left fun _ => forall₂_congr fun id _ => ?_
  exact methodNames_isSome r.ids id

end Compile
end ServiceGraph
