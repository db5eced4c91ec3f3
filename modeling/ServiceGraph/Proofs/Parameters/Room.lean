import ServiceGraph.Proofs.Parameters.Unbounded
import Mathlib.Data.List.Nodup
import Mathlib.Data.List.Perm.Subperm

/-!
# Room for every chain that ends

A chain of keys runs from leaf to leaf: a key is asked for by a string in a leaf, and its value
holds the leaf that asks for the next key. A chain that comes to a leaf for the second time goes on
forever, because the leaf asks for the same keys again. So a chain that ends passes every leaf at
most once, and with room for as many keys as there are leaves, and one more, the bound on chains
changes nothing but that chains without an end are refused.

* `Value.leafValues`: the leaves of a tree;
* `Parameters.Passed`: the leaves on the way to a key, which are all different;
* `Parameters.grounded_of_not_circular`: a walk that goes on forever goes in a circle;
* `Parameters.Exact p i x`: the outcome `x` is what the inquiry comes to without a bound, and a
  cycle exactly when it goes in a circle;
* `Parameters.expansion_exact`: expansion with the bound is exact.
-/

namespace ServiceGraph

open Relation

namespace Value

mutual

/-- the leaves of a value: everything that is not a map -/
def leafValues : Value → List Value
  | map entries => leafValuesOf entries
  | v => [v]

def leafValuesOf : List (String × Value) → List Value
  | [] => []
  | (_, v) :: rest => leafValues v ++ leafValuesOf rest

end

mutual

theorem length_leafValues_le (v : Value) : v.leafValues.length ≤ v.leaves := by
  cases v with
  | map entries =>
    have h : (leafValuesOf entries).length ≤ leavesOf entries := length_leafValuesOf_le entries
    rw [leafValues, leaves]
    omega
  | null | bool _ | int _ | float _ | str _ | list _ | service _ => exact Nat.le_refl 1

theorem length_leafValuesOf_le (entries : List (String × Value)) :
    (leafValuesOf entries).length ≤ leavesOf entries := by
  cases entries with
  | nil => exact Nat.le_refl 0
  | cons e rest =>
    cases e with
    | mk k v =>
      have hv : v.leafValues.length ≤ v.leaves := length_leafValues_le v
      have hrest : (leafValuesOf rest).length ≤ leavesOf rest := length_leafValuesOf_le rest
      rw [leafValuesOf, leavesOf, List.length_append]
      omega

end

theorem leafValues_subset_of_get? {entries : OrderedMap Value} {key : String} {v : Value}
    (h : entries.get? key = some v) : v.leafValues ⊆ leafValuesOf entries := by
  induction entries with
  | nil => cases h
  | cons e rest ih =>
    obtain ⟨k, w⟩ := e
    rw [OrderedMap.get?] at h
    rw [leafValuesOf]
    split at h
    · cases h
      exact List.subset_append_left _ _
    · exact List.Subset.trans (ih h) (List.subset_append_right _ _)

theorem leafValues_subset_of_walk? {path : List String} {v w : Value}
    (h : v.walk? path = some w) : w.leafValues ⊆ v.leafValues := by
  induction path generalizing v with
  | nil =>
    cases h
    exact List.Subset.refl _
  | cons key rest ih =>
    obtain ⟨u, hu, hw⟩ := Option.bind_eq_some_iff.mp h
    obtain ⟨entries, hentries, hu⟩ := Option.bind_eq_some_iff.mp hu
    cases v with
    | map es =>
      cases hentries
      exact List.Subset.trans (ih hw) (leafValues_subset_of_get? hu)
    | null | bool _ | int _ | float _ | str _ | list _ | service _ => cases hentries

end Value

namespace Parameters

variable {p : Parameters} {α β : Type}

theorem leafValues_subset_of_raw? {key : String} {v : Value} (h : p.raw? key = some v) :
    v.leafValues ⊆ Value.leafValuesOf p.tree := by
  unfold raw? at h
  split at h
  · next w hw =>
    cases h
    exact Value.leafValues_subset_of_get? hw
  · exact Value.leafValues_subset_of_walk? h

/-! ## from leaf to leaf -/

mutual

/-- a key that a value asks for is asked for by one of its leaves, and what else this leaf asks for
the value asks for as well -/
theorem asks_leaf {v : Value} {key : String} (h : p.Asks v.inquiry key) :
    ∃ leaf ∈ v.leafValues, p.Asks leaf.inquiry key ∧
      ∀ other, p.Asks leaf.inquiry other → p.Asks v.inquiry other := by
  cases v with
  | map entries =>
    rcases asks_bind_iff.mp h with h | ⟨_, _, h⟩
    · obtain ⟨leaf, hmem, hkey, hothers⟩ := asks_leafOf h
      exact ⟨leaf, hmem, hkey, fun other hother => asks_bind_iff.mpr (.inl (hothers other hother))⟩
    · cases h
  | null | bool _ | int _ | float _ | str _ | list _ | service _ =>
    exact ⟨_, List.mem_singleton_self _, h, fun _ hother => hother⟩

theorem asks_leafOf {entries : List (String × Value)} {key : String}
    (h : p.Asks (Value.inquiryOfEntries entries) key) :
    ∃ leaf ∈ Value.leafValuesOf entries, p.Asks leaf.inquiry key ∧
      ∀ other, p.Asks leaf.inquiry other → p.Asks (Value.inquiryOfEntries entries) other := by
  cases entries with
  | nil => cases h
  | cons e rest =>
    cases e with
    | mk k v =>
      rw [Value.inquiryOfEntries] at h ⊢
      rw [Value.leafValuesOf]
      rcases asks_bind_iff.mp h with h | ⟨w, hw, h⟩
      · obtain ⟨leaf, hmem, hkey, hothers⟩ := asks_leaf h
        exact ⟨leaf, List.mem_append_left _ hmem, hkey,
          fun other hother => asks_bind_iff.mpr (.inl (hothers other hother))⟩
      · rcases asks_bind_iff.mp h with h | ⟨_, _, h⟩
        · obtain ⟨leaf, hmem, hkey, hothers⟩ := asks_leafOf h
          refine ⟨leaf, List.mem_append_right _ hmem, hkey, fun other hother => ?_⟩
          exact asks_bind_iff.mpr (.inr ⟨w, hw, asks_bind_iff.mpr (.inl (hothers other hother))⟩)
        · cases h

end

/-- different leaves on the way to a key: each asks for a key from which there is a walk to it -/
structure Passed (p : Parameters) (passed : List Value) (key : String) : Prop where
  nodup : passed.Nodup
  subset : passed ⊆ Value.leafValuesOf p.tree
  leads : ∀ leaf ∈ passed, ∃ first, p.Asks leaf.inquiry first ∧ ReflTransGen p.Refers first key

theorem Passed.nil (key : String) : p.Passed [] key :=
  ⟨List.nodup_nil, List.nil_subset _, fun _ h => nomatch h⟩

theorem Passed.length_le {passed : List Value} {key : String} (h : p.Passed passed key) :
    passed.length ≤ p.leaves := by
  have hle : passed.length ≤ (Value.leafValuesOf p.tree).length :=
    (List.subperm_of_subset h.nodup h.subset).length_le
  exact Nat.le_trans hle (Value.length_leafValuesOf_le p.tree)

/-- a step from a key that does not lead back to itself passes a new leaf -/
theorem Passed.step {passed : List Value} {key next : String} (h : p.Passed passed key)
    (hkey : ¬ TransGen p.Refers key key) (hnext : p.Refers key next) :
    ∃ leaf, p.Passed (leaf :: passed) next := by
  obtain ⟨v, hv, hasks⟩ := hnext
  obtain ⟨leaf, hmem, hleaf, hothers⟩ := asks_leaf hasks
  have hstep : p.Refers key next := ⟨v, hv, hasks⟩
  refine ⟨leaf, List.nodup_cons.mpr ⟨fun hpassed => hkey ?_, h.nodup⟩, ?_, ?_⟩
  · -- a leaf that was passed before has asked for a key that leads here, and asks for it again
    obtain ⟨first, hfirst, hwalk⟩ := h.leads leaf hpassed
    exact TransGen.head' ⟨v, hv, hothers first hfirst⟩ hwalk
  · exact List.cons_subset.mpr ⟨leafValues_subset_of_raw? hv hmem, h.subset⟩
  · intro other hother
    rcases List.mem_cons.mp hother with rfl | hother
    · exact ⟨next, hleaf, .refl⟩
    · obtain ⟨first, hfirst, hwalk⟩ := h.leads other hother
      exact ⟨first, hfirst, hwalk.tail hstep⟩

theorem exists_passed {key : String} (hkey : ¬ Grounded p.Refers key)
    (hcircle : ¬ Circular p.Refers key) (count : Nat) :
    ∃ passed next, passed.length = count ∧ p.Passed passed next ∧
      ReflTransGen p.Refers key next ∧ ¬ Grounded p.Refers next := by
  induction count with
  | zero => exact ⟨[], key, rfl, .nil key, .refl, hkey⟩
  | succ count ih =>
    obtain ⟨passed, last, hlength, hpassed, hwalk, hlast⟩ := ih
    -- an endless walk goes on from some key that is asked for
    obtain ⟨next, hstep, hnext⟩ : ∃ next, p.Refers last next ∧ ¬ Grounded p.Refers next := by
      by_contra hall
      refine hlast (.intro fun next hstep => ?_)
      by_contra hnext
      exact hall ⟨next, hstep, hnext⟩
    obtain ⟨leaf, hleaf⟩ := hpassed.step (fun hself => hcircle ⟨last, hwalk, hself⟩) hstep
    exact ⟨leaf :: passed, next, congrArg (· + 1) hlength, hleaf, hwalk.tail hstep, hnext⟩

/-- a walk that goes on forever goes in a circle -/
theorem grounded_of_not_circular {key : String} (h : ¬ Circular p.Refers key) :
    Grounded p.Refers key := by
  by_contra hkey
  obtain ⟨passed, _, hlength, hpassed, -⟩ := exists_passed hkey h (p.leaves + 1)
  have hle : passed.length ≤ p.leaves := hpassed.length_le
  omega

theorem exists_ends_iff {i : Inquiry α} :
    (∃ r, p.Ends i r) ↔ ∀ key, p.Asks i key → ¬ Circular p.Refers key := by
  constructor
  · rintro ⟨r, hr⟩ key hkey
    exact (hr.grounded hkey).not_circular
  · intro h
    exact exists_ends fun key hkey => exists_ends_ofKey (grounded_of_not_circular (h key hkey))

/-! ## the bound -/

/-- `x` is what the inquiry comes to, and a cycle when it comes to nothing -/
structure Bounded (p : Parameters) (i : Inquiry α) (x : Expansion α) : Prop where
  ends : ∀ r, p.Ends i r → x = r
  endless : (∀ r, ¬ p.Ends i r) → ∃ chain, x = .error (.cycle chain)

/-- a value that is the outcome is what the inquiry comes to -/
theorem Bounded.eq_ok_iff {i : Inquiry α} {x : Expansion α} {a : α} (h : p.Bounded i x) :
    x = .ok a ↔ p.Ends i (.ok a) := by
  refine ⟨?_, h.ends _⟩
  rintro rfl
  by_cases hends : ∃ o, p.Ends i o
  · obtain ⟨o, ho⟩ := hends
    exact h.ends o ho ▸ ho
  · obtain ⟨chain, hchain⟩ := h.endless fun o ho => hends ⟨o, ho⟩
    cases hchain

/-- `x` is what the inquiry comes to, which is never a cycle. When it comes to nothing, and that is
when it asks for a key that leads into a circle, `x` is a cycle. -/
structure Exact (p : Parameters) (i : Inquiry α) (x : Expansion α) : Prop where
  ends : ∀ r, p.Ends i r → x = r ∧ ∀ chain, r ≠ .error (.cycle chain)
  endless : (∀ r, ¬ p.Ends i r) → ∃ chain, x = .error (.cycle chain)
  circular : (∃ chain, x = .error (.cycle chain)) ↔
    ∃ key, p.Asks i key ∧ Circular p.Refers key

section
variable (hp : p.resolved = false)
include hp

/-- a chain that ends is followed to its end when there is room for the leaves it has not passed -/
theorem lookup_ends {key : String} (hkey : Grounded p.Refers key) {passed : List Value}
    (hpassed : p.Passed passed key) {room : Nat} (hroom : p.leaves < room + passed.length)
    (chain : List String) : p.Ends (.ofKey key) (p.lookup room chain key) := by
  induction room generalizing key passed chain with
  | zero =>
    have hle : passed.length ≤ p.leaves := hpassed.length_le
    omega
  | succ room ih =>
    rw [lookup]
    cases hv : p.raw? key with
    | none => exact .unknown hv
    | some v =>
      dsimp only
      rw [hp, Value.expandWith_eq_answer, ends_ofKey_iff hv]
      refine ends_answer fun next hasks => ?_
      have hstep : p.Refers key next := ⟨v, hv, hasks⟩
      -- the step takes one from the room and passes one leaf more
      obtain ⟨leaf, hleaf⟩ := hpassed.step hkey.not_transGen hstep
      refine ih (hkey.step hstep) hleaf ?_ _
      rw [List.length_cons]
      omega

/-- with a bound an inquiry comes to what it comes to without one, or is refused as a cycle -/
theorem lookup_ends_or_cycle (room : Nat) (chain : List String) (key : String) :
    p.Ends (.ofKey key) (p.lookup room chain key) ∨
      ∃ cycle, p.lookup room chain key = .error (.cycle cycle) := by
  induction room generalizing chain key with
  | zero => exact .inr ⟨_, rfl⟩
  | succ room ih =>
    rw [lookup]
    cases hv : p.raw? key with
    | none => exact .inl (.unknown hv)
    | some v =>
      dsimp only
      rw [hp, Value.expandWith_eq_answer, ends_ofKey_iff hv]
      exact answer_ends_or_cycle (ih _) v.inquiry

omit hp in
/-- an inquiry in two steps is bounded when both steps are -/
theorem Bounded.bind {i : Inquiry α} {f : α → Inquiry β} {x : Expansion α}
    {g : α → Expansion β} (h : p.Bounded i x) (hf : ∀ a, p.Bounded (f a) (g a)) :
    p.Bounded (i >>= f) (x >>= g) := by
  constructor
  · intro r hr
    rcases ends_bind_iff.mp hr with ⟨a, ha, hr⟩ | ⟨e, he, rfl⟩
    · rw [h.ends _ ha]
      exact (hf a).ends r hr
    · rw [h.ends _ he]
      rfl
  · intro hnone
    by_cases hi : ∃ r, p.Ends i r
    · obtain ⟨r, hr⟩ := hi
      rw [h.ends r hr]
      cases r with
      | error e => exact absurd (ends_bind_iff.mpr (.inr ⟨e, hr, rfl⟩)) (hnone _)
      | ok a => exact (hf a).endless fun r' hr' => hnone r' (ends_bind_iff.mpr (.inl ⟨a, hr, hr'⟩))
    · obtain ⟨chain, rfl⟩ := h.endless fun r hr => hi ⟨r, hr⟩
      exact ⟨chain, rfl⟩

omit hp in
theorem bounded_pure (a : α) : p.Bounded (pure a) (.ok a) :=
  ⟨fun _ hr => (ends_pure a).unique hr, fun h => absurd (ends_pure a) (h _)⟩

theorem bounded_answer {room : Nat} (hroom : p.leaves < room) (chain : List String)
    (i : Inquiry α) : p.Bounded i (i.answer (p.lookup room chain)) := by
  constructor
  · intro r hr
    refine (ends_answer fun key hkey => ?_).unique hr
    exact lookup_ends hp (hr.grounded hkey) (.nil key) hroom chain
  · intro hnone
    rcases answer_ends_or_cycle (lookup_ends_or_cycle hp room chain) i with h | h
    · exact absurd h (hnone _)
    · exact h

theorem bounded_find (i : Inquiry α) : p.Bounded i (i.answer p.find) :=
  bounded_answer hp (show p.leaves < p.leaves + 2 by omega) [] i

theorem bounded_resolveEntries (entries : OrderedMap Value) :
    p.Bounded (Value.inquiryOfEntries entries) (p.resolveEntries entries) := by
  induction entries with
  | nil => exact bounded_pure []
  | cons e rest ih =>
    obtain ⟨k, v⟩ := e
    rw [Value.inquiryOfEntries, resolveEntries]
    refine Bounded.bind ?_ fun w => ih.bind fun rest => bounded_pure _
    rw [Value.expandWith_eq_answer]
    exact bounded_answer hp (show p.leaves < p.leaves + 2 - 1 by omega) [k] v.inquiry

theorem bounded_resolve : p.Bounded (resolveInquiry p.tree) p.resolve := by
  have hresolve : p.resolve = p.resolveEntries p.tree >>= fun tree => pure ⟨tree, true⟩ := by
    rw [resolve, hp]
    rfl
  rw [hresolve]
  exact (bounded_resolveEntries hp p.tree).bind fun tree => bounded_pure _

omit hp in
theorem Bounded.exact {i : Inquiry α} {x : Expansion α} (h : p.Bounded i x) (hi : i.Acyclic) :
    p.Exact i x where
  ends r hr := ⟨h.ends r hr, hr.not_cycle hi⟩
  endless := h.endless
  circular := by
    have hends : (∃ chain, x = .error (.cycle chain)) ↔ ¬ ∃ r, p.Ends i r := by
      constructor
      · rintro ⟨chain, hx⟩ ⟨r, hr⟩
        exact hr.not_cycle hi chain ((h.ends r hr).symm.trans hx)
      · exact fun hnone => h.endless fun r hr => hnone ⟨r, hr⟩
    rw [hends, exists_ends_iff]
    push Not
    rfl

/-- **The bound on chains is exact.** Getting a key, expanding a string or a value and resolving
the tree have the outcome that the rules come to without a bound. They fail with a cycle when the
rules come to nothing, and that is when a key that is asked for leads into a circle. -/
theorem expansion_exact :
    (∀ key, p.Exact (getInquiry key) (p.get key)) ∧
    (∀ template, p.Exact (Reading.interpolateInquiry template) (p.expandText template)) ∧
    (∀ v : Value, p.Exact v.inquiry (p.expand v)) ∧
    p.Exact (resolveInquiry p.tree) p.resolve := by
  refine ⟨fun key => ?_, fun template => ?_, fun v => ?_, ?_⟩
  · rw [get_eq_answer]
    exact (bounded_find hp _).exact (acyclic_getInquiry key)
  · rw [expandText, Reading.interpolate_eq_answer]
    exact (bounded_find hp _).exact (Reading.acyclic_interpolateInquiry template)
  · rw [expand, Value.expandWith_eq_answer]
    exact (bounded_find hp _).exact (Value.acyclic_inquiry v)
  · exact (bounded_resolve hp).exact (acyclic_resolveInquiry p.tree)

end

/-- a chain through a list and a map, and a key that leads to itself -/
def chained : Parameters :=
  .ofTree
    [ ("a", .str "%b%"), ("b", .list [.str "%c.d%"]), ("c", .map [("d", .str "x%e%")]),
      ("e", .int 1), ("self", .str "%self%") ]

example :
    chained.get "a" = .ok (.list [.str "x1"]) ∧
    chained.get "self" = .error (.cycle (List.replicate 8 "self")) := by
  decide +kernel

theorem chained_exact :
    chained.resolved = false ∧
    (∀ key, chained.Exact (getInquiry key) (chained.get key)) ∧
    (∀ template,
      chained.Exact (Reading.interpolateInquiry template) (chained.expandText template)) ∧
    (∀ v : Value, chained.Exact v.inquiry (chained.expand v)) ∧
    chained.Exact (resolveInquiry chained.tree) chained.resolve :=
  ⟨rfl, expansion_exact rfl⟩

end Parameters
end ServiceGraph
