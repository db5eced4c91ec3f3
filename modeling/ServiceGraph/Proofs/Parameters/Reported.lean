import Mathlib.Data.List.TakeWhile
import ServiceGraph.Proofs.Parameters.Room

/-!
# The keys that are reported as a cycle

Expansion gives up where a key is one too many for the room, and reports the keys passed from the first
occurrence of this last key on. The key may be one that leads into a circle, and then it has been passed
before: up to it there was no choice where to go on, and more keys were passed than there are leaves. Or it
may stand on a side branch, which would end if there were more room, and then it is passed for the first
time and is all that is reported.

* `Parameters.Reported p i chain`: what is known of the keys that are reported when the inquiry `i` fails;
* `Parameters.exists_walk_of_lookup`: the keys that are passed until there is no room;
* `Parameters.length_le_leaves`: a walk that repeats no key is no longer than there are leaves;
* `Parameters.mem_iff_circular`: the last key has been passed before when it leads into a circle;
* `Parameters.reported_cycle`: the result, for each kind of expansion;
* `Parameters.branch_reported`: a side branch.
-/

namespace ServiceGraph

open Relation

namespace Parameters

variable {p : Parameters} {α : Type} {key : String} {chain : List String}

/-! ## inquiries that fail with a cycle -/

theorem answer_ne_cycle {look : String → Expansion Value}
    (hlook : ∀ key chain, look key ≠ .error (.cycle chain)) {i : Inquiry α} (hi : i.Acyclic)
    (chain : List String) : i.answer look ≠ .error (.cycle chain) := by
  induction i with
  | done r => exact hi chain
  | ask key next ih =>
    rw [Inquiry.answer_ask]
    intro h
    rcases Expansion.bind_eq_error.mp h with hkey | ⟨v, -, h⟩
    · exact hlook key chain hkey
    · exact ih v (hi v) h

/-- a tree that is resolved has no cycles -/
theorem unresolved_of_cycle {i : Inquiry α} (hi : i.Acyclic)
    (h : i.answer p.find = .error (.cycle chain)) : p.resolved = false := by
  cases hp : p.resolved with
  | false => rfl
  | true =>
    refine absurd h (answer_ne_cycle (fun key chain hkey => ?_) hi chain)
    cases hv : p.raw? key with
    | none =>
      rw [find_of_unknown hv] at hkey
      cases hkey
    | some v =>
      rw [find_of_resolved hp hv] at hkey
      cases hkey

theorem ends_of_found {key : String} {v : Value} {look : String → Expansion Value}
    (hlook : ∀ key, p.Ends (.ofKey key) (look key) ∨ ∃ chain, look key = .error (.cycle chain))
    (hkey : look key = .ok v) : ∃ u, p.raw? key = some u ∧ p.Ends u.inquiry (.ok v) := by
  rcases hlook key with h | ⟨chain, h⟩
  · rw [hkey] at h
    cases h with
    | found hv hw hnext =>
      cases hnext
      exact ⟨_, hv, hw⟩
  · cases hkey.symm.trans h

/-- an inquiry that fails with a cycle asks for a key that does -/
theorem exists_asked_of_answer {look : String → Expansion Value}
    (hlook : ∀ key, p.Ends (.ofKey key) (look key) ∨ ∃ chain, look key = .error (.cycle chain))
    {i : Inquiry α} (hi : i.Acyclic) (h : i.answer look = .error (.cycle chain)) :
    ∃ key, p.Asks i key ∧ look key = .error (.cycle chain) := by
  induction i with
  | done r => exact absurd h (hi chain)
  | ask key next ih =>
    rw [Inquiry.answer_ask] at h
    rcases Expansion.bind_eq_error.mp h with hkey | ⟨w, hkey, h⟩
    · exact ⟨key, .here, hkey⟩
    · obtain ⟨v, hv, hw⟩ := ends_of_found hlook hkey
      obtain ⟨other, hother, hcycle⟩ := ih w (hi w) h
      exact ⟨other, .later hv hw hother, hcycle⟩

/-! ## where a walk has no choice -/

/-- of the keys that an inquiry asks for at most one leads into a circle -/
theorem Asks.unique {i : Inquiry α} {other : String} (h : p.Asks i key) (h' : p.Asks i other)
    (hkey : ¬ Grounded p.Refers key) (hother : ¬ Grounded p.Refers other) : key = other := by
  have hends : ∀ {key : String} {v w : Value}, p.raw? key = some v → p.Ends v.inquiry (.ok w) →
      Grounded p.Refers key :=
    fun hv hw => ((ends_ofKey_iff hv).mpr hw).grounded .here
  induction h with
  | here =>
    cases h' with
    | here => rfl
    | later hv hw _ => exact absurd (hends hv hw) hkey
  | later hv hw _ ih =>
    cases h' with
    | here => exact absurd (hends hv hw) hother
    | later hv' hw' hnext' =>
      cases hv.symm.trans hv'
      cases hw.unique hw'
      exact ih hnext' hkey

/-- a step that stays where walks go on forever -/
def Endless (p : Parameters) (key next : String) : Prop := p.Refers key next ∧ ¬ Grounded p.Refers next

theorem Endless.unique {next other : String} (h : p.Endless key next) (h' : p.Endless key other) :
    next = other := by
  obtain ⟨⟨v, hv, hnext⟩, hendless⟩ := h
  obtain ⟨⟨w, hw, hother⟩, hendless'⟩ := h'
  cases hv.symm.trans hw
  exact hnext.unique hother hendless hendless'

theorem exists_leaf_of_isChain {first : String} {keys : List String}
    (h : (first :: keys).IsChain p.Endless) {key : String} (hkey : key ∈ keys) :
    ¬ Grounded p.Refers key ∧ ∃ leaf ∈ Value.leafValuesOf p.tree, p.Asks leaf.inquiry key := by
  induction keys generalizing first with
  | nil => cases hkey
  | cons next keys ih =>
    obtain ⟨⟨⟨v, hv, hasks⟩, hendless⟩, h⟩ := List.isChain_cons_cons.mp h
    rcases List.mem_cons.mp hkey with rfl | hkey
    · obtain ⟨leaf, hleaf, hasks, -⟩ := asks_leaf hasks
      exact ⟨hendless, leaf, leafValues_subset_of_raw? hv hleaf, hasks⟩
    · exact ih h hkey

/-- different keys on such a walk are asked for by different leaves -/
theorem length_le_leaves {first : String} {keys : List String}
    (h : (first :: keys).IsChain p.Endless) (hnodup : keys.Nodup) : keys.length ≤ p.leaves := by
  have hall : ∀ key ∈ keys, ¬ Grounded p.Refers key ∧
      ∃ leaf ∈ Value.leafValuesOf p.tree, p.Asks leaf.inquiry key :=
    fun _ => exists_leaf_of_isChain h
  choose! hendless leaf hmem hasks using hall
  have hleaves : (keys.map leaf).Nodup := by
    refine hnodup.map_on fun key hkey other hother heq => ?_
    have hother' : p.Asks (leaf key).inquiry other := heq ▸ hasks other hother
    exact (hasks key hkey).unique hother' (hendless key hkey) (hendless other hother)
  have hsubset : keys.map leaf ⊆ Value.leafValuesOf p.tree := by
    intro v hv
    obtain ⟨key, hkey, rfl⟩ := List.mem_map.mp hv
    exact hmem key hkey
  have hle : (keys.map leaf).length ≤ (Value.leafValuesOf p.tree).length :=
    (List.subperm_of_subset hleaves hsubset).length_le
  rw [List.length_map] at hle
  exact Nat.le_trans hle (Value.length_leafValuesOf_le p.tree)

/-- after more keys than there are leaves, a key has been passed before exactly when it leads into a
circle -/
theorem mem_iff_circular {passed : List String} {last : String}
    (hchain : (passed ++ [last]).IsChain p.Refers) (hlength : p.leaves < passed.length) :
    last ∈ passed ↔ Circular p.Refers last := by
  constructor
  · intro hlast
    exact ⟨last, .refl, transGen_of_mem hchain hlast⟩
  · intro hlast
    by_contra hnew
    have hendless : ∀ key ∈ passed ++ [last], ¬ Grounded p.Refers key := by
      intro key hkey hgrounded
      rcases List.mem_append.mp hkey with hkey | hkey
      · exact (hgrounded.reach (transGen_of_mem hchain hkey).to_reflTransGen).not_circular hlast
      · cases List.mem_singleton.mp hkey
        exact hgrounded.not_circular hlast
    have hsteps : (passed ++ [last]).IsChain p.Endless :=
      hchain.imp_of_mem_imp fun _ next _ hnext hstep => ⟨hstep, hendless next hnext⟩
    have hnodup : (passed ++ [last]).Nodup :=
      nodup_of_isChain (fun _ _ _ h h' => h.unique h') hsteps hnew
    cases passed with
    | nil => cases hlength
    | cons first rest =>
      have hle : (rest ++ [last]).length ≤ p.leaves :=
        length_le_leaves hsteps (List.nodup_cons.mp hnodup).2
      rw [List.length_append, List.length_singleton] at hle
      exact absurd hlength (Nat.not_lt_of_le hle)

/-! ## what is reported -/

/-- what is known of the keys that are reported when an inquiry fails with a cycle -/
structure Reported (p : Parameters) (i : Inquiry α) (chain : List String) : Prop where
  linked : chain.IsChain p.Refers
  /-- The first key is the last one. It is reached from a key that is asked for and leads into a circle.
  There is another key when the last one leads into a circle itself, and only then. -/
  closes : ∃ first last, p.Asks i first ∧ Circular p.Refers first ∧
    ReflTransGen p.Refers first last ∧ chain.head? = some last ∧ chain.getLast? = some last ∧
    (2 ≤ chain.length ↔ Circular p.Refers last)

theorem closing_concat (passed : List String) (last : String) :
    closing (passed ++ [last]) = passed.dropWhile (· ≠ last) ++ [last] := by
  rw [closing, List.getLast?_concat]
  dsimp only
  rw [List.dropWhile_append]
  split
  case isTrue h =>
    rw [List.isEmpty_iff.mp h]
    simp
  case isFalse => rfl

theorem closing_suffix (passed : List String) (last : String) :
    closing (passed ++ [last]) <:+ passed ++ [last] := by
  rw [closing, List.getLast?_concat]
  exact List.dropWhile_suffix _

/-- what is reported of a walk begins and ends with its last key, and there is another key between when
this one has been passed before -/
theorem head?_closing (passed : List String) (last : String) :
    (closing (passed ++ [last])).head? = some last ∧
      (2 ≤ (closing (passed ++ [last])).length ↔ last ∈ passed) := by
  rw [closing_concat]
  by_cases hlast : last ∈ passed
  · obtain ⟨before, others, -, hdrop⟩ := exists_dropWhile_of_mem hlast
    rw [hdrop]
    simp [hlast]
  · have hdrop : passed.dropWhile (· ≠ last) = [] := by
      rw [List.dropWhile_eq_nil_iff]
      intro key hkey
      have hne : key ≠ last := fun heq => hlast (heq ▸ hkey)
      simpa using hne
    rw [hdrop]
    simp [hlast]

/-- what is reported of a walk from a key that is asked for -/
theorem reported_closing {i : Inquiry α} (before : List String) {after : List String}
    {first : String} (hfirst : p.Asks i first) (hcircular : Circular p.Refers first)
    (hchain : (before ++ first :: after).IsChain p.Refers)
    (hlength : p.leaves < before.length + after.length) :
    p.Reported i (closing (before ++ first :: after)) := by
  obtain ⟨rest, last, hlast⟩ : ∃ rest last, first :: after = rest ++ [last] :=
    ⟨_, _, (List.dropLast_append_getLast (List.cons_ne_nil first after)).symm⟩
  have hreach : ReflTransGen p.Refers first last := by
    have hpart : (rest ++ [last]).IsChain p.Refers := hlast ▸ hchain.right_of_append
    cases rest with
    | nil =>
      cases hlast
      exact .refl
    | cons head rest =>
      cases hlast
      exact (transGen_of_mem hpart List.mem_cons_self).to_reflTransGen
  have hcount : p.leaves < (before ++ rest).length := by
    have hsame := congrArg List.length hlast
    rw [List.length_cons, List.length_append, List.length_singleton] at hsame
    rw [List.length_append]
    omega
  rw [hlast, ← List.append_assoc] at hchain ⊢
  obtain ⟨hhead, hmore⟩ := head?_closing (before ++ rest) last
  refine ⟨hchain.suffix (closing_suffix _ _), first, last, hfirst, hcircular, hreach, hhead, ?_, ?_⟩
  · rw [closing_concat, List.getLast?_concat]
  · rw [hmore, mem_iff_circular hchain hcount]

section
variable (hp : p.resolved = false)
include hp

/-- the keys that are passed until there is no room -/
theorem exists_walk_of_lookup {room : Nat} {passed : List String}
    (h : p.lookup room passed key = .error (.cycle chain)) :
    ∃ after, after.length = room ∧ (key :: after).IsChain p.Refers ∧
      chain = closing (passed ++ key :: after) := by
  induction room generalizing key passed with
  | zero =>
    cases h
    exact ⟨[], rfl, List.isChain_singleton key, rfl⟩
  | succ room ih =>
    rw [lookup] at h
    cases hv : p.raw? key with
    | none =>
      rw [hv] at h
      cases h
    | some v =>
      rw [hv] at h
      dsimp only at h
      rw [hp, if_neg Bool.false_ne_true, Value.expandWith_eq_answer] at h
      obtain ⟨next, hnext, hcycle⟩ :=
        exists_asked_of_answer (lookup_ends_or_cycle hp room _) (Value.acyclic_inquiry v) h
      obtain ⟨after, hlength, hchain, rfl⟩ := ih hcycle
      refine ⟨next :: after, congrArg (· + 1) hlength, ?_, ?_⟩
      · exact List.isChain_cons_cons.mpr ⟨⟨v, hv, hnext⟩, hchain⟩
      · rw [List.append_assoc, List.singleton_append]

/-- a key that is refused as a cycle although there is room for all leaves leads into a circle -/
theorem circular_of_lookup {room : Nat} {passed : List String} (hroom : p.leaves < room)
    (h : p.lookup room passed key = .error (.cycle chain)) : Circular p.Refers key := by
  by_contra hkey
  have hends : p.Ends (.ofKey key) (p.lookup room passed key) :=
    lookup_ends hp (grounded_of_not_circular hkey) (.nil key) hroom passed
  exact hends.not_cycle (Inquiry.acyclic_ofKey key) chain h

/-- the entry of the tree at which resolving fails with a cycle -/
theorem exists_entry_of_resolveEntries {entries : OrderedMap Value}
    (h : p.resolveEntries entries = .error (.cycle chain)) :
    ∃ k v next, (k, v) ∈ entries ∧ p.Asks v.inquiry next ∧
      p.Asks (Value.inquiryOfEntries entries) next ∧
      p.lookup (p.leaves + 1) [k] next = .error (.cycle chain) := by
  induction entries with
  | nil => cases h
  | cons e entries ih =>
    obtain ⟨k, v⟩ := e
    rw [resolveEntries, show p.room - 1 = p.leaves + 1 from rfl, Value.expandWith_eq_answer] at h
    have hlook := lookup_ends_or_cycle hp (p.leaves + 1) [k]
    rw [Value.inquiryOfEntries]
    rcases Expansion.bind_eq_error.mp h with hv | ⟨w, hv, h⟩
    · obtain ⟨next, hnext, hcycle⟩ := exists_asked_of_answer hlook (Value.acyclic_inquiry v) hv
      exact ⟨k, v, next, List.mem_cons_self, hnext, asks_bind_iff.mpr (.inl hnext), hcycle⟩
    · rcases Expansion.bind_eq_error.mp h with hrest | ⟨_, -, h⟩
      · obtain ⟨k', v', next, hmem, hnext, hasked, hcycle⟩ := ih hrest
        have hw : p.Ends v.inquiry (.ok w) := by
          rcases answer_ends_or_cycle hlook v.inquiry with hends | ⟨_, hcycle⟩
          · exact hv ▸ hends
          · cases hv.symm.trans hcycle
        have hlater : p.Asks (Value.inquiryOfEntries entries >>= fun rest => pure ((k, w) :: rest)) next :=
          asks_bind_iff.mpr (.inl hasked)
        exact ⟨k', v', next, List.mem_cons_of_mem _ hmem, hnext,
          asks_bind_iff.mpr (.inr ⟨w, hw, hlater⟩), hcycle⟩
      · cases h

end

theorem reported_answer {i : Inquiry α} (hi : i.Acyclic)
    (h : i.answer p.find = .error (.cycle chain)) : p.Reported i chain := by
  have hp : p.resolved = false := unresolved_of_cycle hi h
  have hroom : p.leaves < p.room := by
    rw [room]
    omega
  obtain ⟨first, hfirst, hcycle⟩ := exists_asked_of_answer (lookup_ends_or_cycle hp p.room []) hi h
  have hcircular : Circular p.Refers first := circular_of_lookup hp hroom hcycle
  obtain ⟨after, hlength, hchain, rfl⟩ := exists_walk_of_lookup hp hcycle
  refine reported_closing [] hfirst hcircular hchain ?_
  rw [List.length_nil, hlength, Nat.zero_add]
  exact hroom

theorem reported_resolve (hkeys : OrderedMap.Distinct p.tree)
    (h : p.resolve = .error (.cycle chain)) : p.Reported (resolveInquiry p.tree) chain := by
  obtain ⟨hp, hentries⟩ : p.resolved = false ∧ p.resolveEntries p.tree = .error (.cycle chain) := by
    rw [resolve] at h
    split at h
    case isTrue => cases h
    case isFalse hp =>
      rcases Expansion.bind_eq_error.mp h with htree | ⟨_, -, h⟩
      · exact ⟨by simpa using hp, htree⟩
      · cases h
  obtain ⟨k, v, first, hmem, hnext, hfirst, hcycle⟩ := exists_entry_of_resolveEntries hp hentries
  have hcircular : Circular p.Refers first := circular_of_lookup hp (Nat.lt_succ_self _) hcycle
  obtain ⟨after, hlength, hchain, rfl⟩ := exists_walk_of_lookup hp hcycle
  -- the key of the entry is passed first, and its value asks for the next
  have hraw : p.raw? k = some v := by
    rw [raw?, hkeys.get?_of_mem hmem]
  refine reported_closing [k] (asks_bind_iff.mpr (.inl hfirst)) hcircular ?_ ?_
  · exact List.isChain_cons_cons.mpr ⟨⟨v, hraw, hnext⟩, hchain⟩
  · rw [List.length_singleton, hlength]
    omega

/-- **What is reported as a cycle.** When getting a key, expanding a string or a value or resolving the tree
fails with a cycle, references do lead into a circle. The keys that are reported refer to each other in a
row, from a key to this key again, but there is only this one unless it leads into a circle itself. -/
theorem reported_cycle (hkeys : OrderedMap.Distinct p.tree) :
    (∀ key chain, p.get key = .error (.cycle chain) → p.Reported (getInquiry key) chain) ∧
    (∀ template chain, p.expandText template = .error (.cycle chain) →
      p.Reported (Reading.interpolateInquiry template) chain) ∧
    (∀ v chain, p.expand v = .error (.cycle chain) → p.Reported v.inquiry chain) ∧
    ∀ chain, p.resolve = .error (.cycle chain) → p.Reported (resolveInquiry p.tree) chain := by
  refine ⟨fun key chain h => ?_, fun template chain h => ?_, fun v chain h => ?_, fun chain h => ?_⟩
  · rw [get_eq_answer] at h
    exact reported_answer (acyclic_getInquiry key) h
  · rw [expandText, Reading.interpolate_eq_answer] at h
    exact reported_answer (Reading.acyclic_interpolateInquiry template) h
  · rw [expand, Value.expandWith_eq_answer] at h
    exact reported_answer (Value.acyclic_inquiry v) h
  · exact reported_resolve hkeys h

def ring : Parameters := .ofTree [("a", .str "%b%"), ("b", .str "%a%")]

theorem ring_reported :
    OrderedMap.Distinct ring.tree ∧
    ring.get "a" = .error (.cycle ["a", "b", "a", "b", "a"]) ∧
    ring.Reported (getInquiry "a") ["a", "b", "a", "b", "a"] ∧
    ring.resolve = .error (.cycle ["a", "b", "a", "b", "a"]) ∧
    ring.Reported (resolveInquiry ring.tree) ["a", "b", "a", "b", "a"] := by
  have hkeys : OrderedMap.Distinct ring.tree := by decide
  have hget : ring.get "a" = .error (.cycle ["a", "b", "a", "b", "a"]) := by decide +kernel
  have hresolve : ring.resolve = .error (.cycle ["a", "b", "a", "b", "a"]) := by decide +kernel
  obtain ⟨ofGet, -, -, ofResolve⟩ := reported_cycle hkeys
  exact ⟨hkeys, hget, ofGet _ _ hget, hresolve, ofResolve _ hresolve⟩

/-- a key that refers to a key with a value, and then to itself -/
def branching : Parameters := .ofTree [("a", .str "%c% %a%"), ("c", .str "x")]

/-- the side branch is reported, which is no cycle -/
theorem branch_reported :
    branching.get "c" = .ok (.str "x") ∧
    ∃ chain, branching.get "a" = .error (.cycle chain) ∧
      ¬ (2 ≤ chain.length ∧ chain.head? = chain.getLast?) :=
  ⟨by decide +kernel, ["c"], by decide +kernel, by decide⟩

end Parameters
end ServiceGraph
