import ServiceGraph.Parameters.Expansion
import ServiceGraph.Proofs.Container.Frame
import ServiceGraph.Proofs.Node.Substituted

/-!
# Live objects and expansion

Parameters without live objects bring none along: an expanded value refers to the live objects that it
referred to before.

* `Value.Clear.walk?`: what a path leads to refers to no more than the whole;
* `Parameters.find_clear`: the value of a key of a resolved tree;
* `Parameters.mem_objects_expand`: the result for a whole value.
-/

set_option linter.unusedSectionVars false

namespace ServiceGraph

variable {x : ObjectId}

namespace Value

theorem Clear.walk? {v w : Value} {path : List String} (hv : v.Clear x) (h : v.walk? path = some w) :
    w.Clear x := by
  induction path generalizing v with
  | nil =>
    cases h
    exact hv
  | cons key rest ih =>
    obtain ⟨u, hu, hrest⟩ := Option.bind_eq_some_iff.mp h
    cases v with
    | map es => exact ih (clear_map_iff.mp hv _ (OrderedMap.mem_of_get? hu)) hrest
    | null | bool _ | int _ | float _ | str _ | list _ | service _ => cases hu

section
variable {look : String → Expansion Value} (hlook : ∀ key w, look key = .ok w → w.Clear x)
include hlook

/-- a string becomes a string, or the value of one key -/
theorem interpolate_clear {s : String} {w : Value} (h : Reading.interpolate look s = .ok w) : w.Clear x := by
  obtain ⟨parts, -, h⟩ := Expansion.bind_eq_ok h
  split at h
  next key => exact hlook key w h
  next =>
    obtain ⟨text, -, h⟩ := Expansion.bind_eq_ok h
    cases h
    exact List.not_mem_nil

mutual

theorem mem_objects_expandWith {v w : Value} (h : v.expandWith look = .ok w) :
    x ∈ w.objects ↔ x ∈ v.objects := by
  cases v with
  | str s =>
    rw [expandWith] at h
    split at h
    · exact iff_of_false (interpolate_clear hlook h) List.not_mem_nil
    · cases h
      exact Iff.rfl
  | list items =>
    rw [expandWith] at h
    obtain ⟨items', hitems, h⟩ := Expansion.bind_eq_ok h
    cases h
    exact mem_objects_expandItems hitems
  | map entries =>
    rw [expandWith] at h
    obtain ⟨entries', hentries, h⟩ := Expansion.bind_eq_ok h
    cases h
    exact mem_objects_expandEntries hentries
  | null | bool _ | int _ | float _ | service _ =>
    cases h
    exact Iff.rfl

theorem mem_objects_expandItems {vs ws : List Value} (h : expandItems look vs = .ok ws) :
    x ∈ objectsOfItems ws ↔ x ∈ objectsOfItems vs := by
  cases vs with
  | nil =>
    cases h
    exact Iff.rfl
  | cons v vs =>
    rw [expandItems] at h
    obtain ⟨w, hw, h⟩ := Expansion.bind_eq_ok h
    obtain ⟨ws', hws, h⟩ := Expansion.bind_eq_ok h
    cases h
    rw [objectsOfItems, objectsOfItems, List.mem_append, List.mem_append, mem_objects_expandWith hw,
      mem_objects_expandItems hws]

theorem mem_objects_expandEntries {es es' : List (String × Value)} (h : expandEntries look es = .ok es') :
    x ∈ objectsOfEntries es' ↔ x ∈ objectsOfEntries es := by
  cases es with
  | nil =>
    cases h
    exact Iff.rfl
  | cons e es =>
    obtain ⟨k, v⟩ := e
    rw [expandEntries] at h
    obtain ⟨w, hw, h⟩ := Expansion.bind_eq_ok h
    obtain ⟨ws, hws, h⟩ := Expansion.bind_eq_ok h
    cases h
    rw [objectsOfEntries, objectsOfEntries, List.mem_append, List.mem_append, mem_objects_expandWith hw,
      mem_objects_expandEntries hws]

end

end

end Value

namespace Parameters

variable {p : Parameters}

theorem find_clear (hresolved : p.resolved = true) (hp : ∀ e ∈ p.tree, e.2.Clear x) {key : String}
    {w : Value} (h : p.find key = .ok w) : w.Clear x := by
  cases hraw : p.raw? key with
  | none =>
    rw [find_of_unknown hraw] at h
    cases h
  | some v =>
    rw [find_of_resolved hresolved hraw] at h
    cases h
    rw [raw?] at hraw
    split at hraw
    next v hv =>
      cases hraw
      exact hp _ (OrderedMap.mem_of_get? hv)
    next => exact (Value.clear_map_iff.mpr hp).walk? hraw

/-- a resolved tree without live objects brings none into an expanded value -/
theorem mem_objects_expand (hresolved : p.resolved = true) (hp : ∀ e ∈ p.tree, e.2.Clear x) {v w : Value}
    (h : p.expand v = .ok w) : x ∈ w.objects ↔ x ∈ v.objects :=
  Value.mem_objects_expandWith (fun _ _ => find_clear hresolved hp) h

theorem mem_objects_expand_of_data (hresolved : p.resolved = true) (hp : ∀ e ∈ p.tree, e.2.objects = [])
    {v w : Value} (h : p.expand v = .ok w) : x ∈ w.objects ↔ x ∈ v.objects := by
  refine mem_objects_expand hresolved (fun e he => ?_) h
  rw [Value.Clear, hp e he]
  exact List.not_mem_nil

end Parameters
end ServiceGraph
