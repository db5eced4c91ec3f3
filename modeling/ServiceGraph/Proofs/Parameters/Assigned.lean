import ServiceGraph.Proofs.Parameters.Layers

/-!
# What a key finds after a value was set

Setting a key puts the value at the path of the key's parts. A look-up tries the key as a whole first,
among the keys of the top level, and only then its path.

* `Parameters.get?_set_of_dotted`, `get?_set_of_apart`: setting a key changes no dotted key of the top
  level, and no key that does not overlap it;
* `Parameters.raw?_after_set`: the key finds the value, unless it is dotted and the top level has it as a
  whole; a key that does not overlap it finds what it found before;
* `Parameters.not_found_after_set`: a tree with a dotted key.
-/

namespace ServiceGraph.Parameters

variable {p : Parameters} {key other : String} {v : Value}

theorem raw?_eq_or (p : Parameters) (key : String) :
    p.raw? key = (p.tree.get? key).or ((Value.map p.tree).walk? (keyPath key)) := by
  rw [raw?]
  cases p.tree.get? key <;> rfl

/-- setting a key changes the top level under the first part of the key only -/
theorem get?_set {first : String} {rest : List String} (hpath : keyPath key = first :: rest)
    (hother : first ≠ other) (p : Parameters) (v : Value) :
    (p.set key v).tree.get? other = p.tree.get? other := by
  show (Value.setAt p.tree (keyPath key) v).get? other = _
  rw [hpath, Value.get?_setAt_of_ne hother]

theorem get?_set_of_dotted (hother : '.' ∈ other.toList) (p : Parameters) (key : String) (v : Value) :
    (p.set key v).tree.get? other = p.tree.get? other := by
  obtain ⟨first, rest, hpath⟩ := List.exists_cons_of_ne_nil (keyPath_ne_nil key)
  have hfirst : '.' ∉ first.toList := not_mem_of_mem_keyPath (hpath ▸ List.mem_cons_self)
  refine get?_set hpath ?_ p v
  rintro rfl
  exact hfirst hother

theorem get?_set_of_apart (hother : ¬ Overlaps key other) (p : Parameters) (v : Value) :
    (p.set key v).tree.get? other = p.tree.get? other := by
  obtain ⟨first, rest, hpath⟩ := List.exists_cons_of_ne_nil (keyPath_ne_nil key)
  have hfirst : '.' ∉ first.toList := not_mem_of_mem_keyPath (hpath ▸ List.mem_cons_self)
  refine get?_set hpath ?_ p v
  rintro rfl
  -- a first part is a key whose path the whole key continues
  refine hother (overlaps_iff.mpr (.inr ?_))
  rw [keyPath_of_not_mem hfirst, hpath]
  exact List.cons_prefix_cons.mpr ⟨rfl, List.nil_prefix⟩

/-- **What keys find after a value was set.** The key finds the value, unless it is dotted and a key of
the top level is that key as a whole: what stands there comes first. Every key that is not the same, no
part of it up to a dot and no continuation after a dot finds what it found before, whatever the call
replaced by maps. -/
theorem raw?_after_set (p : Parameters) (key : String) (v : Value) :
    (p.set key v).raw? key = (if '.' ∈ key.toList then p.tree.get? key else none).or (some v) ∧
    ((p.set key v).raw? key = some v ↔ ('.' ∈ key.toList → ∀ w, p.tree.get? key = some w → w = v)) ∧
    ∀ other, ¬ Overlaps key other → (p.set key v).raw? other = p.raw? other := by
  have hkey : (p.set key v).raw? key =
      (if '.' ∈ key.toList then p.tree.get? key else none).or (some v) := by
    rw [raw?_eq_or, walk?_set]
    split
    next hdot => rw [get?_set_of_dotted hdot]
    next hdot =>
      have hplain : (p.set key v).tree = p.tree.insert key v := by
        show Value.setAt p.tree (keyPath key) v = _
        rw [keyPath_of_not_mem hdot, Value.setAt]
      rw [hplain, OrderedMap.get?_insert, if_pos rfl, Option.none_or, Option.some_or]
  refine ⟨hkey, ?_, fun other hother => ?_⟩
  · rw [hkey]
    by_cases hdot : '.' ∈ key.toList
    · cases p.tree.get? key <;> simp [hdot]
    · simp [hdot]
  · have hpath : ¬ keyPath other <+: keyPath key := fun hp => hother (overlaps_iff.mpr (.inr hp))
    have hkey : ¬ keyPath key <+: keyPath other := fun hp => hother (overlaps_iff.mpr (.inl hp))
    have hwalk : (Value.map (p.set key v).tree).walk? (keyPath other) =
        (Value.map p.tree).walk? (keyPath other) := Value.walk?_setAt_of_apart hpath hkey p.tree v
    rw [raw?_eq_or, raw?_eq_or, get?_set_of_apart hother, hwalk]

/-- a number in the way of `db.host`, a dotted key beside it, and a map apart from both -/
def settled : Parameters :=
  ofTree [("db", .int 3), ("db.port", .int 1), ("mail", .map [("from", .str "noreply")])]

theorem settled_after_set :
    (settled.set "db.host" (.str "mx")).raw? "db.host" = some (.str "mx") ∧
    ¬ Overlaps "db.host" "mail.from" ∧
    (settled.set "db.host" (.str "mx")).raw? "mail.from" = settled.raw? "mail.from" := by
  obtain ⟨-, hfound, hframe⟩ := raw?_after_set settled "db.host" (.str "mx")
  have habsent : settled.tree.get? "db.host" = none := by decide +kernel
  have hapart : ¬ Overlaps "db.host" "mail.from" := by decide +kernel
  exact ⟨hfound.mpr fun _ w hw => (nomatch habsent.symm.trans hw), hapart, hframe "mail.from" hapart⟩

/-- a tree that has the dotted key at its top level goes on to answer with what stands there -/
theorem not_found_after_set :
    ¬ ∀ (p : Parameters) (key : String) (v : Value), (p.set key v).raw? key = some v := by
  intro h
  have hfound := h (ofTree [("db.host", .str "old")]) "db.host" (.str "new")
  exact absurd hfound (by decide +kernel)

end ServiceGraph.Parameters
