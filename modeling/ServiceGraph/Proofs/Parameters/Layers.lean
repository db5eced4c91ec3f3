import ServiceGraph.Parameters.Basic
import ServiceGraph.Proofs.Files.Found

/-!
# Paths through layers of parameters

* `Overlaps`: one dotted key is the other or continues it, which their paths tell (`overlaps_iff`);
* `Value.walk?_setAt`, `Value.walk?_setAt_of_apart`: what a path finds after a value was put at a path;
* `Value.get?_mergeEntries`, `Value.walk?_mergeEntries`: what keys and paths find after entries were laid
  over a map;
* `Parameters.Collected`: a tree that grew by setting dotted keys. No key of its top level has a dot
  (`Collected.set`), so laid over any other tree it leaves those keys as they are
  (`Parameters.raw?_merge`).
-/

namespace ServiceGraph

/-! ## dotted keys -/

theorem Text.intercalate_append {separator : List Char} {first more : List (List Char)} (hfirst : first ≠ [])
    (hmore : more ≠ []) : separator.intercalate (first ++ more) =
      separator.intercalate first ++ (separator ++ separator.intercalate more) := by
  induction first with
  | nil => exact absurd rfl hfirst
  | cons part rest ih =>
    cases rest with
    | nil =>
      rw [List.singleton_append, List.intercalate_cons_of_ne_nil hmore, List.intercalate_singleton,
        List.append_assoc]
    | cons next rest =>
      rw [List.cons_append, List.intercalate_cons_of_ne_nil (by simp), ih (List.cons_ne_nil _ _),
        List.intercalate_cons_of_ne_nil (List.cons_ne_nil _ _), ← List.append_assoc]

/-- a text whose first parts are those of another begins with that text -/
theorem Text.eq_or_append_of_parts_prefix {separator : Char} {s t : List Char}
    (h : parts separator s <+: parts separator t) : t = s ∨ ∃ u, t = s ++ separator :: u := by
  obtain ⟨more, hmore⟩ := h
  rw [← intercalate_parts separator t, ← hmore]
  by_cases hne : more = []
  · rw [hne, List.append_nil, intercalate_parts]
    exact .inl rfl
  · rw [intercalate_append (parts_ne_nil separator s) hne, intercalate_parts, List.singleton_append]
    exact .inr ⟨_, rfl⟩

theorem keyPath_ne_nil (key : String) : keyPath key ≠ [] := by
  rw [keyPath, ne_eq, List.map_eq_nil_iff]
  exact Text.parts_ne_nil '.' key.toList

theorem keyPath_of_not_mem {key : String} (h : '.' ∉ key.toList) : keyPath key = [key] := by
  rw [keyPath, Text.parts_of_not_mem h, List.map_singleton, String.ofList_toList]

theorem not_mem_of_mem_keyPath {key part : String} (h : part ∈ keyPath key) : '.' ∉ part.toList := by
  obtain ⟨cs, hcs, rfl⟩ := List.mem_map.mp h
  rw [String.toList_ofList]
  exact Text.not_mem_of_mem_parts hcs

/-- one key is the other, or continues it after a dot -/
def Overlaps (key other : String) : Prop :=
  other = key ∨ (∃ rest, key = other ++ "." ++ rest) ∨ ∃ rest, other = key ++ "." ++ rest

theorem eq_or_append_of_prefix {key other : String} (h : keyPath key <+: keyPath other) :
    other = key ∨ ∃ rest, other = key ++ "." ++ rest := by
  have hparts : Text.parts '.' key.toList <+: Text.parts '.' other.toList := by
    rw [keyPath, keyPath, List.IsPrefix] at h
    obtain ⟨more, hmore⟩ := h
    obtain ⟨first, rest, hsplit, hfirst, -⟩ := List.map_eq_append_iff.mp hmore.symm
    have hequal : first = Text.parts '.' key.toList :=
      List.map_injective_iff.mpr (fun a b hab => String.ofList_injective hab) hfirst
    exact ⟨rest, by rw [hsplit, hequal]⟩
  rcases Text.eq_or_append_of_parts_prefix hparts with heq | ⟨u, hu⟩
  · exact .inl (String.toList_injective heq)
  · refine .inr ⟨String.ofList u, String.toList_injective ?_⟩
    rw [hu, String.toList_append, String.toList_append, String.toList_ofList]
    simp

theorem keyPath_append (key rest : String) : keyPath (key ++ "." ++ rest) = keyPath key ++ keyPath rest := by
  have hlist : (key ++ "." ++ rest).toList = key.toList ++ '.' :: rest.toList := by
    rw [String.toList_append, String.toList_append, List.append_assoc]
    rfl
  rw [keyPath, hlist, Text.parts_append, List.map_append, keyPath, keyPath]

/-- keys overlap when their paths go the same way -/
theorem overlaps_iff {key other : String} :
    Overlaps key other ↔ keyPath key <+: keyPath other ∨ keyPath other <+: keyPath key := by
  constructor
  · rintro (rfl | ⟨rest, rfl⟩ | ⟨rest, rfl⟩)
    · exact .inl (List.prefix_refl _)
    · exact .inr ⟨keyPath rest, (keyPath_append other rest).symm⟩
    · exact .inl ⟨keyPath rest, (keyPath_append key rest).symm⟩
  · rintro (h | h)
    · rcases eq_or_append_of_prefix h with heq | hrest
      · exact .inl heq
      · exact .inr (.inr hrest)
    · rcases eq_or_append_of_prefix h with heq | hrest
      · exact .inl heq.symm
      · exact .inr (.inl hrest)

instance (key other : String) : Decidable (Overlaps key other) :=
  decidable_of_iff _ overlaps_iff.symm

namespace Value

variable {m t base : OrderedMap Value} {path other : List String} {v w : Value}

/-! ## maps with distinct keys -/

theorem keyedEntries_iff : keyedEntries m = true ↔ ∀ e ∈ m, e.2.keyed = true := by
  induction m with
  | nil => simp [keyedEntries]
  | cons e rest ih => simp [keyedEntries, ih]

theorem keyed_map_iff : (map m).keyed = true ↔ OrderedMap.Distinct m ∧ ∀ e ∈ m, e.2.keyed = true := by
  rw [keyed, Bool.and_eq_true, decide_eq_true_iff, keyedEntries_iff]

theorem keyed_of_get? {key : String} (h : (map m).keyed = true) (hv : m.get? key = some v) :
    v.keyed = true :=
  (keyed_map_iff.mp h).2 _ (OrderedMap.mem_of_get? hv)

theorem keyed_insert (h : (map m).keyed = true) (hv : v.keyed = true) (key : String) :
    (map (m.insert key v)).keyed = true := by
  obtain ⟨hdistinct, hvalues⟩ := keyed_map_iff.mp h
  have hinsert := hdistinct.insert key v
  refine keyed_map_iff.mpr ⟨hinsert, fun e he => ?_⟩
  have hget := hinsert.get?_of_mem he
  rw [OrderedMap.get?_insert] at hget
  split at hget
  · cases hget
    exact hv
  · exact hvalues _ (OrderedMap.mem_of_get? hget)

/-- the map under a key, the empty one where there is none -/
theorem keyed_inner (h : (map m).keyed = true) (key : String) :
    (map (((m.get? key).map entries).getD [])).keyed = true := by
  cases hkey : m.get? key with
  | none => rfl
  | some u =>
    have hu := keyed_of_get? h hkey
    cases u with
    | map es => exact hu
    | null | bool _ | int _ | float _ | str _ | list _ | service _ => rfl

theorem keyed_setAt (h : (map m).keyed = true) (hv : v.keyed = true) (path : List String) :
    (map (setAt m path v)).keyed = true := by
  induction path generalizing m with
  | nil => exact h
  | cons key rest ih =>
    cases rest with
    | nil => exact keyed_insert h hv key
    | cons next rest => exact keyed_insert h (ih (keyed_inner h key)) key

/-! ## paths after a value was put at a path -/

theorem walk?_cons (m : OrderedMap Value) (key : String) (rest : List String) :
    (map m).walk? (key :: rest) = (m.get? key).bind (walk? · rest) := rfl

/-- a path that goes on leads through a map -/
theorem exists_map_of_walk? {u : Value} (hpath : path ≠ []) (h : u.walk? path = some v) :
    ∃ es, u = map es := by
  cases path with
  | nil => exact absurd rfl hpath
  | cons key rest =>
    cases u with
    | map es => exact ⟨es, rfl⟩
    | null | bool _ | int _ | float _ | str _ | list _ | service _ => cases h

theorem walk?_setAt (hpath : path ≠ []) (m : OrderedMap Value) (v : Value) :
    (map (setAt m path v)).walk? path = some v := by
  induction path generalizing m with
  | nil => exact absurd rfl hpath
  | cons key rest ih =>
    cases rest with
    | nil => rw [setAt, walk?_cons, OrderedMap.get?_insert, if_pos rfl, Option.bind_some, walk?]
    | cons next rest =>
      rw [setAt, walk?_cons, OrderedMap.get?_insert, if_pos rfl, Option.bind_some]
      exact ih (List.cons_ne_nil _ _) _

theorem get?_setAt_of_ne {step key : String} (h : step ≠ key) (m : OrderedMap Value) (later : List String)
    (w : Value) : (setAt m (step :: later) w).get? key = m.get? key := by
  cases later with
  | nil => rw [setAt, OrderedMap.get?_insert, if_neg h]
  | cons next later => rw [setAt, OrderedMap.get?_insert, if_neg h]

/-- a path goes on from the entries of a value as it does from the value -/
theorem walk?_map_entries (hpath : path ≠ []) (u : Value) : (map u.entries).walk? path = u.walk? path := by
  cases path with
  | nil => exact absurd rfl hpath
  | cons key rest => cases u <;> rfl

theorem walk?_setAt_of_apart (hpath : ¬ path <+: other) (hother : ¬ other <+: path) (m : OrderedMap Value)
    (w : Value) : (map (setAt m other w)).walk? path = (map m).walk? path := by
  induction path generalizing m other with
  | nil => exact absurd List.nil_prefix hpath
  | cons key rest ih =>
    cases other with
    | nil => exact absurd List.nil_prefix hother
    | cons step later =>
      by_cases hstep : step = key
      · subst hstep
        have hrest : ¬ rest <+: later := fun hp => hpath (List.cons_prefix_cons.mpr ⟨rfl, hp⟩)
        have hlater : ¬ later <+: rest := fun hp => hother (List.cons_prefix_cons.mpr ⟨rfl, hp⟩)
        have hne : rest ≠ [] := by
          rintro rfl
          exact hrest List.nil_prefix
        cases later with
        | nil => exact absurd List.nil_prefix hlater
        | cons next later =>
          rw [setAt, walk?_cons, OrderedMap.get?_insert, if_pos rfl, Option.bind_some, ih hrest hlater,
            walk?_cons]
          cases m.get? step with
          | none =>
            obtain ⟨first, rest, rfl⟩ := List.exists_cons_of_ne_nil hne
            rfl
          | some u => exact walk?_map_entries hne u
      · rw [walk?_cons, get?_setAt_of_ne hstep, ← walk?_cons]

/-! ## keys and paths after entries were laid over a map -/

theorem merged_of_leaf (hleaf : v.entries? = none) (old : Option Value) : merged old v = v := by
  cases v with
  | map es => cases hleaf
  | null | bool _ | int _ | float _ | str _ | list _ | service _ => rw [merged]; exact nofun

theorem get?_mergeEntries (h : OrderedMap.Distinct t) (base : OrderedMap Value) (key : String) :
    (mergeEntries base t).get? key = match t.get? key with
      | none => base.get? key
      | some v => some (merged (base.get? key) v) := by
  induction t generalizing base with
  | nil => rw [mergeEntries, OrderedMap.get?_nil]
  | cons e rest ih =>
    obtain ⟨k, v⟩ := e
    obtain ⟨hk, hrest⟩ := List.nodup_cons.mp h
    rw [mergeEntries, ih hrest, OrderedMap.get?, OrderedMap.get?_insert]
    by_cases hkey : k = key
    · subst hkey
      have hnone : OrderedMap.get? rest k = none := OrderedMap.get?_eq_none_iff.mpr hk
      rw [hnone, if_pos rfl, if_pos rfl]
    · rw [if_neg hkey, if_neg hkey]

/-- a leaf laid over a map hides what was there -/
theorem get?_mergeEntries_of_leaf (h : OrderedMap.Distinct t) (base : OrderedMap Value) {key : String}
    (hleaf : ∀ v, t.get? key = some v → v.entries? = none) :
    (mergeEntries base t).get? key = (t.get? key).or (base.get? key) := by
  rw [get?_mergeEntries h]
  cases hkey : t.get? key with
  | none => rw [Option.none_or]
  | some v => exact congrArg some (merged_of_leaf (hleaf v hkey) _)

theorem distinct_mergeEntries (h : OrderedMap.Distinct base) (t : OrderedMap Value) :
    OrderedMap.Distinct (mergeEntries base t) := by
  induction t generalizing base with
  | nil => exact h
  | cons e rest ih => exact ih (h.insert e.1 _)

theorem mem_keys_mergeEntries {key : String} :
    key ∈ OrderedMap.keys (mergeEntries base t) ↔
      key ∈ OrderedMap.keys base ∨ key ∈ OrderedMap.keys t := by
  induction t generalizing base with
  | nil => simp [mergeEntries, OrderedMap.keys]
  | cons e rest ih =>
    obtain ⟨k, v⟩ := e
    rw [mergeEntries, ih, OrderedMap.mem_keys_insert, or_comm (a := key = k), or_assoc]
    simp only [OrderedMap.keys, List.map_cons, List.mem_cons]

theorem mergeEntries_of_distinct (h : OrderedMap.Distinct (base ++ t)) :
    mergeEntries base t = base ++ t := by
  induction t generalizing base with
  | nil => rw [mergeEntries, List.append_nil]
  | cons e rest ih =>
    obtain ⟨k, v⟩ := e
    have hfresh : k ∉ OrderedMap.keys base := by
      unfold OrderedMap.Distinct OrderedMap.keys at h
      rw [List.map_append, List.map_cons, List.nodup_append] at h
      exact fun hk => h.2.2 k hk k (List.mem_cons_self ..) rfl
    have hmerged : merged (OrderedMap.get? base k) v = v := by
      rw [OrderedMap.get?_eq_none_iff.mpr hfresh]
      cases v with
      | map es => simp [merged]
      | null | bool _ | int _ | float _ | str _ | list _ | service _ => exact merged_of_leaf rfl none
    have hswap : base ++ (k, v) :: rest = (base ++ [(k, v)]) ++ rest := by
      rw [List.append_assoc, List.singleton_append]
    rw [mergeEntries, hmerged, OrderedMap.insert_of_not_mem hfresh]
    rw [hswap] at h ⊢
    exact ih h

theorem mergeEntries_nil (h : t.Distinct) : mergeEntries [] t = t :=
  mergeEntries_of_distinct h

/-- a leaf is found where it was, whatever it is laid over -/
theorem walk?_mergeEntries (hkeyed : (map t).keyed = true) (hpath : path ≠ []) (hleaf : v.entries? = none)
    (h : (map t).walk? path = some v) (base : OrderedMap Value) :
    (map (mergeEntries base t)).walk? path = some v := by
  induction path generalizing t base with
  | nil => exact absurd rfl hpath
  | cons key rest ih =>
    rw [walk?_cons, Option.bind_eq_some_iff] at h
    obtain ⟨u, hu, hwalk⟩ := h
    rw [walk?_cons, get?_mergeEntries (keyed_map_iff.mp hkeyed).1, hu]
    show (merged (base.get? key) u).walk? rest = some v
    cases rest with
    | nil =>
      cases hwalk
      rw [merged_of_leaf hleaf, walk?]
    | cons next rest =>
      obtain ⟨es, rfl⟩ := exists_map_of_walk? (List.cons_ne_nil _ _) hwalk
      have hes : (map es).keyed = true := keyed_of_get? hkeyed hu
      cases hbase : base.get? key with
      | none => exact hwalk
      | some old =>
        cases old with
        | map inner => exact ih hes (List.cons_ne_nil _ _) hwalk inner
        | null | bool _ | int _ | float _ | str _ | list _ | service _ => exact hwalk

end Value

namespace Parameters

variable {p q : Parameters} {key : String} {v : Value}

/-- a tree that grew by setting dotted keys: no map repeats a key, and no key of the top level has a
dot -/
structure Collected (p : Parameters) : Prop where
  keyed : (Value.map p.tree).keyed = true
  undotted : ∀ key ∈ OrderedMap.keys p.tree, '.' ∉ key.toList

theorem Collected.empty : Collected (ofTree []) := ⟨rfl, fun _ h => nomatch h⟩

theorem Collected.set (h : p.Collected) (hv : v.keyed = true) (key : String) : (p.set key v).Collected := by
  refine ⟨Value.keyed_setAt h.keyed hv (keyPath key), fun top htop => ?_⟩
  obtain ⟨u, hu⟩ := OrderedMap.exists_get?_of_mem_keys htop
  change (Value.setAt p.tree (keyPath key) v).get? top = some u at hu
  have hpart : ∀ part ∈ keyPath key, '.' ∉ part.toList := fun part => not_mem_of_mem_keyPath
  cases hpath : keyPath key with
  | nil => exact absurd hpath (keyPath_ne_nil key)
  | cons first rest =>
    rw [hpath] at hu hpart
    by_cases hfirst : first = top
    · exact hfirst ▸ hpart first List.mem_cons_self
    · rw [Value.get?_setAt_of_ne hfirst] at hu
      exact h.undotted top (OrderedMap.mem_keys_of_get? hu)

theorem walk?_set (p : Parameters) (key : String) (v : Value) :
    (Value.map (p.set key v).tree).walk? (keyPath key) = some v :=
  Value.walk?_setAt (keyPath_ne_nil key) p.tree v

theorem walk?_set_of_apart {other : String} {w : Value} (hother : ¬ Overlaps key other)
    (h : (Value.map p.tree).walk? (keyPath key) = some v) :
    (Value.map (p.set other w).tree).walk? (keyPath key) = some v :=
  (Value.walk?_setAt_of_apart (fun hp => hother (overlaps_iff.mpr (.inl hp)))
    (fun hp => hother (overlaps_iff.mpr (.inr hp))) p.tree w).trans h

/-- A leaf of a collected tree after the tree was laid over another: the other one shows only where its
top level has the dotted key as a whole. -/
theorem raw?_merge (hq : q.Collected) (hleaf : v.entries? = none)
    (h : (Value.map q.tree).walk? (keyPath key) = some v) :
    (p.merge q.tree).raw? key =
      (if '.' ∈ key.toList then OrderedMap.get? p.tree key else none).or (some v) := by
  have hdistinct := (Value.keyed_map_iff.mp hq.keyed).1
  have hwalk := Value.walk?_mergeEntries hq.keyed (keyPath_ne_nil key) hleaf h p.tree
  have htop : OrderedMap.get? (p.merge q.tree).tree key = _ := Value.get?_mergeEntries hdistinct p.tree key
  rw [raw?, htop]
  by_cases hdot : '.' ∈ key.toList
  · have habsent : OrderedMap.get? q.tree key = none :=
      OrderedMap.get?_eq_none_iff.mpr fun hmem => hq.undotted key hmem hdot
    have hmerged : (p.merge q.tree).tree = Value.mergeEntries p.tree q.tree := rfl
    rw [if_pos hdot, habsent, hmerged, hwalk]
    cases OrderedMap.get? p.tree key <;> rfl
  · have hpresent : OrderedMap.get? q.tree key = some v := by
      rw [keyPath_of_not_mem hdot, Value.walk?_cons, Option.bind_eq_some_iff] at h
      obtain ⟨u, hu, hend⟩ := h
      cases hend
      exact hu
    rw [if_neg hdot, hpresent, Option.none_or]
    show some (Value.merged (OrderedMap.get? p.tree key) v) = some v
    rw [Value.merged_of_leaf hleaf]

end Parameters
end ServiceGraph
