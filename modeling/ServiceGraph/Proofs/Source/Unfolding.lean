import ServiceGraph.Proofs.Grounded
import ServiceGraph.Proofs.Routes.Revived
import ServiceGraph.Proofs.Source.Compilable

/-!
# Live objects inside each other

A live object is written as its exported state, and so are the objects in that state. An object can be changed
after others took hold of it, so what one object holds need not be a tree.

* `Heap.Holds`: an object is in the exported state of another one; `Heap.Sound`: only objects that are there are;
* `Heap.Passed`: the objects on the way to one, of which there are no more than objects on the heap;
* `Term.isSome_ofObject_iff`: an object has a term when no walk from it comes to a circle;
* `Term.ofObject_eq_some_iff`: with more room an object has the same term;
* `Heap.not_circular_of_earlier`: objects made of earlier ones are in no circle; `Heap.circular_of_add`: a call
  of `add` that closes one.
-/

set_option linter.unusedSectionVars false

namespace ServiceGraph

open Relation

variable {σ : Type} {s : Services σ} {h : Heap σ} {x y : ObjectId}

namespace Heap

/-- the exported state of the first object refers to the second one -/
def Holds (s : Services σ) (h : Heap σ) (x y : ObjectId) : Prop := y ∈ (h.exportedBy s x).objects

/-- the objects that exported states refer to are on the heap -/
def Sound (s : Services σ) (h : Heap σ) : Prop := ∀ x y, h.Holds s x y → y.index < h.objects.length

theorem sound_iff :
    h.Sound s ↔ ∀ o ∈ h.objects, ∀ y ∈ (o.exported s).objects, y.index < h.objects.length := by
  constructor
  · intro hsound o ho y hy
    obtain ⟨i, hi⟩ := List.mem_iff_getElem?.mp ho
    refine hsound ⟨i⟩ y ?_
    rw [Holds, exportedBy, get?, hi]
    exact hy
  · intro hall x y hy
    rw [Holds, exportedBy] at hy
    cases hx : h.get? x with
    | none =>
      rw [hx] at hy
      cases hy
    | some o =>
      rw [hx] at hy
      exact hall o (List.mem_of_getElem? hx) y hy

instance : Decidable (h.Sound s) := decidable_of_iff _ sound_iff.symm

/-- different objects, each of which leads to `x` -/
structure Passed (s : Services σ) (h : Heap σ) (passed : List ObjectId) (x : ObjectId) : Prop where
  nodup : passed.Nodup
  there : ∀ y ∈ passed, y.index < h.objects.length
  leads : ∀ y ∈ passed, TransGen (h.Holds s) y x

theorem Passed.nil (x : ObjectId) : h.Passed s [] x := ⟨List.nodup_nil, nofun, nofun⟩

theorem length_le_of_nodup {ids : List ObjectId} (hnodup : ids.Nodup)
    (hthere : ∀ y ∈ ids, y.index < h.objects.length) : ids.length ≤ h.objects.length := by
  have hindices : (ids.map ObjectId.index).Nodup := hnodup.map fun a b hab => by
    cases a
    cases b
    exact congrArg ObjectId.mk hab
  have hsubset : ids.map ObjectId.index ⊆ List.range h.objects.length :=
    List.forall_mem_map.mpr fun y hy => List.mem_range.mpr (hthere y hy)
  have hle := (hindices.subperm hsubset).length_le
  rwa [List.length_map, List.length_range] at hle

section
variable {passed : List ObjectId} (hpassed : h.Passed s passed x) (hx : x.index < h.objects.length)
  (hcircle : ¬ Circular (h.Holds s) x)
include hpassed hx hcircle

/-- an object that does not lead back to itself is a new one -/
theorem Passed.nodup_cons : (x :: passed).Nodup :=
  List.nodup_cons.mpr ⟨fun hmem => hcircle ⟨x, .refl, hpassed.leads x hmem⟩, hpassed.nodup⟩

theorem Passed.length_lt : passed.length < h.objects.length :=
  length_le_of_nodup (hpassed.nodup_cons hx hcircle) (List.forall_mem_cons.mpr ⟨hx, hpassed.there⟩)

theorem Passed.step (hy : h.Holds s x y) : h.Passed s (x :: passed) y where
  nodup := hpassed.nodup_cons hx hcircle
  there := List.forall_mem_cons.mpr ⟨hx, hpassed.there⟩
  leads := List.forall_mem_cons.mpr ⟨.single hy, fun z hz => (hpassed.leads z hz).tail hy⟩

end

end Heap

/-! ## terms of objects -/

namespace Term

theorem isSome_unfold_succ (room : Nat) :
    (unfold s h (room + 1) x).isSome = true ↔ ∀ y, h.Holds s x y → (unfold s h room y).isSome = true := by
  rw [unfold, Option.isSome_map, isSome_ofValueWith]
  rfl

theorem grounded_of_unfold {room : Nat} (hterm : (unfold s h room x).isSome = true) :
    Grounded (h.Holds s) x := by
  induction room generalizing x with
  | zero => cases hterm
  | succ room ih => exact .intro fun y hy => ih ((isSome_unfold_succ room).mp hterm y hy)

/-- room for the objects that are not passed yet is enough -/
theorem isSome_unfold (hsound : h.Sound s) {passed : List ObjectId} (hpassed : h.Passed s passed x)
    (hx : x.index < h.objects.length) (hcircle : ¬ Circular (h.Holds s) x) {room : Nat}
    (hroom : h.objects.length ≤ room + passed.length) : (unfold s h room x).isSome = true := by
  induction room generalizing x passed with
  | zero =>
    have hlt : passed.length < h.objects.length := hpassed.length_lt hx hcircle
    omega
  | succ room ih =>
    refine (isSome_unfold_succ room).mpr fun y hy => ?_
    refine ih (hpassed.step hx hcircle hy) (hsound x y hy) ?_ ?_
    · rintro ⟨z, hyz, hzz⟩
      exact hcircle ⟨z, .head hy hyz, hzz⟩
    · rw [List.length_cons]
      omega

/-- **The objects that have terms**: those from which no walk comes to a circle -/
theorem isSome_ofObject_iff (hsound : h.Sound s) (hx : x.index < h.objects.length) :
    (ofObject s h x).isSome = true ↔ ¬ Circular (h.Holds s) x :=
  ⟨fun hterm => (grounded_of_unfold hterm).not_circular,
    fun hcircle => isSome_unfold hsound (.nil x) hx hcircle (Nat.le_refl _)⟩

/-! ## more room -/

section
variable {object object' : ObjectId → Option Term} (hle : ∀ x t, object x = some t → object' x = some t)
include hle

mutual

theorem ofValueWith_mono {v : Value} {t : Term} (ht : ofValueWith object v = some t) :
    ofValueWith object' v = some t := by
  cases v with
  | null | bool _ | int _ | float _ | str _ => exact ht
  | list items =>
    obtain ⟨ts, hts, rfl⟩ := ofValueWith_list ht
    rw [ofValueWith, ofItems_mono hts]
    rfl
  | map entries =>
    obtain ⟨es, hes, rfl⟩ := ofValueWith_map ht
    rw [ofValueWith, ofEntries_mono hes]
    rfl
  | service id => exact hle id t ht

theorem ofItems_mono {vs : List Value} {ts : List Term} (hts : ofItems object vs = some ts) :
    ofItems object' vs = some ts := by
  cases vs with
  | nil => exact hts
  | cons v vs =>
    obtain ⟨t, us, ht, hus, rfl⟩ := ofItems_cons hts
    rw [ofItems, ofValueWith_mono ht, ofItems_mono hus]
    rfl

theorem ofEntries_mono {vs : List (String × Value)} {es : List (String × Term)}
    (hes : ofEntries object vs = some es) : ofEntries object' vs = some es := by
  cases vs with
  | nil => exact hes
  | cons e vs =>
    obtain ⟨k, v⟩ := e
    obtain ⟨t, us, ht, hus, rfl⟩ := ofEntries_cons hes
    rw [ofEntries, ofValueWith_mono ht, ofEntries_mono hus]
    rfl

end

end

theorem unfold_succ {room : Nat} {t : Term} (ht : unfold s h room x = some t) :
    unfold s h (room + 1) x = some t := by
  induction room generalizing x t with
  | zero => cases ht
  | succ room ih =>
    obtain ⟨state, hstate, rfl⟩ := Option.map_eq_some_iff.mp ht
    rw [unfold, ofValueWith_mono (fun y u => ih) hstate]
    rfl

theorem unfold_le {room room' : Nat} (hroom : room ≤ room') {t : Term} (ht : unfold s h room x = some t) :
    unfold s h room' x = some t := by
  induction hroom with
  | refl => exact ht
  | step _ ih => exact unfold_succ ih

/-- an object has a term when some room is enough, and then it is that term -/
theorem ofObject_eq_some_iff (hsound : h.Sound s) (hx : x.index < h.objects.length) {t : Term} :
    ofObject s h x = some t ↔ ∃ room, unfold s h room x = some t := by
  refine ⟨fun ht => ⟨_, ht⟩, fun ⟨room, ht⟩ => ?_⟩
  have hcircle : ¬ Circular (h.Holds s) x :=
    (grounded_of_unfold (Option.isSome_of_eq_some ht)).not_circular
  obtain ⟨u, hu⟩ := Option.isSome_iff_exists.mp ((isSome_ofObject_iff hsound hx).mpr hcircle)
  have hsame : some u = some t :=
    (unfold_le (Nat.le_add_right _ room) hu).symm.trans (unfold_le (Nat.le_add_left room _) ht)
  exact hu.trans hsame

end Term

/-! ## circles -/

namespace Heap

section
variable (hearlier : ∀ x y, h.Holds s x y → y.index < x.index)
include hearlier

/-- objects that were made of earlier ones, and not changed since, are in no circle -/
theorem not_circular_of_earlier : ¬ Circular (h.Holds s) x := by
  rintro ⟨y, -, hcycle⟩
  have hdown : ∀ z, TransGen (h.Holds s) y z → z.index < y.index := by
    intro z hz
    induction hz with
    | single hstep => exact hearlier _ _ hstep
    | tail _ hstep ih => exact Nat.lt_trans (hearlier _ _ hstep) ih
  exact Nat.lt_irrefl _ (hdown y hcycle)

theorem sound_of_earlier : h.Sound s := by
  intro x y hy
  have hlt : y.index < x.index := hearlier x y hy
  cases hx : h.get? x with
  | none =>
    rw [Holds, exportedBy, hx] at hy
    cases hy
  | some o => exact Nat.lt_trans hlt (lt_of_get? hx)

end

theorem mem_objectsOfItems {vs : List Value} {v : Value} (hv : v ∈ vs) (hy : y ∈ v.objects) :
    y ∈ Value.objectsOfItems vs := by
  induction hv with
  | head vs => exact List.mem_append_left _ hy
  | tail v _ ih => exact List.mem_append_right _ ih

/-- a collection holds its handlers -/
theorem holds_handler {t : Router} (hx : h.get? x = some (.router t)) {r : LiveRoute} (hr : r ∈ t)
    (hy : y ∈ r.handler.objects) : h.Holds s x y := by
  rw [Holds, exportedBy, hx]
  refine mem_objectsOfItems (List.mem_map_of_mem hr) ?_
  exact mem_objectsOfItems (v := r.handler) (by simp [LiveRoute.toArgs]) hy

/-- **How circles come about.** Adding a route to a collection makes the collection circular when the handler
leads back to the collection, and so it does when the handler is the collection itself. -/
theorem circular_of_add {t : Router} (hx : h.get? x = some (.router t)) {args : List Value} {r : LiveRoute}
    (hargs : LiveRoute.ofArgs args = .ok r) (hy : y ∈ r.handler.objects)
    (hback : ReflTransGen ((h.invoke s (.service x) "add" args).2.Holds s) y x) :
    Circular ((h.invoke s (.service x) "add" args).2.Holds s) x := by
  have hafter : (h.invoke s (.service x) "add" args).2.get? x = some (.router (t ++ [r])) := by
    rw [invoke_router hx, Router.call_add_of_ok hargs]
    exact get?_put_self (lt_of_get? hx) _
  exact ⟨x, .refl, .head' (holds_handler hafter (List.mem_append_right _ List.mem_cons_self) hy) hback⟩

end Heap
end ServiceGraph
