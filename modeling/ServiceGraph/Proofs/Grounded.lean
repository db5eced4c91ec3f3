import Mathlib.Data.List.Chain
import Mathlib.Logic.Relation

/-!
# Walks that end and walks that go in circles

* `Grounded r a`: every walk along `r` from `a` ends;
* `Circular r a`: some walk from `a` comes to a point that leads back to itself;
* `Grounded.not_circular`: not both;
* `ClosedPath r path`: a walk that ends where it starts and repeats nothing else;
* `closedPath_of_return`: a walk that comes back to one of its points closes a path;
* `nodup_of_isChain`: a walk without a choice that ends in a new point repeats nothing.
-/

namespace ServiceGraph

open Relation

variable {α : Type} {r : α → α → Prop} {a b : α}

/-- every walk from `a` ends -/
def Grounded (r : α → α → Prop) (a : α) : Prop := Acc (fun b a => r a b) a

/-- some walk from `a` comes to a point that leads back to itself -/
def Circular (r : α → α → Prop) (a : α) : Prop := ∃ b, ReflTransGen r a b ∧ TransGen r b b

theorem Grounded.intro (h : ∀ b, r a b → Grounded r b) : Grounded r a := Acc.intro a h

theorem Grounded.step (h : Grounded r a) (hb : r a b) : Grounded r b := Acc.inv h hb

theorem Grounded.reach (h : Grounded r a) (hb : ReflTransGen r a b) : Grounded r b := by
  induction hb with
  | refl => exact h
  | tail _ hbc ih => exact ih.step hbc

theorem Grounded.not_transGen (h : Grounded r a) : ¬ TransGen r a a := by
  induction h with
  | intro a _ ih =>
    intro hcycle
    -- the first point of the cycle is on the cycle as well
    obtain ⟨b, hab, hba⟩ := TransGen.head'_iff.mp hcycle
    exact ih b hab (TransGen.tail' hba hab)

theorem Grounded.not_reach (h : Grounded r a) (hb : TransGen r b a) : ¬ ReflTransGen r a b :=
  fun hab => h.not_transGen (TransGen.trans_right hab hb)

theorem Grounded.not_circular (h : Grounded r a) : ¬ Circular r a :=
  fun ⟨_, hab, hbb⟩ => (h.reach hab).not_transGen hbb

/-! ## closed paths -/

/-- a path along `r` that starts and ends at the same point and repeats no other -/
def ClosedPath (r : α → α → Prop) (path : List α) : Prop :=
  ∃ first others, path = first :: (others ++ [first]) ∧ (first :: others).Nodup ∧ path.IsChain r

theorem transGen_of_isChain {others : List α} (h : (a :: (others ++ [b])).IsChain r) :
    TransGen r a b := by
  have hpairs : (a :: (others ++ [b])).Pairwise (TransGen r) :=
    (h.imp fun _ _ => TransGen.single).pairwise
  exact (List.pairwise_cons.mp hpairs).1 b (List.mem_append_right _ (List.mem_singleton_self _))

theorem ClosedPath.exists_transGen {path : List α} (h : ClosedPath r path) :
    ∃ a ∈ path, TransGen r a a := by
  obtain ⟨first, others, rfl, -, hchain⟩ := h
  exact ⟨first, List.mem_cons_self, transGen_of_isChain hchain⟩

theorem ClosedPath.mono {r' : α → α → Prop} (hle : ∀ a b, r a b → r' a b) {path : List α}
    (h : ClosedPath r path) : ClosedPath r' path := by
  obtain ⟨first, others, hpath, hnodup, hchain⟩ := h
  exact ⟨first, others, hpath, hnodup, hchain.imp hle⟩

/-- the part of a list from the first occurrence of an element on -/
theorem exists_dropWhile_of_mem [DecidableEq α] {path : List α} (ha : a ∈ path) :
    ∃ before others, path = before ++ a :: others ∧ path.dropWhile (· ≠ a) = a :: others := by
  obtain ⟨before, others, rfl, hbefore⟩ := List.eq_append_cons_of_mem ha
  refine ⟨before, others, rfl, ?_⟩
  rw [List.dropWhile_append_of_pos]
  · simp
  · intro i hi
    have hne : i ≠ a := fun heq => hbefore (heq ▸ hi)
    simp [hne]

/-- the part of a walk from where it comes back to -/
theorem closedPath_of_return [DecidableEq α] {path : List α} (hnodup : path.Nodup)
    (hchain : (path ++ [a]).IsChain r) (ha : a ∈ path) :
    ClosedPath r (path.dropWhile (· ≠ a) ++ [a]) := by
  obtain ⟨before, others, rfl, hdrop⟩ := exists_dropWhile_of_mem ha
  rw [hdrop]
  have hsuffix : (before ++ (a :: others ++ [a])).IsChain r := by
    rw [← List.append_assoc]
    exact hchain
  exact ⟨a, others, rfl, (List.nodup_append.mp hnodup).2.1, hsuffix.right_of_append⟩

theorem transGen_of_mem {path : List α} (hchain : (path ++ [b]).IsChain r) (ha : a ∈ path) :
    TransGen r a b := by
  obtain ⟨before, others, rfl⟩ := List.append_of_mem ha
  rw [List.append_assoc] at hchain
  exact transGen_of_isChain hchain.right_of_append

/-! ## walks without a choice -/

section
variable (hstep : ∀ a b c, r a b → r a c → b = c)
include hstep

/-- there is one way to a point that is not passed before -/
theorem eq_of_isChain {s t : List α} (hs : (a :: (s ++ [b])).IsChain r)
    (ht : (a :: (t ++ [b])).IsChain r) (hbs : b ∉ s) (hbt : b ∉ t) : s = t := by
  induction s generalizing a t with
  | nil =>
    cases t with
    | nil => rfl
    | cons y t =>
      have hy : b = y := hstep a b y (List.isChain_cons_cons.mp hs).1 (List.isChain_cons_cons.mp ht).1
      exact absurd (hy ▸ List.mem_cons_self) hbt
  | cons x s ih =>
    obtain ⟨hx, hs⟩ := List.isChain_cons_cons.mp hs
    cases t with
    | nil =>
      have hxb : x = b := hstep a x b hx (List.isChain_cons_cons.mp ht).1
      exact absurd (hxb ▸ List.mem_cons_self) hbs
    | cons y t =>
      obtain ⟨hy, ht⟩ := List.isChain_cons_cons.mp ht
      cases hstep a x y hx hy
      rw [ih hs ht (fun h => hbs (List.mem_cons_of_mem _ h)) fun h => hbt (List.mem_cons_of_mem _ h)]

theorem nodup_of_isChain {path : List α} (hchain : (path ++ [b]).IsChain r) (hb : b ∉ path) :
    (path ++ [b]).Nodup := by
  induction path with
  | nil => exact List.nodup_cons.mpr ⟨List.not_mem_nil, List.nodup_nil⟩
  | cons a rest ih =>
    have hrest : b ∉ rest := fun h => hb (List.mem_cons_of_mem _ h)
    refine List.nodup_cons.mpr ⟨fun ha => ?_, ih (List.IsChain.tail hchain) hrest⟩
    rcases List.mem_append.mp ha with ha | ha
    · -- from its second occurrence on there would be a shorter way to the end
      obtain ⟨before, others, rfl⟩ := List.append_of_mem ha
      have hshort : (a :: (others ++ [b])).IsChain r := by
        have htail : (before ++ (a :: (others ++ [b]))).IsChain r := by
          simpa using List.IsChain.tail hchain
        exact htail.right_of_append
      have hsame : before ++ a :: others = others :=
        eq_of_isChain hstep hchain hshort hrest fun h => hrest (by simp [h])
      have hlength := congrArg List.length hsame
      rw [List.length_append, List.length_cons] at hlength
      omega
    · cases List.mem_singleton.mp ha
      exact hb List.mem_cons_self

end

end ServiceGraph
