import Mathlib.Data.List.Forall2
import ServiceGraph.OrderedMap

/-!
# Outcomes and pairings, element by element

* `Except.bind_eq_ok`, `Except.map_eq_ok_iff`, `Except.mapError_eq_ok`: steps that succeed;
* `Except.mapM_eq_ok_iff`, `Option.mapM_eq_some_iff`: a step for each element of a list, all of which
  succeed; `Except.mapM_eq_error`: one of them fails;
* `exists_mem_of_forall₂`, `forall_mem_of_forall₂`, `map_eq_of_forall₂`: what stands in pairs, and what all
  pairs have in common;
* `exists_forall₂_iff`: a list of partners is a partner for each element;
* `OrderedMap.get?_rel`: maps with the same keys, key by key.
-/

namespace ServiceGraph

theorem Except.bind_eq_ok {ε α β : Type} {x : Except ε α} {f : α → Except ε β} {b : β}
    (h : (x >>= f) = .ok b) : ∃ a, x = .ok a ∧ f a = .ok b := by
  cases x with
  | error e => cases h
  | ok a => exact ⟨a, rfl, h⟩

theorem Except.map_eq_ok_iff {ε α β : Type} {x : Except ε α} {f : α → β} {b : β} :
    x.map f = .ok b ↔ ∃ a, x = .ok a ∧ f a = b := by
  cases x with
  | error e => exact ⟨nofun, fun ⟨_, ha, _⟩ => nomatch ha⟩
  | ok a =>
    constructor
    · exact fun h => ⟨a, rfl, Except.ok.inj h⟩
    · rintro ⟨_, ha, rfl⟩
      cases ha
      rfl

theorem Except.mapError_eq_ok {ε δ α : Type} {x : Except ε α} {f : ε → δ} {a : α}
    (h : x.mapError f = .ok a) : x = .ok a := by
  cases x with
  | error e => cases h
  | ok b =>
    cases h
    rfl

theorem Except.mapM_eq_ok_iff {ε α β : Type} {f : α → Except ε β} {as : List α} {bs : List β} :
    as.mapM f = .ok bs ↔ List.Forall₂ (fun a b => f a = .ok b) as bs := by
  induction as generalizing bs with
  | nil =>
    rw [List.mapM_nil, List.forall₂_nil_left_iff]
    exact ⟨fun h => (Except.ok.inj h).symm, fun h => h ▸ rfl⟩
  | cons a as ih =>
    rw [List.mapM_cons, List.forall₂_cons_left_iff]
    constructor
    · intro h
      obtain ⟨b, hb, h⟩ := Except.bind_eq_ok h
      obtain ⟨rest, hrest, h⟩ := Except.bind_eq_ok h
      exact ⟨b, rest, hb, ih.mp hrest, (Except.ok.inj h).symm⟩
    · rintro ⟨b, rest, hb, hrest, rfl⟩
      rw [hb, ih.mpr hrest]
      rfl

/-- when a list of steps fails, one of the steps fails so -/
theorem Except.mapM_eq_error {ε α β : Type} {f : α → Except ε β} {as : List α} {e : ε}
    (h : as.mapM f = .error e) : ∃ a ∈ as, f a = .error e := by
  induction as with
  | nil =>
    rw [List.mapM_nil] at h
    cases h
  | cons a as ih =>
    rw [List.mapM_cons] at h
    cases ha : f a with
    | error failed =>
      rw [ha] at h
      cases h
      exact ⟨a, List.mem_cons_self, ha⟩
    | ok b =>
      rw [ha] at h
      cases hrest : as.mapM f with
      | error failed =>
        rw [hrest] at h
        cases h
        obtain ⟨a', hmem, hfailed⟩ := ih hrest
        exact ⟨a', List.mem_cons_of_mem a hmem, hfailed⟩
      | ok bs =>
        rw [hrest] at h
        cases h

theorem Option.mapM_eq_some_iff {α β : Type} {f : α → Option β} {as : List α} {bs : List β} :
    as.mapM f = some bs ↔ List.Forall₂ (fun a b => f a = some b) as bs := by
  induction as generalizing bs with
  | nil =>
    rw [List.mapM_nil, List.forall₂_nil_left_iff]
    exact ⟨fun h => (Option.some.inj h).symm, fun h => h ▸ rfl⟩
  | cons a as ih =>
    rw [List.mapM_cons, List.forall₂_cons_left_iff]
    constructor
    · intro h
      obtain ⟨b, hb, h⟩ := Option.bind_eq_some_iff.mp h
      obtain ⟨rest, hrest, h⟩ := Option.bind_eq_some_iff.mp h
      exact ⟨b, rest, hb, ih.mp hrest, (Option.some.inj h).symm⟩
    · rintro ⟨b, rest, hb, hrest, rfl⟩
      rw [hb, ih.mpr hrest]
      rfl

/-- what stands on the right of a pairing is paired with something -/
theorem exists_mem_of_forall₂ {α β : Type} {R : α → β → Prop} {l : List α} {ys : List β}
    (h : List.Forall₂ R l ys) : ∀ b ∈ ys, ∃ a ∈ l, R a b := by
  induction h with
  | nil => exact nofun
  | @cons a b _ _ hab _ ih =>
    refine List.forall_mem_cons.mpr ⟨⟨a, List.mem_cons_self, hab⟩, fun b' hb' => ?_⟩
    obtain ⟨a', ha', hR⟩ := ih b' hb'
    exact ⟨a', List.mem_cons_of_mem _ ha', hR⟩

theorem forall_mem_of_forall₂ {α β : Type} {R : α → β → Prop} {P : β → Prop} {l : List α}
    {ys : List β} (h : List.Forall₂ R l ys) (hP : ∀ a b, R a b → P b) : ∀ b ∈ ys, P b := by
  intro b hb
  obtain ⟨a, -, hR⟩ := exists_mem_of_forall₂ h b hb
  exact hP a b hR

/-- what pairs have in common -/
theorem map_eq_of_forall₂ {α β γ : Type} {R : α → β → Prop} {f : α → γ} {g : β → γ} {l : List α}
    {ys : List β} (h : List.Forall₂ R l ys) (hfg : ∀ a b, R a b → f a = g b) :
    l.map f = ys.map g := by
  induction h with
  | nil => rfl
  | cons hab _ ih => rw [List.map_cons, List.map_cons, hfg _ _ hab, ih]

/-- all can be paired when each can -/
theorem exists_forall₂_iff {α β : Type} {R : α → β → Prop} {as : List α} :
    (∃ bs, List.Forall₂ R as bs) ↔ ∀ a ∈ as, ∃ b, R a b := by
  induction as with
  | nil => exact ⟨fun _ => nofun, fun _ => ⟨[], .nil⟩⟩
  | cons a as ih =>
    rw [List.forall_mem_cons, ← ih]
    constructor
    · rintro ⟨_, hfirst | ⟨hfirst, hrest⟩⟩
      exact ⟨⟨_, hfirst⟩, _, hrest⟩
    · rintro ⟨⟨b, hfirst⟩, bs, hrest⟩
      exact ⟨b :: bs, .cons hfirst hrest⟩

theorem Except.exists_mapM_iff {ε α β : Type} {f : α → Except ε β} {as : List α} :
    (∃ bs, as.mapM f = .ok bs) ↔ ∀ a ∈ as, ∃ b, f a = .ok b := by
  simp only [Except.mapM_eq_ok_iff, exists_forall₂_iff]

/-- two maps with the same keys, key by key -/
theorem OrderedMap.get?_rel {α β : Type} {R : String → α → β → Prop} {m : OrderedMap α}
    {m' : OrderedMap β} (h : List.Forall₂ (fun p q => q.1 = p.1 ∧ R p.1 p.2 q.2) m m')
    (key : String) : Option.Rel (R key) (m.get? key) (m'.get? key) := by
  induction h with
  | nil => exact .none
  | @cons p q m m' hpq _ ih =>
    obtain ⟨k, v⟩ := p
    obtain ⟨k', w⟩ := q
    obtain ⟨rfl, hvw⟩ := hpq
    rw [OrderedMap.get?, OrderedMap.get?]
    by_cases hk : k' = key
    · rw [if_pos hk, if_pos hk, ← hk]
      exact .some hvw
    · rw [if_neg hk, if_neg hk]
      exact ih

end ServiceGraph
