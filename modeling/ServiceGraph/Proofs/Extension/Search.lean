import ServiceGraph.Extension.Order
import Mathlib.Data.List.Nodup
import Mathlib.Data.List.Perm.Subperm

/-!
# The search for the order of extensions, without a bound

`Sorting.visit` carries room for the depth of the search. The rules of the search are given here
without it.

* `Sorting.Ensured`: the four ways to make sure of a dependency;
* `Sorting.Search catalog path waiting ds s r t`: visiting the dependencies `ds` of the name
  `waiting`, while the names on `path` wait, leads from the state `s` to `t` with the outcome `r`;
* `Sorting.Search.unique`: there is at most one outcome;
* `Sorting.search_of_visitAll`: with room for all the names there are, visiting does what the search
  does, so that the search ends.
-/

namespace ServiceGraph

namespace Sorting

variable {σ : Type} {catalog : Catalog σ} {path : List String} {waiting name : String}
  {d : Dependency} {ds : List Dependency} {s t u : Sorting σ} {r r' : Except ExtensionError Unit}

/-! ## making sure of a dependency -/

/-- a dependency is in the pool, or is built and put there, or cannot be had -/
inductive Ensured (catalog : Catalog σ) (waiting : String) (d : Dependency) (s : Sorting σ) :
    Except ExtensionError Unit → Sorting σ → Prop where
  | known : d.name ∈ s.pool.keys → Ensured catalog waiting d s (.ok ()) s
  | built {build : Value → σ → Except ExtensionError (Extension σ) × σ} {e : Extension σ}
    {journal : σ} :
    d.name ∉ s.pool.keys → catalog.get? d.name = some build →
      build d.args s.journal = (.ok e, journal) →
      Ensured catalog waiting d s (.ok ()) ⟨s.pool ++ [(d.name, e)], s.order, journal⟩
  | missing :
    d.name ∉ s.pool.keys → catalog.get? d.name = none →
      Ensured catalog waiting d s (.error (.missing d.name waiting)) s
  | refused {build : Value → σ → Except ExtensionError (Extension σ) × σ} {e : ExtensionError}
    {journal : σ} :
    d.name ∉ s.pool.keys → catalog.get? d.name = some build →
      build d.args s.journal = (.error e, journal) →
      Ensured catalog waiting d s (.error e) ⟨s.pool, s.order, journal⟩

theorem ensured_of_ensure (h : ensure catalog waiting d s = (r, t)) :
    Ensured catalog waiting d s r t := by
  unfold ensure at h
  split at h
  · next hknown =>
    cases h
    exact .known (OrderedMap.contains_eq_true_iff.mp hknown)
  · next hunknown =>
    have hnew : d.name ∉ s.pool.keys := fun hm =>
      hunknown (OrderedMap.contains_eq_true_iff.mpr hm)
    split at h
    · next hnone =>
      cases h
      exact .missing hnew hnone
    · next build hbuild =>
      split at h
      · next e journal he =>
        cases h
        exact .refused hnew hbuild he
      · next e journal he =>
        cases h
        rw [OrderedMap.insert_of_not_mem hnew]
        exact .built hnew hbuild he

theorem Ensured.order_eq (h : Ensured catalog waiting d s r t) : t.order = s.order := by
  cases h <;> rfl

theorem Ensured.name_mem (h : Ensured catalog waiting d s (.ok ()) t) : d.name ∈ t.pool.keys := by
  cases h with
  | known hknown => exact hknown
  | built _ _ _ => simp [OrderedMap.keys]

def Grew (catalog : Catalog σ) (s t : Sorting σ) : Prop :=
  ∃ more, t.pool = s.pool ++ more ∧ more.keys ⊆ catalog.keys

theorem Grew.of_pool_eq (h : t.pool = s.pool) : Grew catalog s t :=
  ⟨[], by rw [h, List.append_nil], List.nil_subset _⟩

theorem Grew.trans (h : Grew catalog s t) (h' : Grew catalog t u) : Grew catalog s u := by
  obtain ⟨more, ht, hmore⟩ := h
  obtain ⟨more', hu, hmore'⟩ := h'
  refine ⟨more ++ more', by rw [hu, ht, List.append_assoc], ?_⟩
  rw [OrderedMap.keys, List.map_append]
  exact List.append_subset.mpr ⟨hmore, hmore'⟩

theorem Grew.subset (h : Grew catalog s t) : s.pool.keys ⊆ t.pool.keys := by
  obtain ⟨more, hpool, -⟩ := h
  rw [hpool, OrderedMap.keys, OrderedMap.keys, List.map_append]
  exact List.subset_append_left _ _

theorem Grew.keys_subset {names : List String} (h : Grew catalog s t)
    (hcatalog : catalog.keys ⊆ names) (hs : s.pool.keys ⊆ names) : t.pool.keys ⊆ names := by
  obtain ⟨more, hpool, hmore⟩ := h
  rw [hpool, OrderedMap.keys, List.map_append]
  exact List.append_subset.mpr ⟨hs, List.Subset.trans hmore hcatalog⟩

theorem Ensured.grew (h : Ensured catalog waiting d s r t) : Grew catalog s t := by
  cases h with
  | known _ => exact .of_pool_eq rfl
  | built _ hbuild _ =>
    refine ⟨_, rfl, ?_⟩
    simpa [OrderedMap.keys] using OrderedMap.mem_keys_of_get? hbuild
  | missing _ _ => exact .of_pool_eq rfl
  | refused _ _ _ => exact .of_pool_eq rfl

/-! ## the search -/

/-- dependencies are visited one after the other, each with the dependencies of its own first -/
inductive Search (catalog : Catalog σ) :
    List String → String → List Dependency → Sorting σ → Except ExtensionError Unit →
      Sorting σ → Prop where
  | done {path : List String} {waiting : String} {s : Sorting σ} :
    Search catalog path waiting [] s (.ok ()) s
  | unavailable {path : List String} {waiting : String} {d : Dependency} {ds : List Dependency}
    {s t : Sorting σ} {e : ExtensionError} :
    ensure catalog waiting d s = (.error e, t) →
      Search catalog path waiting (d :: ds) s (.error e) t
  | placed {path : List String} {waiting : String} {d : Dependency} {ds : List Dependency}
    {s t u : Sorting σ} {r : Except ExtensionError Unit} :
    ensure catalog waiting d s = (.ok (), t) → d.name ∈ t.order →
      Search catalog path waiting ds t r u → Search catalog path waiting (d :: ds) s r u
  | closed {path : List String} {waiting : String} {d : Dependency} {ds : List Dependency}
    {s t : Sorting σ} :
    ensure catalog waiting d s = (.ok (), t) → d.name ∉ t.order → d.name ∈ path →
      Search catalog path waiting (d :: ds) s
        (.error (.cyclicDependency (path.dropWhile (· ≠ d.name) ++ [d.name]))) t
  | failed {path : List String} {waiting : String} {d : Dependency} {ds : List Dependency}
    {s t u : Sorting σ} {e : ExtensionError} :
    ensure catalog waiting d s = (.ok (), t) → d.name ∉ t.order → d.name ∉ path →
      Search catalog (path ++ [d.name]) d.name (t.dependencies d.name) t (.error e) u →
      Search catalog path waiting (d :: ds) s (.error e) u
  | visited {path : List String} {waiting : String} {d : Dependency} {ds : List Dependency}
    {s t u v : Sorting σ} {r : Except ExtensionError Unit} :
    ensure catalog waiting d s = (.ok (), t) → d.name ∉ t.order → d.name ∉ path →
      Search catalog (path ++ [d.name]) d.name (t.dependencies d.name) t (.ok ()) u →
      Search catalog path waiting ds (u.place d.name) r v →
      Search catalog path waiting (d :: ds) s r v

theorem Search.unique (h : Search catalog path waiting ds s r t)
    (h' : Search catalog path waiting ds s r' u) : r = r' ∧ t = u := by
  -- each rule needs its own answer of `ensure`, and its own place of the name
  induction h generalizing r' u with
  | done =>
    cases h'
    exact ⟨rfl, rfl⟩
  | unavailable he =>
    cases h' with
    | unavailable he' =>
      cases he.symm.trans he'
      exact ⟨rfl, rfl⟩
    | placed he' _ _ => cases he.symm.trans he'
    | closed he' _ _ => cases he.symm.trans he'
    | failed he' _ _ _ => cases he.symm.trans he'
    | visited he' _ _ _ _ => cases he.symm.trans he'
  | placed he hin _ ih =>
    cases h' with
    | unavailable he' => cases he.symm.trans he'
    | placed he' _ hrest =>
      cases he.symm.trans he'
      exact ih hrest
    | closed he' hnew _ =>
      cases he.symm.trans he'
      exact absurd hin hnew
    | failed he' hnew _ _ =>
      cases he.symm.trans he'
      exact absurd hin hnew
    | visited he' hnew _ _ _ =>
      cases he.symm.trans he'
      exact absurd hin hnew
  | closed he hnew hpath =>
    cases h' with
    | unavailable he' => cases he.symm.trans he'
    | placed he' hin _ =>
      cases he.symm.trans he'
      exact absurd hin hnew
    | closed he' _ _ =>
      cases he.symm.trans he'
      exact ⟨rfl, rfl⟩
    | failed he' _ hfree _ => exact absurd hpath hfree
    | visited he' _ hfree _ _ => exact absurd hpath hfree
  | failed he hnew hfree _ ih =>
    cases h' with
    | unavailable he' => cases he.symm.trans he'
    | placed he' hin _ =>
      cases he.symm.trans he'
      exact absurd hin hnew
    | closed he' _ hpath => exact absurd hpath hfree
    | failed he' _ _ hinner =>
      cases he.symm.trans he'
      exact ih hinner
    | visited he' _ _ hinner _ =>
      cases he.symm.trans he'
      cases (ih hinner).1
  | visited he hnew hfree _ _ ih ihrest =>
    cases h' with
    | unavailable he' => cases he.symm.trans he'
    | placed he' hin _ =>
      cases he.symm.trans he'
      exact absurd hin hnew
    | closed he' _ hpath => exact absurd hpath hfree
    | failed he' _ _ hinner =>
      cases he.symm.trans he'
      cases (ih hinner).1
    | visited he' _ _ hinner hrest =>
      cases he.symm.trans he'
      obtain ⟨-, rfl⟩ := ih hinner
      exact ihrest hrest

theorem Search.grew (h : Search catalog path waiting ds s r t) : Grew catalog s t := by
  induction h with
  | done => exact .of_pool_eq rfl
  | unavailable he => exact (ensured_of_ensure he).grew
  | placed he _ _ ih => exact (ensured_of_ensure he).grew.trans ih
  | closed he _ _ => exact (ensured_of_ensure he).grew
  | failed he _ _ _ ih => exact (ensured_of_ensure he).grew.trans ih
  | visited he _ _ _ _ ih ihrest => exact ((ensured_of_ensure he).grew.trans ih).trans ihrest

/-! ## visiting with room enough -/

theorem Placing.bind_apply (x : Placing σ Unit) (f : Unit → Placing σ Unit) (s : Sorting σ) :
    (x >>= f) s =
      match x s with
      | (.ok a, t) => f a t
      | (.error e, t) => (.error e, t) := by
  show (ExceptT.bindCont f (x s).1) (x s).2 = _
  cases x s with
  | mk r t =>
    cases r with
    | ok a => rfl
    | error e => rfl

theorem visitAll_cons (visit : String → Placing σ Unit) :
    visitAll catalog visit waiting (d :: ds) s =
      match ensure catalog waiting d s with
      | (.ok _, t) =>
        match visit d.name t with
        | (.ok _, u) => visitAll catalog visit waiting ds u
        | (.error e, u) => (.error e, u)
      | (.error e, t) => (.error e, t) := by
  rw [visitAll, Placing.bind_apply]
  cases ensure catalog waiting d s with
  | mk r t =>
    cases r with
    | error e => rfl
    | ok _ => exact Placing.bind_apply _ _ t

theorem visit_of_placed (room : Nat) (h : name ∈ s.order) :
    visit catalog room path name s = (.ok (), s) := by
  rw [visit.eq_def, if_pos h]

theorem visit_of_waiting (room : Nat) (hnew : name ∉ s.order) (h : name ∈ path) :
    visit catalog room path name s =
      (.error (.cyclicDependency (path.dropWhile (· ≠ name) ++ [name])), s) := by
  rw [visit.eq_def, if_neg hnew, if_pos h]

theorem visit_of_free (room : Nat) (hnew : name ∉ s.order) (hfree : name ∉ path) :
    visit catalog (room + 1) path name s =
      match visitAll catalog (visit catalog room (path ++ [name])) name (s.dependencies name) s with
      | (.ok (), t) => (.ok (), t.place name)
      | (.error e, t) => (.error e, t) := by
  rw [visit.eq_def]
  exact (if_neg hnew).trans (if_neg hfree)

/-- names that are all different and all known leave room for one more as long as some known name
is not among them -/
theorem exists_less_room {room : Nat} {names : List String}
    (hroom : names.length ≤ room + path.length) (hpath : path.Nodup) (hknown : path ⊆ names)
    (hname : name ∈ names) (hfree : name ∉ path) : ∃ less, room = less + 1 := by
  have hnodup : (name :: path).Nodup := List.nodup_cons.mpr ⟨hfree, hpath⟩
  have hsub : name :: path ⊆ names := List.cons_subset.mpr ⟨hname, hknown⟩
  have hlength : (name :: path).length ≤ names.length := (hnodup.subperm hsub).length_le
  rw [List.length_cons] at hlength
  exact Nat.exists_eq_add_one_of_ne_zero (by omega)

/-- with room for all names, visiting does what the search does -/
theorem search_of_visitAll {names : List String} (hcatalog : catalog.keys ⊆ names) (room : Nat)
    (hroom : names.length ≤ room + path.length) (hpath : path.Nodup) (hknown : path ⊆ names)
    (hs : s.pool.keys ⊆ names)
    (h : visitAll catalog (visit catalog room path) waiting ds s = (r, t)) :
    Search catalog path waiting ds s r t := by
  -- outer induction on the room left, as a name looked into takes some; inner one on what is asked for
  induction room using Nat.strongRecOn generalizing path waiting ds s r t with
  | ind room ih =>
    induction ds generalizing s with
    | nil =>
      cases h
      exact .done
    | cons d ds ihds =>
      rw [visitAll_cons] at h
      cases he : ensure catalog waiting d s with
      | mk r₁ t₁ =>
        rw [he] at h
        have hensured : Ensured catalog waiting d s r₁ t₁ := ensured_of_ensure he
        have ht₁ : t₁.pool.keys ⊆ names := hensured.grew.keys_subset hcatalog hs
        cases r₁ with
        | error e =>
          cases h
          exact .unavailable he
        | ok _ =>
          dsimp only at h
          by_cases hnew : d.name ∈ t₁.order
          · rw [visit_of_placed room hnew] at h
            exact .placed he hnew (ihds ht₁ h)
          · by_cases hfree : d.name ∈ path
            · rw [visit_of_waiting room hnew hfree] at h
              cases h
              exact .closed he hnew hfree
            · have hname : d.name ∈ names := ht₁ hensured.name_mem
              -- the path holds distinct names of the list, so there is room for one more
              obtain ⟨less, rfl⟩ := exists_less_room hroom hpath hknown hname hfree
              rw [visit_of_free less hnew hfree] at h
              cases hin : visitAll catalog (visit catalog less (path ++ [d.name])) d.name
                  (t₁.dependencies d.name) t₁ with
              | mk r₂ t₂ =>
                rw [hin] at h
                have hinner : Search catalog (path ++ [d.name]) d.name (t₁.dependencies d.name)
                    t₁ r₂ t₂ := by
                  refine ih less (Nat.lt_succ_self less) ?_ ?_ ?_ ht₁ hin
                  · rw [List.length_append, List.length_singleton]
                    omega
                  · rw [← List.concat_eq_append]
                    exact hpath.concat hfree
                  · exact List.append_subset.mpr ⟨hknown, List.cons_subset.mpr ⟨hname, List.nil_subset _⟩⟩
                cases r₂ with
                | error e =>
                  cases h
                  exact .failed he hnew hfree hinner
                | ok _ =>
                  have ht₂ : t₂.pool.keys ⊆ names := hinner.grew.keys_subset hcatalog ht₁
                  exact .visited he hnew hfree hinner (ihds ht₂ h)

/-! ## from the supplied names on -/

theorem Search.append {more : List Dependency} (h : Search catalog path waiting ds s r t)
    (hr : r = .ok ()) (hmore : Search catalog path waiting more t r' u) :
    Search catalog path waiting (ds ++ more) s r' u := by
  induction h with
  | done => exact hmore
  | unavailable _ => cases hr
  | placed he hin _ ih => exact .placed he hin (ih hr hmore)
  | closed _ _ _ => cases hr
  | failed _ _ _ _ _ => cases hr
  | visited he hnew hfree hinner _ _ ih => exact .visited he hnew hfree hinner (ih hr hmore)

theorem Search.append_error (h : Search catalog path waiting ds s r t) {e : ExtensionError}
    (hr : r = .error e) (more : List Dependency) :
    Search catalog path waiting (ds ++ more) s r t := by
  induction h with
  | done => cases hr
  | unavailable he => exact .unavailable he
  | placed he hin _ ih => exact .placed he hin (ih hr)
  | closed he hnew hpath => exact .closed he hnew hpath
  | failed he hnew hfree hinner _ => exact .failed he hnew hfree hinner
  | visited he hnew hfree hinner _ _ ih => exact .visited he hnew hfree hinner (ih hr)

def request (name : String) : Dependency := ⟨name, .null⟩

theorem visitAll_request (visit : String → Placing σ Unit) (h : name ∈ s.pool.keys) :
    visitAll catalog visit waiting [request name] s = visit name s := by
  have hensure : ensure catalog waiting (request name) s = (.ok (), s) := by
    rw [ensure]
    exact if_pos (OrderedMap.contains_eq_true_iff.mpr h)
  rw [visitAll_cons, hensure]
  show (match visit name s with
    | (.ok _, u) => (Except.ok (), u)
    | (.error e, u) => (.error e, u)) = visit name s
  cases visit name s with
  | mk r t => cases r <;> rfl

/-- with room for all names, visiting the supplied names does what the search does -/
theorem search_of_visitRoots {names roots : List String} (hcatalog : catalog.keys ⊆ names)
    {room : Nat} (hroom : names.length ≤ room) (hs : s.pool.keys ⊆ names)
    (hroots : roots ⊆ s.pool.keys) (h : visitRoots catalog room roots s = (r, t)) :
    Search catalog [] waiting (roots.map request) s r t := by
  induction roots generalizing s with
  | nil =>
    cases h
    exact .done
  | cons name rest ih =>
    obtain ⟨hname, hrest⟩ := List.cons_subset.mp hroots
    rw [visitRoots, Placing.bind_apply] at h
    cases hv : visit catalog room [] name s with
    | mk r₁ t₁ =>
      rw [hv] at h
      have hone : Search catalog [] waiting [request name] s r₁ t₁ := by
        refine search_of_visitAll hcatalog room hroom List.nodup_nil (List.nil_subset _) hs ?_
        rw [visitAll_request _ hname, hv]
      cases r₁ with
      | error e =>
        cases h
        exact hone.append_error rfl _
      | ok _ =>
        have hgrew : Grew catalog s t₁ := hone.grew
        have hrest : rest ⊆ t₁.pool.keys := List.Subset.trans hrest hgrew.subset
        exact hone.append rfl (ih (hgrew.keys_subset hcatalog hs) hrest h)

/-- the extensions that were supplied, under their names -/
def supply (extensions : List (Extension σ)) : OrderedMap (Extension σ) :=
  extensions.map fun e => (e.name, e)

theorem keys_supply (extensions : List (Extension σ)) :
    (supply extensions).keys = extensions.map Extension.name := by
  simp [supply, OrderedMap.keys]

theorem distinct_supply {extensions : List (Extension σ)}
    (hnodup : (extensions.map Extension.name).Nodup) : (supply extensions).Distinct := by
  rw [OrderedMap.Distinct, keys_supply]
  exact hnodup

theorem supplied_of_nodup {extensions : List (Extension σ)} {pool : OrderedMap (Extension σ)}
    (h : (pool.keys ++ extensions.map Extension.name).Nodup) :
    supplied extensions pool = .ok (pool ++ supply extensions) := by
  induction extensions generalizing pool with
  | nil => rw [supply, List.map_nil, List.append_nil, supplied]
  | cons e es ih =>
    have hnew : e.name ∉ pool.keys := fun hm =>
      (List.nodup_append.mp h).2.2 _ hm _ List.mem_cons_self rfl
    have hpool : (pool ++ [(e.name, e)]).keys = pool.keys ++ [e.name] := by
      rw [OrderedMap.keys, List.map_append]
      rfl
    rw [supplied, if_neg (fun hc => hnew (OrderedMap.contains_eq_true_iff.mp hc)), ih]
    · rw [supply, supply, List.map_cons, List.append_assoc, List.singleton_append]
    · rw [hpool, List.append_assoc]
      exact h

theorem exists_supplied_eq_error {extensions : List (Extension σ)}
    {pool : OrderedMap (Extension σ)} (hpool : pool.keys.Nodup)
    (h : ¬ (pool.keys ++ extensions.map Extension.name).Nodup) :
    ∃ name, supplied extensions pool = .error (.duplicate name) := by
  induction extensions generalizing pool with
  | nil => simp [hpool] at h
  | cons e es ih =>
    rw [supplied]
    by_cases hin : e.name ∈ pool.keys
    · exact ⟨e.name, if_pos (OrderedMap.contains_eq_true_iff.mpr hin)⟩
    · rw [if_neg (fun hc => hin (OrderedMap.contains_eq_true_iff.mp hc))]
      have hkeys : (pool ++ [(e.name, e)]).keys = pool.keys ++ [e.name] := by
        rw [OrderedMap.keys, List.map_append]
        rfl
      apply ih
      · rw [hkeys, ← List.concat_eq_append]
        exact hpool.concat hin
      · rw [hkeys, List.append_assoc]
        exact h

end Sorting

variable {σ : Type} {extensions : List (Extension σ)} {catalog : Catalog σ} {journal j j' : σ}
  {r r' : Except ExtensionError (List (Extension σ))}

open Sorting

def Sorting.start (extensions : List (Extension σ)) (journal : σ) : Sorting σ :=
  ⟨supply extensions, [], journal⟩

/-- the supplied extensions as what is asked for first -/
def Sorting.roots (extensions : List (Extension σ)) : List Dependency :=
  extensions.map fun e => request e.name

/-- what ordering extensions comes to when nothing bounds the depth of the search -/
inductive Orders (extensions : List (Extension σ)) (catalog : Catalog σ) (journal : σ) :
    Except ExtensionError (List (Extension σ)) → σ → Prop where
  | repeated {e : ExtensionError} :
    supplied extensions [] = .error e → Orders extensions catalog journal (.error e) journal
  | failed {e : ExtensionError} {s : Sorting σ} :
    supplied extensions [] = .ok (supply extensions) →
      Search catalog [] "" (roots extensions) (start extensions journal) (.error e) s →
      Orders extensions catalog journal (.error e) s.journal
  | ordered {s : Sorting σ} :
    supplied extensions [] = .ok (supply extensions) →
      Search catalog [] "" (roots extensions) (start extensions journal) (.ok ()) s →
      Orders extensions catalog journal (.ok (s.order.filterMap s.pool.get?)) s.journal

theorem Orders.unique (h : Orders extensions catalog journal r j)
    (h' : Orders extensions catalog journal r' j') : r = r' ∧ j = j' := by
  cases h with
  | repeated he =>
    cases h' with
    | repeated he' =>
      cases he.symm.trans he'
      exact ⟨rfl, rfl⟩
    | failed he' _ => cases he.symm.trans he'
    | ordered he' _ => cases he.symm.trans he'
  | failed he hs =>
    cases h' with
    | repeated he' => cases he.symm.trans he'
    | failed _ hs' =>
      obtain ⟨hr, rfl⟩ := hs.unique hs'
      cases hr
      exact ⟨rfl, rfl⟩
    | ordered _ hs' => cases (hs.unique hs').1
  | ordered he hs =>
    cases h' with
    | repeated he' => cases he.symm.trans he'
    | failed _ hs' => cases (hs.unique hs').1
    | ordered _ hs' =>
      obtain ⟨-, rfl⟩ := hs.unique hs'
      exact ⟨rfl, rfl⟩

theorem eq_duplicate_of_supplied {pool : OrderedMap (Extension σ)} {e : ExtensionError}
    (h : supplied extensions pool = .error e) : ∃ name, e = .duplicate name := by
  induction extensions generalizing pool with
  | nil => cases h
  | cons first es ih =>
    rw [supplied] at h
    split at h
    · cases h
      exact ⟨_, rfl⟩
    · exact ih h

theorem supplied_eq_ok {pool : OrderedMap (Extension σ)}
    (h : supplied extensions [] = .ok pool) :
    (extensions.map Extension.name).Nodup ∧ pool = supply extensions := by
  by_cases hnodup : (extensions.map Extension.name).Nodup
  · have hok : supplied extensions [] = .ok (supply extensions) := supplied_of_nodup hnodup
    cases h.symm.trans hok
    exact ⟨hnodup, rfl⟩
  · have herror : ∃ name, supplied extensions [] = .error (.duplicate name) :=
      exists_supplied_eq_error List.nodup_nil hnodup
    obtain ⟨name, he⟩ := herror
    cases he.symm.trans h

/-- the ordering comes to its outcome without the bound as well -/
theorem orders_resolveOrder (extensions : List (Extension σ)) (catalog : Catalog σ) (journal : σ) :
    Orders extensions catalog journal (resolveOrder extensions catalog journal).1
      (resolveOrder extensions catalog journal).2 := by
  unfold resolveOrder
  cases hs : supplied extensions [] with
  | error e => exact .repeated hs
  | ok pool =>
    obtain ⟨-, rfl⟩ := supplied_eq_ok hs
    cases hv : visitRoots catalog ((supply extensions).length + catalog.length)
        (supply extensions).keys ⟨supply extensions, [], journal⟩ with
    | mk r t =>
      have hsearch : Search catalog [] "" (roots extensions) (start extensions journal) r t := by
        have hroots : roots extensions = (supply extensions).keys.map request := by
          rw [keys_supply, List.map_map]
          rfl
        have hcatalog : catalog.keys ⊆ (supply extensions).keys ++ catalog.keys :=
          List.subset_append_right _ _
        rw [hroots]
        refine search_of_visitRoots hcatalog ?_ (List.subset_append_left _ _)
          (List.Subset.refl _) hv
        simp [OrderedMap.keys]
      dsimp only
      rw [hv]
      cases r with
      | error e => exact .failed hs hsearch
      | ok _ => exact .ordered hs hsearch

theorem orders_iff : Orders extensions catalog journal r j ↔
    resolveOrder extensions catalog journal = (r, j) := by
  have hown := orders_resolveOrder extensions catalog journal
  constructor
  · intro h
    obtain ⟨hr, hj⟩ := hown.unique h
    exact Prod.ext hr hj
  · intro h
    rw [h] at hown
    exact hown

end ServiceGraph
