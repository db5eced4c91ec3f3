import ServiceGraph.Proofs.Extension.Search
import Mathlib.Data.List.Infix
import Mathlib.Logic.Relation

/-!
# Dependencies first

When the extensions can be ordered, every extension comes after those it depends on, and the order
holds what was supplied and what is needed besides, each once.

* `Requires stands name other`: the extension that stands for a name depends on another name;
* `Sorting.Ordered`: names in an order in which every name comes after its dependencies;
* `Sorting.Search.ordered`, `placed`: the search keeps such an order and gives what is asked for a
  place in it;
* `Constructs`: constructors called one after the other;
* `Sorting.Search.exists_calls`: what the search builds is asked for, directly or by what is there;
* `dependencies_first`: the result.
-/

namespace ServiceGraph

open Relation

variable {σ : Type}

/-- the extension that stands for a name depends on another name -/
def Requires (stands : String → Extension σ → Prop) (name other : String) : Prop :=
  ∃ e, stands name e ∧ ∃ d ∈ e.dependencies, d.name = other

theorem Requires.mono {stands stands' : String → Extension σ → Prop}
    (hle : ∀ name e, stands name e → stands' name e) {name other : String}
    (h : Requires stands name other) : Requires stands' name other := by
  obtain ⟨e, he, hd⟩ := h
  exact ⟨e, hle name e he, hd⟩

theorem Requires.reach_mono {stands stands' : String → Extension σ → Prop}
    (hle : ∀ name e, stands name e → stands' name e) {name other : String}
    (h : ReflTransGen (Requires stands) name other) : ReflTransGen (Requires stands') name other :=
  ReflTransGen.mono (fun _ _ => Requires.mono hle) _ _ h

/-- an extension of a list stands for its own name -/
def Among (extensions : List (Extension σ)) (name : String) (e : Extension σ) : Prop :=
  e ∈ extensions ∧ e.name = name

/-- every constructor gives an extension of the name it is for, if it gives one -/
def Catalog.Named (catalog : Catalog σ) : Prop :=
  ∀ name build, catalog.get? name = some build →
    ∀ args journal e, (build args journal).1 = .ok e → e.name = name

namespace Sorting

variable {catalog : Catalog σ} {path order : List String} {waiting name : String}
  {d : Dependency} {ds : List Dependency} {s t u : Sorting σ} {r r' : Except ExtensionError Unit}
  {pool : OrderedMap (Extension σ)} {e : Extension σ} {j j' j₁ : σ}
  {calls calls' : List (Dependency × Extension σ)}

/-- an extension of the pool stands for the name it was asked for -/
def Holds (s : Sorting σ) (name : String) (e : Extension σ) : Prop := s.pool.get? name = some e

theorem Grew.holds (h : Grew catalog s t) (he : s.Holds name e) : t.Holds name e := by
  obtain ⟨more, hpool, -⟩ := h
  unfold Holds
  rw [hpool]
  exact OrderedMap.get?_append_of_get? he more

theorem Ensured.exists_holds (h : Ensured catalog waiting d s (.ok ()) t) :
    ∃ e, t.Holds d.name e ∧ t.dependencies d.name = e.dependencies := by
  obtain ⟨e, he⟩ := OrderedMap.exists_get?_of_mem_keys h.name_mem
  refine ⟨e, he, ?_⟩
  rw [dependencies, he]
  rfl

/-! ## the places -/

/-- names in an order: each is new, has an extension, and comes after its dependencies -/
inductive Ordered (pool : OrderedMap (Extension σ)) : List String → Prop where
  | nil : Ordered pool []
  | place {order : List String} {name : String} {e : Extension σ} :
    Ordered pool order → name ∉ order → pool.get? name = some e →
      (∀ d ∈ e.dependencies, d.name ∈ order) → Ordered pool (order ++ [name])

theorem Ordered.mono (h : Ordered pool order) {pool' : OrderedMap (Extension σ)}
    (hle : ∀ name e, pool.get? name = some e → pool'.get? name = some e) : Ordered pool' order := by
  induction h with
  | nil => exact .nil
  | place _ hnew he hdeps ih => exact .place ih hnew (hle _ _ he) hdeps

theorem Ordered.nodup (h : Ordered pool order) : order.Nodup := by
  induction h with
  | nil => exact List.nodup_nil
  | place _ hnew _ _ ih =>
    rw [← List.concat_eq_append]
    exact ih.concat hnew

theorem Ordered.before (h : Ordered pool order) {earlier later : List String}
    (horder : order = earlier ++ name :: later) :
    ∃ e, pool.get? name = some e ∧ ∀ d ∈ e.dependencies, d.name ∈ earlier := by
  induction h generalizing later with
  | nil => simp at horder
  | @place order last e _ _ he hdeps ih =>
    rcases List.eq_nil_or_concat later with rfl | ⟨later, other, rfl⟩
    · obtain ⟨rfl, hlast⟩ := List.append_inj' horder rfl
      cases hlast
      exact ⟨e, he, hdeps⟩
    · have hsplit : order ++ [last] = (earlier ++ name :: later) ++ [other] := by
        rw [horder, List.concat_eq_append, List.append_assoc, List.cons_append]
      exact ih (List.append_inj' hsplit rfl).1

theorem Ordered.exists_of_mem (h : Ordered pool order) (hname : name ∈ order) :
    ∃ e, pool.get? name = some e ∧ ∀ d ∈ e.dependencies, d.name ∈ order := by
  obtain ⟨earlier, later, rfl⟩ := List.append_of_mem hname
  obtain ⟨e, he, hdeps⟩ := h.before rfl
  exact ⟨e, he, fun d hd => List.mem_append_left _ (hdeps d hd)⟩

/-- what is required of a name that has its place has its place -/
theorem Ordered.mem_of_requires (h : Ordered s.pool s.order) (hname : name ∈ s.order)
    {other : String} (hother : ReflTransGen (Requires s.Holds) name other) : other ∈ s.order := by
  induction hother with
  | refl => exact hname
  | tail _ hstep ih =>
    obtain ⟨e, he, d, hd, rfl⟩ := hstep
    obtain ⟨e', he', hdeps⟩ := h.exists_of_mem ih
    cases he.symm.trans he'
    exact hdeps d hd

/-- the places that were given stay as they are -/
theorem Search.order_prefix (h : Search catalog path waiting ds s r t) : s.order <+: t.order := by
  induction h with
  | done => exact List.prefix_refl _
  | unavailable he => rw [(ensured_of_ensure he).order_eq]
  | placed he _ _ ih => rw [(ensured_of_ensure he).order_eq] at ih; exact ih
  | closed he _ _ => rw [(ensured_of_ensure he).order_eq]
  | failed he _ _ _ ih => rw [(ensured_of_ensure he).order_eq] at ih; exact ih
  | visited he _ _ _ _ ih ihrest =>
    rw [(ensured_of_ensure he).order_eq] at ih
    exact ih.trans ((List.prefix_append _ _).trans ihrest)

theorem Search.order_subset (h : Search catalog path waiting ds s r t) : s.order ⊆ t.order :=
  h.order_prefix.subset

/-- everything asked for has its place in the end -/
theorem Search.placed_of_ok (h : Search catalog path waiting ds s r t) (hr : r = .ok ()) :
    ∀ d ∈ ds, d.name ∈ t.order := by
  induction h with
  | done => exact fun d hd => nomatch hd
  | unavailable _ => cases hr
  | placed _ hin hrest ih =>
    exact List.forall_mem_cons.mpr ⟨hrest.order_subset hin, ih hr⟩
  | closed _ _ _ => cases hr
  | failed _ _ _ _ _ => cases hr
  | visited _ _ _ _ hrest _ ihrest =>
    refine List.forall_mem_cons.mpr ⟨hrest.order_subset ?_, ihrest hr⟩
    rw [place_order]
    exact List.mem_append_right _ (List.mem_singleton_self _)

/-- the search keeps the order, and gives no place to a name that waits -/
theorem Search.ordered (h : Search catalog path waiting ds s r t) (hs : Ordered s.pool s.order) :
    Ordered t.pool t.order ∧ ∀ name ∈ t.order, name ∈ s.order ∨ name ∉ path := by
  have hensure : ∀ {d : Dependency} {s t : Sorting σ} {r : Except ExtensionError Unit}
      {waiting : String}, ensure catalog waiting d s = (r, t) → Ordered s.pool s.order →
      Ordered t.pool t.order := by
    intro d s t r waiting he hs
    have h : Ensured catalog waiting d s r t := ensured_of_ensure he
    rw [h.order_eq]
    exact hs.mono fun _ _ => h.grew.holds
  induction h with
  | done => exact ⟨hs, fun name hname => .inl hname⟩
  | unavailable he =>
    exact ⟨hensure he hs, fun name hname => .inl ((ensured_of_ensure he).order_eq ▸ hname)⟩
  | placed he _ _ ih =>
    obtain ⟨ht, hnew⟩ := ih (hensure he hs)
    rw [(ensured_of_ensure he).order_eq] at hnew
    exact ⟨ht, hnew⟩
  | closed he _ _ =>
    exact ⟨hensure he hs, fun name hname => .inl ((ensured_of_ensure he).order_eq ▸ hname)⟩
  | failed he _ _ _ ih =>
    obtain ⟨hu, hnew⟩ := ih (hensure he hs)
    rw [(ensured_of_ensure he).order_eq] at hnew
    exact ⟨hu, fun name hname => (hnew name hname).imp id fun hn hp =>
      hn (List.mem_append_left _ hp)⟩
  | @visited path waiting d ds s t u v r he hunplaced hfree hinner _ ih ihrest =>
    have hensured : Ensured catalog waiting d s (.ok ()) t := ensured_of_ensure he
    obtain ⟨hu, hnew⟩ := ih (hensure he hs)
    obtain ⟨e, heholds, hdeps⟩ := hensured.exists_holds
    -- what was placed on the way is off the path, and the name itself is on it
    have hown : d.name ∉ u.order := by
      intro hmem
      rcases hnew d.name hmem with hin | hout
      · exact hunplaced hin
      · exact hout (List.mem_append_right _ (List.mem_singleton_self _))
    have hplace : Ordered (u.place d.name).pool (u.place d.name).order := by
      refine hu.place hown (hinner.grew.holds heholds) fun dep hdep => ?_
      exact hinner.placed_of_ok rfl dep (hdeps ▸ hdep)
    obtain ⟨hv, hlast⟩ := ihrest hplace
    refine ⟨hv, fun name hname => ?_⟩
    rcases hlast name hname with hin | hout
    · rcases List.mem_append.mp hin with hin | hin
      · rw [hensured.order_eq] at hnew
        exact (hnew name hin).imp id fun hn hp => hn (List.mem_append_left _ hp)
      · rw [List.mem_singleton.mp hin]
        exact .inr hfree
    · exact .inr hout

/-! ## what is built -/

/-- constructors called one after the other, each giving an extension -/
inductive Constructs (catalog : Catalog σ) : σ → List (Dependency × Extension σ) → σ → Prop where
  | nil {j : σ} : Constructs catalog j [] j
  | cons {build : Value → σ → Except ExtensionError (Extension σ) × σ} {d : Dependency}
    {e : Extension σ} {calls : List (Dependency × Extension σ)} {j j₁ j' : σ} :
    catalog.get? d.name = some build → build d.args j = (.ok e, j₁) →
      Constructs catalog j₁ calls j' → Constructs catalog j ((d, e) :: calls) j'

theorem Constructs.append (h : Constructs catalog j calls j₁)
    (h' : Constructs catalog j₁ calls' j') : Constructs catalog j (calls ++ calls') j' := by
  induction h with
  | nil => exact h'
  | cons hbuild he _ ih => exact .cons hbuild he (ih h')

/-- the constructors called between two states: the pool has grown by what they built, and each was
called for a dependency that is asked for, or declared by an extension that is needed for one -/
structure Calls (catalog : Catalog σ) (ds : List Dependency) (s t : Sorting σ)
    (calls : List (Dependency × Extension σ)) : Prop where
  constructs : Constructs catalog s.journal calls t.journal
  pool : t.pool = s.pool ++ calls.map fun c => (c.1.name, c.2)
  needed : ∀ c ∈ calls, ∃ d ∈ ds, ReflTransGen (Requires t.Holds) d.name c.1.name
  declared : ∀ c ∈ calls, c.1 ∈ ds ∨ ∃ name e, t.Holds name e ∧ c.1 ∈ e.dependencies

theorem Calls.holds (h : Calls catalog ds s t calls) (he : s.Holds name e) : t.Holds name e := by
  unfold Holds
  rw [h.pool]
  exact OrderedMap.get?_append_of_get? he _

theorem Ensured.exists_calls (h : Ensured catalog waiting d s (.ok ()) t) :
    ∃ calls, Calls catalog [d] s t calls := by
  cases h with
  | known _ =>
    exact ⟨[], .nil, (List.append_nil _).symm, fun c hc => (nomatch hc), fun c hc => (nomatch hc)⟩
  | @built build e journal hnew hbuild he =>
    refine ⟨[(d, e)], .cons hbuild he .nil, rfl, ?_, ?_⟩
    · intro c hc
      rw [List.mem_singleton.mp hc]
      exact ⟨d, List.mem_singleton_self d, .refl⟩
    · intro c hc
      rw [List.mem_singleton.mp hc]
      exact .inl (List.mem_singleton_self d)

/-- calls one after the other, when what the second ones are for is asked for as well, or declared
by an extension that is -/
theorem Calls.trans {ds₁ ds₂ : List Dependency} (h : Calls catalog ds₁ s t calls)
    (h' : Calls catalog ds₂ t u calls') (hds₁ : ds₁ ⊆ ds)
    (hds₂ : ∀ d ∈ ds₂, d ∈ ds ∨ ∃ top ∈ ds, ∃ e, t.Holds top.name e ∧ d ∈ e.dependencies) :
    Calls catalog ds s u (calls ++ calls') where
  constructs := h.constructs.append h'.constructs
  pool := by rw [h'.pool, h.pool, List.map_append, List.append_assoc]
  needed c hc := by
    rcases List.mem_append.mp hc with hc | hc
    · obtain ⟨d, hd, hreach⟩ := h.needed c hc
      exact ⟨d, hds₁ hd, Requires.reach_mono (fun _ _ => h'.holds) hreach⟩
    · obtain ⟨d, hd, hreach⟩ := h'.needed c hc
      rcases hds₂ d hd with hd | ⟨top, htop, e, he, hd⟩
      · exact ⟨d, hd, hreach⟩
      · exact ⟨top, htop, .head ⟨e, h'.holds he, d, hd, rfl⟩ hreach⟩
  declared c hc := by
    rcases List.mem_append.mp hc with hc | hc
    · rcases h.declared c hc with hd | ⟨name, e, he, hd⟩
      · exact .inl (hds₁ hd)
      · exact .inr ⟨name, e, h'.holds he, hd⟩
    · rcases h'.declared c hc with hd | hd
      · rcases hds₂ c.1 hd with hd | ⟨top, _, e, he, hd⟩
        · exact .inl hd
        · exact .inr ⟨top.name, e, h'.holds he, hd⟩
      · exact .inr hd

theorem Search.exists_calls (h : Search catalog path waiting ds s r t) (hr : r = .ok ()) :
    ∃ calls, Calls catalog ds s t calls := by
  induction h with
  | done =>
    exact ⟨[], .nil, (List.append_nil _).symm, fun c hc => (nomatch hc), fun c hc => (nomatch hc)⟩
  | unavailable _ => cases hr
  | placed he _ _ ih =>
    obtain ⟨calls, hcalls⟩ := (ensured_of_ensure he).exists_calls
    obtain ⟨calls', hcalls'⟩ := ih hr
    exact ⟨_, hcalls.trans hcalls' (List.cons_subset_cons _ (List.nil_subset _))
      fun d hd => .inl (List.mem_cons_of_mem _ hd)⟩
  | closed _ _ _ => cases hr
  | failed _ _ _ _ _ => cases hr
  | @visited path waiting d ds s t u v r he _ _ hinner _ ih ihrest =>
    have hensured : Ensured catalog waiting d s (.ok ()) t := ensured_of_ensure he
    obtain ⟨e, heholds, hdeps⟩ := hensured.exists_holds
    obtain ⟨calls, hcalls⟩ := hensured.exists_calls
    obtain ⟨calls₁, hcalls₁⟩ := ih rfl
    obtain ⟨calls₂, hcalls₂⟩ := ihrest hr
    have hsub : [d] ⊆ d :: ds := List.cons_subset_cons _ (List.nil_subset _)
    have hfirst : Calls catalog (d :: ds) s u (calls ++ calls₁) :=
      hcalls.trans hcalls₁ hsub fun dep hdep =>
        .inr ⟨d, List.mem_cons_self, e, heholds, hdeps ▸ hdep⟩
    have hplaced : Calls catalog (d :: ds) s (u.place d.name) (calls ++ calls₁) :=
      ⟨hfirst.constructs, hfirst.pool, hfirst.needed, hfirst.declared⟩
    exact ⟨_, hplaced.trans hcalls₂ (List.Subset.refl _)
      fun dep hdep => .inl (List.mem_cons_of_mem _ hdep)⟩

theorem Ensured.distinct (h : Ensured catalog waiting d s r t) (hs : s.pool.Distinct) :
    t.pool.Distinct := by
  cases h with
  | known _ => exact hs
  | built hnew _ _ =>
    show (OrderedMap.keys (s.pool ++ [_])).Nodup
    rw [OrderedMap.keys, List.map_append]
    exact (List.concat_eq_append ▸ List.Nodup.concat hnew hs)
  | missing _ _ => exact hs
  | refused _ _ _ => exact hs

theorem Search.distinct (h : Search catalog path waiting ds s r t) (hs : s.pool.Distinct) :
    t.pool.Distinct := by
  induction h with
  | done => exact hs
  | unavailable he => exact (ensured_of_ensure he).distinct hs
  | placed he _ _ ih => exact ih ((ensured_of_ensure he).distinct hs)
  | closed he _ _ => exact (ensured_of_ensure he).distinct hs
  | failed he _ _ _ ih => exact ih ((ensured_of_ensure he).distinct hs)
  | visited he _ _ _ _ ih ihrest => exact ihrest (ih ((ensured_of_ensure he).distinct hs))

/-! ## the whole order -/

theorem filterMap_get?_keys (h : pool.Distinct) : pool.keys.filterMap pool.get? = pool.values := by
  have hget : ∀ p ∈ pool, (pool.get? ∘ Prod.fst) p = (some ∘ Prod.snd) p :=
    fun p hp => h.get?_of_mem hp
  rw [OrderedMap.keys, List.filterMap_map, List.filterMap_congr hget, List.filterMap_eq_map]
  rfl

theorem Calls.keys_eq {extensions : List (Extension σ)} {ds : List Dependency}
    (h : Calls catalog ds (start extensions j) t calls) :
    t.pool.keys = extensions.map Extension.name ++ calls.map fun c => c.1.name := by
  rw [h.pool, OrderedMap.keys, List.map_append, List.map_map]
  exact congrArg (· ++ _) (keys_supply extensions)

theorem Calls.values_eq {extensions : List (Extension σ)} {ds : List Dependency}
    (h : Calls catalog ds (start extensions j) t calls) :
    t.pool.values = extensions ++ calls.map Prod.snd := by
  rw [h.pool, OrderedMap.values, List.map_append, List.map_map, start, supply, List.map_map]
  exact congrArg (· ++ _) (List.map_id _)

theorem exists_root {extensions : List (Extension σ)} (hd : d ∈ roots extensions) :
    ∃ e ∈ extensions, e.name = d.name := by
  obtain ⟨e, he, rfl⟩ := List.mem_map.mp hd
  exact ⟨e, he, rfl⟩

/-- a search that succeeds gives every name of the pool its place -/
theorem order_perm {extensions : List (Extension σ)}
    (h : Search catalog [] "" (roots extensions) (start extensions j) (.ok ()) t)
    (hnodup : (extensions.map Extension.name).Nodup) : t.order.Perm t.pool.keys := by
  have hordered : Ordered t.pool t.order := (h.ordered .nil).1
  have hdistinct : t.pool.Distinct := h.distinct (distinct_supply hnodup)
  have hplaced : ∀ d ∈ roots extensions, d.name ∈ t.order := h.placed_of_ok rfl
  obtain ⟨calls, hcalls⟩ := h.exists_calls rfl
  refine (List.perm_ext_iff_of_nodup hordered.nodup hdistinct).mpr fun name => ⟨?_, ?_⟩
  · intro hname
    obtain ⟨e, he, -⟩ := hordered.exists_of_mem hname
    exact OrderedMap.mem_keys_of_get? he
  · intro hname
    rw [hcalls.keys_eq] at hname
    rcases List.mem_append.mp hname with hname | hname
    · obtain ⟨e, he, rfl⟩ := List.mem_map.mp hname
      exact hplaced _ (List.mem_map_of_mem he)
    · obtain ⟨c, hc, rfl⟩ := List.mem_map.mp hname
      obtain ⟨d, hd, hreach⟩ := hcalls.needed c hc
      exact hordered.mem_of_requires (hplaced d hd) hreach

theorem Constructs.named (hcatalog : catalog.Named) (h : Constructs catalog j calls j') :
    ∀ c ∈ calls, c.2.name = c.1.name := by
  induction h with
  | nil => exact fun c hc => nomatch hc
  | cons hbuild he _ ih =>
    exact List.forall_mem_cons.mpr ⟨hcatalog _ _ hbuild _ _ _ (congrArg Prod.fst he), ih⟩

theorem Calls.named {extensions : List (Extension σ)} {ds : List Dependency}
    (hcatalog : catalog.Named) (h : Calls catalog ds (start extensions j) t calls)
    (he : t.Holds name e) : e.name = name := by
  have hmem : (name, e) ∈ supply extensions ++ calls.map fun c => (c.1.name, c.2) :=
    h.pool ▸ OrderedMap.mem_of_get? he
  rcases List.mem_append.mp hmem with hmem | hmem
  · obtain ⟨e', -, heq⟩ := List.mem_map.mp hmem
    cases heq
    rfl
  · obtain ⟨c, hc, heq⟩ := List.mem_map.mp hmem
    cases heq
    exact h.constructs.named hcatalog c hc

theorem map_name_filterMap (hnamed : ∀ name e, t.Holds name e → e.name = name)
    (hknown : ∀ name ∈ order, ∃ e, t.Holds name e) :
    (order.filterMap t.pool.get?).map Extension.name = order := by
  have hname : ∀ name ∈ order, (t.pool.get? name).map Extension.name = some name := by
    intro name hname
    obtain ⟨e, he⟩ := hknown name hname
    rw [he, Option.map_some, hnamed name e he]
  rw [List.map_filterMap, List.filterMap_congr hname]
  exact List.filterMap_some

/-- when all names of the pool have places, what stands for a name is what is in order -/
theorem holds_iff_among (hperm : t.order.Perm t.pool.keys)
    (hnamed : ∀ name e, t.Holds name e → e.name = name) (name : String) (e : Extension σ) :
    t.Holds name e ↔ Among (t.order.filterMap t.pool.get?) name e := by
  constructor
  · intro he
    have hname : name ∈ t.order := hperm.mem_iff.mpr (OrderedMap.mem_keys_of_get? he)
    exact ⟨List.mem_filterMap.mpr ⟨name, hname, he⟩, hnamed name e he⟩
  · rintro ⟨he, rfl⟩
    obtain ⟨name, -, hname⟩ := List.mem_filterMap.mp he
    rw [hnamed name e hname]
    exact hname

/-- what was supplied is not built -/
theorem Calls.fresh {extensions : List (Extension σ)} {ds : List Dependency}
    (h : Calls catalog ds (start extensions j) t calls) (hdistinct : t.pool.Distinct) :
    ∀ c ∈ calls, c.1.name ∉ extensions.map Extension.name := by
  intro c hc hin
  have hkeys : (extensions.map Extension.name ++ calls.map fun c => c.1.name).Nodup :=
    h.keys_eq ▸ hdistinct
  exact (List.nodup_append.mp hkeys).2.2 _ hin _ (List.mem_map_of_mem hc) rfl

end Sorting

open Sorting

variable {extensions ordered : List (Extension σ)} {catalog : Catalog σ} {journal journal' : σ}

/-- extensions in an order in which dependencies come first, together with the constructors that
were called for it -/
structure Arranged (extensions : List (Extension σ)) (catalog : Catalog σ) (journal journal' : σ)
    (ordered : List (Extension σ)) (calls : List (Dependency × Extension σ)) : Prop where
  /-- what was written in the journal is what these calls write, one after the other -/
  constructs : Constructs catalog journal calls journal'
  complete : ordered.Perm (extensions ++ calls.map Prod.snd)
  once : (ordered.map Extension.name).Nodup
  /-- what is built is what is needed, directly or by way of others, and was not supplied -/
  needed : ∀ name, name ∈ calls.map (fun c => c.1.name) ↔
    name ∉ extensions.map Extension.name ∧
      ∃ e ∈ extensions, TransGen (Requires (Among ordered)) e.name name
  declared : ∀ c ∈ calls, ∃ e ∈ ordered, c.1 ∈ e.dependencies
  first : ∀ earlier e later, ordered = earlier ++ e :: later →
    ∀ d ∈ e.dependencies, ∃ e' ∈ earlier, e'.name = d.name

/-- **Dependencies come first.** When the extensions can be ordered, the order holds the supplied
ones and those that the catalog was called for, each once. It is called once for each name that a
supplied extension requires, directly or by way of others, and that was not supplied. Every
extension comes after those it depends on. -/
theorem dependencies_first (hcatalog : catalog.Named)
    (hok : resolveOrder extensions catalog journal = (.ok ordered, journal')) :
    ∃ calls, Arranged extensions catalog journal journal' ordered calls := by
  cases orders_iff.mpr hok with
  | @ordered t hsupplied h =>
    obtain ⟨calls, hcalls⟩ := h.exists_calls rfl
    have hnodup : (extensions.map Extension.name).Nodup := (supplied_eq_ok hsupplied).1
    have hordered : Ordered t.pool t.order := (h.ordered .nil).1
    have hperm : t.order.Perm t.pool.keys := order_perm h hnodup
    have hdistinct : t.pool.Distinct := hperm.nodup hordered.nodup
    have hnamed : ∀ name e, t.Holds name e → e.name = name := fun _ _ => hcalls.named hcatalog
    have hnames : (t.order.filterMap t.pool.get?).map Extension.name = t.order :=
      map_name_filterMap hnamed fun name hname =>
        (hordered.exists_of_mem hname).imp fun _ => And.left
    have hamong : ∀ name e, t.Holds name e ↔ Among (t.order.filterMap t.pool.get?) name e :=
      holds_iff_among hperm hnamed
    have hfresh : ∀ c ∈ calls, c.1.name ∉ extensions.map Extension.name :=
      hcalls.fresh hdistinct
    refine ⟨calls, ⟨hcalls.constructs, ?_, ?_, fun name => ⟨?_, ?_⟩, ?_, ?_⟩⟩
    -- the order is the supplied and the built extensions, each once
    · rw [← hcalls.values_eq, ← filterMap_get?_keys hdistinct]
      exact hperm.filterMap _
    · rw [hnames]
      exact hordered.nodup
    -- what was built is required by a supplied extension
    · intro hname
      obtain ⟨c, hc, rfl⟩ := List.mem_map.mp hname
      obtain ⟨d, hd, hreach⟩ := hcalls.needed c hc
      obtain ⟨e, he, hde⟩ := exists_root hd
      refine ⟨hfresh c hc, e, he, ?_⟩
      rw [← hde] at hreach
      have hne : c.1.name ≠ e.name := fun heq => hfresh c hc (heq ▸ List.mem_map_of_mem he)
      exact (reflTransGen_iff_eq_or_transGen.mp
        (Requires.reach_mono (fun name e => (hamong name e).mp) hreach)).resolve_left hne
    -- what is required was placed, and so was supplied or built
    · rintro ⟨hname, e, he, hreach⟩
      have hroot : e.name ∈ t.order := h.placed_of_ok rfl (request e.name) (List.mem_map_of_mem he)
      have hin : name ∈ t.pool.keys := hperm.mem_iff.mp (hordered.mem_of_requires hroot
        (Requires.reach_mono (fun name e => (hamong name e).mpr) hreach.to_reflTransGen))
      rw [hcalls.keys_eq] at hin
      exact (List.mem_append.mp hin).resolve_left hname
    · intro c hc
      rcases hcalls.declared c hc with hd | ⟨name, e, he, hd⟩
      · obtain ⟨e, he, hde⟩ := exists_root hd
        exact absurd (List.mem_map.mpr ⟨e, he, hde⟩) (hfresh c hc)
      · exact ⟨e, ((hamong name e).mp he).1, hd⟩
    · intro earlier e later hsplit d hd
      have hin : e ∈ t.order.filterMap t.pool.get? :=
        hsplit ▸ List.mem_append_right _ List.mem_cons_self
      have hwhere : t.order =
          earlier.map Extension.name ++ e.name :: later.map Extension.name := by
        rw [← hnames, hsplit, List.map_append, List.map_cons]
      obtain ⟨e', he', hdeps⟩ := hordered.before hwhere
      cases he'.symm.trans ((hamong e.name e).mpr ⟨hin, rfl⟩)
      exact List.mem_map.mp (hdeps d hd)

/-- an extension that has dependencies and does nothing -/
def Extension.idle (name : String) (dependencies : List Dependency) : Extension σ :=
  ⟨name, dependencies, none, fun _ => .done (.ok (.done (.ok ())))⟩

/-- constructors that write their name in the journal; what `http` needs gets its arguments -/
def journaled : Catalog (List String) :=
  [ ("config", fun _ journal => (.ok (.idle "config" []), journal ++ ["config"])),
    ("log", fun _ journal => (.ok (.idle "log" []), journal ++ ["log"])),
    ("http", fun args journal =>
      (.ok (.idle "http" [⟨"core", .null⟩, ⟨"config", args⟩]), journal ++ ["http"])) ]

/-- `web` needs `http` from the catalog, and this needs `core`, which is supplied after `web` -/
def webAndCore : List (Extension (List String)) :=
  [.idle "web" [⟨"http", .str "fast"⟩], .idle "core" [⟨"config", .null⟩]]

def webAndCoreOrdered : List (Extension (List String)) :=
  [ .idle "config" [], .idle "core" [⟨"config", .null⟩],
    .idle "http" [⟨"core", .null⟩, ⟨"config", .str "fast"⟩],
    .idle "web" [⟨"http", .str "fast"⟩] ]

theorem journaled_named : journaled.Named := by
  intro name build hbuild args journal e he
  have hmem : (name, build) ∈ journaled := OrderedMap.mem_of_get? hbuild
  simp only [journaled, List.mem_cons, Prod.mk.injEq, List.not_mem_nil, or_false] at hmem
  rcases hmem with ⟨rfl, rfl⟩ | ⟨rfl, rfl⟩ | ⟨rfl, rfl⟩
  · cases he
    rfl
  · cases he
    rfl
  · cases he
    rfl

theorem web_dependencies_first :
    journaled.Named ∧
    resolveOrder webAndCore journaled [] = (.ok webAndCoreOrdered, ["http", "config"]) ∧
    ∃ calls, Arranged webAndCore journaled [] ["http", "config"] webAndCoreOrdered calls :=
  ⟨journaled_named, rfl, dependencies_first journaled_named rfl⟩

end ServiceGraph
