import ServiceGraph.Proofs.Extension.Order
import ServiceGraph.Proofs.Grounded

/-!
# When extensions can be ordered

What the extensions need can be found out without ordering them: look at each name once, build what
is not there, and look at what a name needs before going on. The ordering fails only when this comes
to a name that cannot be had, when a name was supplied twice, or when a name needs itself.

* `Survey`, `Survey.Step`: the extensions found so far, and the next one;
* `Stands extensions catalog journal name e`: `e` was supplied under the name, or is what the catalog
  gives when the name is first asked for;
* `Needed`: the names that the supplied extensions lead to;
* `Sorting.Search.follows`: a search that goes on is a survey that goes on;
* `Sorting.Search.obstructed`: where the search fails, the survey shows why;
* `orderable_iff`: the result;
* `orderable_iff_of_steady`: where constructors do not look at their arguments, in terms of what is
  declared.
-/

namespace ServiceGraph

open Relation Sorting

variable {σ : Type} {catalog : Catalog σ} {extensions : List (Extension σ)} {journal : σ}

/-- the extensions found so far by name, the names that have been looked at, and what is still to
be looked at -/
structure Survey (σ : Type) where
  pool : OrderedMap (Extension σ)
  seen : List String
  requests : List Dependency
  journal : σ

namespace Survey

variable {s t u : Survey σ} {name : String} {e : Extension σ}

/-- an extension has been found for a name -/
def Holds (s : Survey σ) (name : String) (e : Extension σ) : Prop := s.pool.get? name = some e

/-- the next request: its name was looked at before, or it is looked at now, or the catalog gives an
extension for it -/
inductive Step (catalog : Catalog σ) : Survey σ → Survey σ → Prop where
  | skip {pool : OrderedMap (Extension σ)} {seen : List String} {d : Dependency}
    {ds : List Dependency} {j : σ} :
    d.name ∈ seen → Step catalog ⟨pool, seen, d :: ds, j⟩ ⟨pool, seen, ds, j⟩
  | look {pool : OrderedMap (Extension σ)} {seen : List String} {d : Dependency}
    {ds : List Dependency} {j : σ} {e : Extension σ} :
    d.name ∉ seen → pool.get? d.name = some e →
      Step catalog ⟨pool, seen, d :: ds, j⟩ ⟨pool, d.name :: seen, e.dependencies ++ ds, j⟩
  | build {pool : OrderedMap (Extension σ)} {seen : List String} {d : Dependency}
    {ds : List Dependency} {j j' : σ} {e : Extension σ}
    {build : Value → σ → Except ExtensionError (Extension σ) × σ} :
    d.name ∉ seen → pool.get? d.name = none → catalog.get? d.name = some build →
      build d.args j = (.ok e, j') →
      Step catalog ⟨pool, seen, d :: ds, j⟩ ⟨pool ++ [(d.name, e)], seen, d :: ds, j'⟩

abbrev Steps (catalog : Catalog σ) : Survey σ → Survey σ → Prop := ReflTransGen (Step catalog)

def start (extensions : List (Extension σ)) (journal : σ) : Survey σ :=
  ⟨supply extensions, [], roots extensions, journal⟩

theorem Step.unique (h : Step catalog s t) (h' : Step catalog s u) : t = u := by
  cases h with
  | skip hin =>
    cases h' with
    | skip _ => rfl
    | look hnew _ => exact absurd hin hnew
    | build hnew _ _ _ => exact absurd hin hnew
  | look hnew he =>
    cases h' with
    | skip hin => exact absurd hin hnew
    | look _ he' =>
      cases he.symm.trans he'
      rfl
    | build _ hnone _ _ => cases he.symm.trans hnone
  | build hnew hnone hbuild he =>
    cases h' with
    | skip hin => exact absurd hin hnew
    | look _ he' => cases he'.symm.trans hnone
    | build _ _ hbuild' he' =>
      cases hbuild.symm.trans hbuild'
      cases he.symm.trans he'
      rfl

theorem Step.holds (h : Step catalog s t) (he : s.Holds name e) : t.Holds name e := by
  cases h with
  | skip _ => exact he
  | look _ _ => exact he
  | build _ _ _ _ => exact OrderedMap.get?_append_of_get? he _

theorem Steps.holds (h : Steps catalog s t) (he : s.Holds name e) : t.Holds name e := by
  induction h with
  | refl => exact he
  | tail _ hstep ih => exact hstep.holds ih

/-- two surveys from one beginning: what is found by one is found by the one that has gone on as
far as it can -/
theorem Steps.holds_of_last {first : Survey σ} (h : Steps catalog first s)
    (h' : Steps catalog first t) (hlast : ∀ u, ¬ Step catalog t u) (he : s.Holds name e) :
    t.Holds name e := by
  have hunique : Relator.RightUnique (Step catalog) := fun _ _ _ => Step.unique
  rcases ReflTransGen.total_of_right_unique hunique h h' with hst | hts
  · exact Steps.holds hst he
  · rcases ReflTransGen.cases_head hts with rfl | ⟨u, hu, -⟩
    · exact he
    · exact absurd hu (hlast u)

end Survey

/-- an extension was supplied under a name, or is what the catalog gives when the name is first
asked for -/
def Stands (extensions : List (Extension σ)) (catalog : Catalog σ) (journal : σ) (name : String)
    (e : Extension σ) : Prop :=
  ∃ s, Survey.Steps catalog (.start extensions journal) s ∧ s.Holds name e

/-- the supplied extensions need a name, directly or by way of others -/
def Needed (extensions : List (Extension σ)) (catalog : Catalog σ) (journal : σ)
    (name : String) : Prop :=
  ∃ e ∈ extensions, ReflTransGen (Requires (Stands extensions catalog journal)) e.name name

namespace Survey

variable {s t u : Survey σ} {name : String} {e : Extension σ}

/-- what is asked for and what has been looked at is needed -/
theorem Steps.needed (h : Steps catalog (start extensions journal) s) :
    (∀ d ∈ s.requests, Needed extensions catalog journal d.name) ∧
      ∀ name ∈ s.seen, Needed extensions catalog journal name := by
  induction h with
  | refl =>
    refine ⟨fun d hd => ?_, fun name hname => nomatch hname⟩
    obtain ⟨e, he, heq⟩ := exists_root hd
    exact ⟨e, he, heq ▸ .refl⟩
  | tail hsteps hstep ih =>
    obtain ⟨hrequests, hseen⟩ := ih
    cases hstep with
    | skip _ => exact ⟨(List.forall_mem_cons.mp hrequests).2, hseen⟩
    | look _ he =>
      obtain ⟨hd, hds⟩ := List.forall_mem_cons.mp hrequests
      refine ⟨List.forall_mem_append.mpr ⟨fun dep hdep => ?_, hds⟩,
        List.forall_mem_cons.mpr ⟨hd, hseen⟩⟩
      obtain ⟨root, hroot, hreach⟩ := hd
      exact ⟨root, hroot, hreach.tail ⟨_, ⟨_, hsteps, he⟩, dep, hdep, rfl⟩⟩
    | build _ _ _ _ => exact ⟨hrequests, hseen⟩

theorem exists_start_holds (h : name ∈ extensions.map Extension.name) (journal : σ) :
    ∃ e, (start extensions journal).Holds name e :=
  OrderedMap.exists_get?_of_mem_keys ((keys_supply extensions).symm ▸ h)

/-- what stands for a name was supplied under it, or else is what the catalog gave for it -/
theorem Steps.origin (h : Steps catalog (start extensions journal) s) (he : s.Holds name e) :
    Among extensions name e ∨ name ∉ extensions.map Extension.name ∧
      ∃ build args j, catalog.get? name = some build ∧ (build args j).1 = .ok e := by
  induction h with
  | refl =>
    obtain ⟨e', he', heq⟩ := List.mem_map.mp (OrderedMap.mem_of_get? he)
    cases heq
    exact .inl ⟨he', rfl⟩
  | tail hsteps hstep ih =>
    cases hstep with
    | skip _ => exact ih he
    | look _ _ => exact ih he
    | build _ hnone hbuild hbuilt =>
      unfold Holds at he
      rw [OrderedMap.get?_append] at he
      rcases Option.or_eq_some_iff.mp he with he | ⟨-, he⟩
      · exact ih he
      · obtain ⟨rfl, rfl⟩ : _ ∧ _ := by simpa [OrderedMap.get?] using he
        refine .inr ⟨fun hin => ?_, _, _, _, hbuild, congrArg Prod.fst hbuilt⟩
        obtain ⟨e₀, he₀⟩ := exists_start_holds hin journal
        cases (Steps.holds hsteps he₀).symm.trans hnone

/-! ## the survey beside the search -/

/-- a survey that has come as far as a search: it has looked at the names that have their places and
at those that wait -/
structure Follows (s : Survey σ) (t : Sorting σ) (path : List String)
    (requests : List Dependency) : Prop where
  pool : s.pool = t.pool
  journal : s.journal = t.journal
  requests : s.requests = requests
  seen : ∀ name, name ∈ s.seen ↔ name ∈ t.order ∨ name ∈ path
  known : ∀ name ∈ s.seen, name ∈ s.pool.keys

theorem Follows.holds {t : Sorting σ} {path : List String} {requests : List Dependency}
    (h : s.Follows t path requests) : s.Holds name e ↔ t.Holds name e := by
  unfold Holds Sorting.Holds
  rw [h.pool]

/-- the name that waited last gets its place -/
theorem Follows.place {t : Sorting σ} {path : List String} {requests : List Dependency}
    (h : s.Follows t (path ++ [name]) requests) : s.Follows (t.place name) path requests where
  pool := h.pool
  journal := h.journal
  requests := h.requests
  seen other := by
    rw [h.seen, place_order, List.mem_append, List.mem_append]
    tauto
  known := h.known

/-- what a survey shows when a search fails: a request that cannot be had, or a name that needs
itself -/
inductive Obstructed (catalog : Catalog σ) (s : Survey σ) : ExtensionError → Prop where
  | missing {d : Dependency} {ds : List Dependency} {waiting : String} :
    s.requests = d :: ds → d.name ∉ s.seen → s.pool.get? d.name = none →
      catalog.get? d.name = none → Obstructed catalog s (.missing d.name waiting)
  | refused {d : Dependency} {ds : List Dependency} {e : ExtensionError} {j : σ}
    {build : Value → σ → Except ExtensionError (Extension σ) × σ} :
    s.requests = d :: ds → d.name ∉ s.seen → s.pool.get? d.name = none →
      catalog.get? d.name = some build → build d.args s.journal = (.error e, j) →
      Obstructed catalog s e
  | circular {path : List String} :
    ClosedPath (Requires s.Holds) path → (∀ name ∈ path, name ∈ s.seen) →
      Obstructed catalog s (.cyclicDependency path)

end Survey

namespace Sorting

open Survey

variable {path : List String} {waiting : String} {d : Dependency} {ds rest : List Dependency}
  {s t : Sorting σ} {r : Except ExtensionError Unit} {v : Survey σ} {name : String}

theorem Ensured.follows (h : Ensured catalog waiting d s (.ok ()) t)
    (hv : v.Follows s path (d :: rest)) :
    ∃ v', Steps catalog v v' ∧ v'.Follows t path (d :: rest) := by
  cases h with
  | known _ => exact ⟨v, .refl, hv⟩
  | built hnew hbuild he =>
    obtain ⟨pool, seen, requests, journal⟩ := v
    obtain ⟨rfl, rfl, rfl, hseen, hknown⟩ := hv
    have hunseen : d.name ∉ seen := fun hm => hnew (hknown _ hm)
    refine ⟨_, .single (.build hunseen (OrderedMap.get?_eq_none_iff.mpr hnew) hbuild he),
      rfl, rfl, rfl, hseen, fun name hname => ?_⟩
    rw [OrderedMap.keys, List.map_append]
    exact List.mem_append_left _ (hknown name hname)

theorem follows_skip (hv : v.Follows s path (d :: rest)) (hin : d.name ∈ s.order ∨ d.name ∈ path) :
    ∃ v', Survey.Step catalog v v' ∧ v'.Follows s path rest := by
  obtain ⟨pool, seen, requests, journal⟩ := v
  obtain ⟨rfl, rfl, rfl, hseen, hknown⟩ := hv
  exact ⟨_, .skip ((hseen _).mpr hin), rfl, rfl, rfl, hseen, hknown⟩

/-- looking at a name that has no place and does not wait -/
theorem follows_look {e : Extension σ} (hv : v.Follows s path (d :: rest)) (hnew : d.name ∉ s.order)
    (hfree : d.name ∉ path) (he : s.Holds d.name e) :
    ∃ v', Survey.Step catalog v v' ∧
      v'.Follows s (path ++ [d.name]) (e.dependencies ++ rest) := by
  obtain ⟨pool, seen, requests, journal⟩ := v
  obtain ⟨rfl, rfl, rfl, hseen, hknown⟩ := hv
  have hunseen : d.name ∉ seen := fun hm => ((hseen _).mp hm).elim hnew hfree
  refine ⟨_, .look hunseen he, rfl, rfl, rfl, fun name => ?_, ?_⟩
  · rw [List.mem_cons, hseen, List.mem_append, List.mem_singleton]
    tauto
  · exact List.forall_mem_cons.mpr ⟨OrderedMap.mem_keys_of_get? he, hknown⟩

/-- a search that goes on is a survey that goes on -/
theorem Search.follows (h : Search catalog path waiting ds s r t) (hr : r = .ok ())
    (hv : v.Follows s path (ds ++ rest)) :
    ∃ v', Steps catalog v v' ∧ v'.Follows t path rest := by
  induction h generalizing v rest with
  | done => exact ⟨v, .refl, hv⟩
  | unavailable _ => cases hr
  | placed he hin _ ih =>
    obtain ⟨v₁, hsteps₁, hv₁⟩ := (ensured_of_ensure he).follows hv
    obtain ⟨v₂, hstep, hv₂⟩ := follows_skip hv₁ (.inl hin)
    obtain ⟨v₃, hsteps₃, hv₃⟩ := ih hr hv₂
    exact ⟨v₃, (hsteps₁.tail hstep).trans hsteps₃, hv₃⟩
  | closed _ _ _ => cases hr
  | failed _ _ _ _ _ => cases hr
  | visited he hnew hfree hinner _ ih ihrest =>
    have hensured := ensured_of_ensure he
    obtain ⟨e, heholds, hdeps⟩ := hensured.exists_holds
    obtain ⟨v₁, hsteps₁, hv₁⟩ := hensured.follows hv
    obtain ⟨v₂, hstep, hv₂⟩ := follows_look hv₁ hnew hfree heholds
    obtain ⟨v₃, hsteps₃, hv₃⟩ := ih rfl (hdeps ▸ hv₂)
    obtain ⟨v₄, hsteps₄, hv₄⟩ := ihrest hr hv₃.place
    exact ⟨v₄, ((hsteps₁.tail hstep).trans hsteps₃).trans hsteps₄, hv₄⟩

theorem Ensured.obstructed {e : ExtensionError} (h : Ensured catalog waiting d s (.error e) t)
    (hv : v.Follows s path (d :: rest)) : v.Obstructed catalog e := by
  have hunseen : d.name ∉ s.pool.keys → d.name ∉ v.seen := fun hnew hm =>
    hnew (hv.pool ▸ hv.known _ hm)
  cases h with
  | missing hnew hnone =>
    exact .missing hv.requests (hunseen hnew)
      (hv.pool ▸ OrderedMap.get?_eq_none_iff.mpr hnew) hnone
  | refused hnew hbuild he =>
    exact .refused hv.requests (hunseen hnew)
      (hv.pool ▸ OrderedMap.get?_eq_none_iff.mpr hnew) hbuild (hv.journal ▸ he)

/-- the names that wait are a walk, and what is asked for continues it -/
def Waits (s : Sorting σ) (path : List String) (ds : List Dependency) : Prop :=
  path.Nodup ∧ ∀ d ∈ ds, (path ++ [d.name]).IsChain (Requires s.Holds)

theorem Waits.grew (h : Waits s path ds) (hst : Grew catalog s t) : Waits t path ds :=
  ⟨h.1, fun d hd => (h.2 d hd).imp fun _ _ => Requires.mono fun _ _ => hst.holds⟩

theorem Waits.look {e : Extension σ} (h : Waits s path (d :: ds)) (hfree : d.name ∉ path)
    (he : s.Holds d.name e) : Waits s (path ++ [d.name]) e.dependencies := by
  refine ⟨?_, fun dep hdep => ?_⟩
  · rw [← List.concat_eq_append]
    exact h.1.concat hfree
  · have hlast : [d.name, dep.name].IsChain (Requires s.Holds) :=
      List.isChain_pair.mpr ⟨e, he, dep, hdep, rfl⟩
    rw [List.append_assoc]
    exact List.isChain_split.mpr ⟨h.2 d List.mem_cons_self, hlast⟩

/-- where a search fails, a survey comes to the reason -/
theorem Search.obstructed {e : ExtensionError} (h : Search catalog path waiting ds s r t)
    (hr : r = .error e) (hwaits : Waits s path ds) (hv : v.Follows s path (ds ++ rest)) :
    ∃ v', Steps catalog v v' ∧ v'.Obstructed catalog e := by
  induction h generalizing v rest with
  | done => cases hr
  | unavailable he =>
    cases hr
    exact ⟨v, .refl, (ensured_of_ensure he).obstructed hv⟩
  | placed he hin _ ih =>
    have hensured := ensured_of_ensure he
    obtain ⟨v₁, hsteps₁, hv₁⟩ := hensured.follows hv
    obtain ⟨v₂, hstep, hv₂⟩ := follows_skip hv₁ (.inl hin)
    have hrest := (hwaits.grew hensured.grew)
    obtain ⟨v₃, hsteps₃, hv₃⟩ := ih hr ⟨hrest.1, (List.forall_mem_cons.mp hrest.2).2⟩ hv₂
    exact ⟨v₃, (hsteps₁.tail hstep).trans hsteps₃, hv₃⟩
  | closed he hnew hpath =>
    cases hr
    have hensured := ensured_of_ensure he
    obtain ⟨v₁, hsteps₁, hv₁⟩ := hensured.follows hv
    have hwaits := hwaits.grew hensured.grew
    refine ⟨v₁, hsteps₁, .circular ?_ fun name hname => ?_⟩
    -- the part of the path from the name on, and the name again
    · have hclosed := closedPath_of_return hwaits.1 (hwaits.2 _ List.mem_cons_self) hpath
      exact hclosed.mono fun _ _ => Requires.mono fun _ _ => hv₁.holds.mpr
    · rw [hv₁.seen]
      rcases List.mem_append.mp hname with hname | hname
      · exact .inr (List.dropWhile_subset _ hname)
      · exact .inr (List.mem_singleton.mp hname ▸ hpath)
  | failed he hnew hfree _ ih =>
    have hensured := ensured_of_ensure he
    obtain ⟨e, heholds, hdeps⟩ := hensured.exists_holds
    obtain ⟨v₁, hsteps₁, hv₁⟩ := hensured.follows hv
    obtain ⟨v₂, hstep, hv₂⟩ := follows_look hv₁ hnew hfree heholds
    have hinner := (hwaits.grew hensured.grew).look hfree heholds
    obtain ⟨v₃, hsteps₃, hv₃⟩ := ih hr (hdeps ▸ hinner) (hdeps ▸ hv₂)
    exact ⟨v₃, (hsteps₁.tail hstep).trans hsteps₃, hv₃⟩
  | visited he hnew hfree hinner _ _ ihrest =>
    have hensured := ensured_of_ensure he
    have hhead : Search catalog _ _ [_] _ (.ok ()) _ := .visited he hnew hfree hinner .done
    obtain ⟨v₁, hsteps₁, hv₁⟩ := hhead.follows rfl hv
    have hrest := hwaits.grew hhead.grew
    obtain ⟨v₂, hsteps₂, hv₂⟩ := ihrest hr ⟨hrest.1, (List.forall_mem_cons.mp hrest.2).2⟩ hv₁
    exact ⟨v₂, hsteps₁.trans hsteps₂, hv₂⟩

/-! ## from the supplied names on -/

theorem follows_start (extensions : List (Extension σ)) (journal : σ) :
    (Survey.start extensions journal).Follows (start extensions journal) []
      (roots extensions ++ []) where
  pool := rfl
  journal := rfl
  requests := (List.append_nil _).symm
  seen _ := or_self_iff.symm
  known _ h := nomatch h

theorem waits_start (extensions : List (Extension σ)) (journal : σ) :
    Waits (start extensions journal) [] (roots extensions) :=
  ⟨List.nodup_nil, fun d _ => List.isChain_singleton d.name⟩

/-- names in an order are grounded in the names before them -/
theorem Ordered.grounded (h : Ordered s.pool s.order) :
    ∀ name ∈ s.order, Grounded (Requires s.Holds) name := by
  have hall : ∀ order, Ordered s.pool order → ∀ name ∈ order,
      Grounded (Requires s.Holds) name := by
    intro order horder
    induction horder with
    | nil => exact fun name hname => nomatch hname
    | @place order last e _ _ he hdeps ih =>
      refine List.forall_mem_append.mpr ⟨ih, fun name hname => ?_⟩
      rw [List.mem_singleton.mp hname]
      apply Grounded.intro
      rintro other ⟨e', he', d, hd, rfl⟩
      cases he.symm.trans he'
      exact ih d.name (hdeps d hd)
  exact hall s.order h

end Sorting

namespace Survey

variable {s : Survey σ} {d : Dependency} {ds : List Dependency} {e : ExtensionError}

theorem not_step_of_nil (h : s.requests = []) (t : Survey σ) : ¬ Step catalog s t := by
  intro hstep
  cases hstep with
  | skip _ => cases h
  | look _ _ => cases h
  | build _ _ _ _ => cases h

theorem not_step_of_unavailable (h : s.requests = d :: ds) (hunseen : d.name ∉ s.seen)
    (hnone : s.pool.get? d.name = none)
    (hno : ∀ build e j, catalog.get? d.name = some build → build d.args s.journal ≠ (.ok e, j))
    (t : Survey σ) : ¬ Step catalog s t := by
  intro hstep
  cases hstep with
  | skip hin =>
    cases h
    exact hunseen hin
  | look _ he =>
    cases h
    cases he.symm.trans hnone
  | build _ _ hbuild he =>
    cases h
    exact hno _ _ _ hbuild he

/-- a survey that cannot go on has come to a name that nothing stands for, or to a circle -/
theorem Obstructed.reason (h : s.Obstructed catalog e)
    (hsteps : Steps catalog (start extensions journal) s) :
    (∃ name, Needed extensions catalog journal name ∧
      ∀ e, ¬ Stands extensions catalog journal name e) ∨
    ∃ path, e = .cyclicDependency path ∧
      ClosedPath (Requires (Stands extensions catalog journal)) path ∧
      ∀ name ∈ path, Needed extensions catalog journal name := by
  obtain ⟨hrequests, hseen⟩ := Steps.needed hsteps
  have hlost : ∀ {d : Dependency}, s.pool.get? d.name = none → (∀ t, ¬ Step catalog s t) →
      ∀ e, ¬ Stands extensions catalog journal d.name e := by
    rintro d hnone hlast e ⟨s', hsteps', he⟩
    cases (Steps.holds_of_last hsteps' hsteps hlast he).symm.trans hnone
  cases h with
  | @missing d ds waiting hd hunseen hnone hno =>
    refine .inl ⟨d.name, hrequests d (hd ▸ List.mem_cons_self), hlost hnone ?_⟩
    refine not_step_of_unavailable hd hunseen hnone fun build e j hbuild => ?_
    cases hbuild.symm.trans hno
  | @refused d ds e j build hd hunseen hnone hbuild he =>
    refine .inl ⟨d.name, hrequests d (hd ▸ List.mem_cons_self), hlost hnone ?_⟩
    refine not_step_of_unavailable hd hunseen hnone fun build' e' j' hbuild' he' => ?_
    cases hbuild.symm.trans hbuild'
    cases he.symm.trans he'
  | @circular path hclosed hpath =>
    exact .inr ⟨path, rfl, hclosed.mono fun _ _ => Requires.mono fun _ _ he => ⟨s, hsteps, he⟩,
      fun name hname => hseen name (hpath name hname)⟩

end Survey

/-- a constructor of the catalog comes up with the error -/
def Catalog.Raises (catalog : Catalog σ) (e : ExtensionError) : Prop :=
  ∃ name build args j, catalog.get? name = some build ∧ (build args j).1 = .error e

/-- what a search that succeeds holds is what stands for the names -/
theorem stands_iff_holds {t : Sorting σ}
    (h : Search catalog [] "" (roots extensions) (Sorting.start extensions journal) (.ok ()) t)
    (name : String) (e : Extension σ) :
    Stands extensions catalog journal name e ↔ t.Holds name e := by
  obtain ⟨s, hsteps, hs⟩ := h.follows rfl (follows_start extensions journal)
  constructor
  · rintro ⟨s', hsteps', he⟩
    exact hs.holds.mp
      (Survey.Steps.holds_of_last hsteps' hsteps (Survey.not_step_of_nil hs.requests) he)
  · exact fun he => ⟨s, hsteps, hs.holds.mpr he⟩

theorem ordered_or_obstructed (hnodup : (extensions.map Extension.name).Nodup)
    (catalog : Catalog σ) (journal : σ) :
    (∃ ordered j, resolveOrder extensions catalog journal = (.ok ordered, j)) ∨
      ∃ s e, Survey.Steps catalog (.start extensions journal) s ∧ s.Obstructed catalog e := by
  have hown := orders_resolveOrder extensions catalog journal
  cases hr : resolveOrder extensions catalog journal with
  | mk r j =>
    rw [hr] at hown
    cases hown with
    | repeated he =>
      have hok : supplied extensions [] = .ok (supply extensions) := supplied_of_nodup hnodup
      cases he.symm.trans hok
    | failed _ h =>
      obtain ⟨s, hsteps, hs⟩ := h.obstructed rfl (waits_start extensions journal)
        (follows_start extensions journal)
      exact .inr ⟨s, _, hsteps, hs⟩
    | ordered _ _ => exact .inl ⟨_, _, rfl⟩

/-- **Ordering fails only when it must.** The search has an outcome without a bound on its depth,
and this is the outcome. It succeeds when the supplied names are distinct, every name that is needed
has an extension, supplied or from the catalog, and no name that is needed needs itself. A cycle
that is reported is a closed path along the dependencies of needed names, unless a constructor came
up with the error. -/
theorem orderable_iff (extensions : List (Extension σ)) (catalog : Catalog σ) (journal : σ) :
    (∀ r j, Orders extensions catalog journal r j ↔
      resolveOrder extensions catalog journal = (r, j)) ∧
    ((∃ ordered j, resolveOrder extensions catalog journal = (.ok ordered, j)) ↔
      (extensions.map Extension.name).Nodup ∧
      (∀ name, Needed extensions catalog journal name →
        ∃ e, Stands extensions catalog journal name e) ∧
      ∀ name, Needed extensions catalog journal name →
        ¬ TransGen (Requires (Stands extensions catalog journal)) name name) ∧
    ∀ path j, resolveOrder extensions catalog journal = (.error (.cyclicDependency path), j) →
      catalog.Raises (.cyclicDependency path) ∨
        (ClosedPath (Requires (Stands extensions catalog journal)) path ∧
          ∀ name ∈ path, Needed extensions catalog journal name) := by
  refine ⟨fun r j => orders_iff, ⟨?_, ?_⟩, ?_⟩
  · rintro ⟨ordered, j, hok⟩
    cases orders_iff.mpr hok with
    | @ordered t hsupplied h =>
      have hordered : Ordered t.pool t.order := (h.ordered .nil).1
      have hstands := stands_iff_holds h
      have hplaced : ∀ name, Needed extensions catalog journal name → name ∈ t.order := by
        rintro name ⟨e, he, hreach⟩
        refine hordered.mem_of_requires (h.placed_of_ok rfl (request e.name)
          (List.mem_map_of_mem he)) ?_
        exact Requires.reach_mono (fun name e => (hstands name e).mp) hreach
      refine ⟨(supplied_eq_ok hsupplied).1, fun name hname => ?_, fun name hname hcircle => ?_⟩
      · obtain ⟨e, he, -⟩ := hordered.exists_of_mem (hplaced name hname)
        exact ⟨e, (hstands name e).mpr he⟩
      · refine (hordered.grounded name (hplaced name hname)).not_transGen ?_
        exact TransGen.mono (fun _ _ => Requires.mono fun name e => (hstands name e).mp) _ _ hcircle
  · rintro ⟨hnodup, havailable, hacyclic⟩
    rcases ordered_or_obstructed hnodup catalog journal with hok | ⟨s, e, hsteps, hs⟩
    · exact hok
    rcases hs.reason hsteps with ⟨name, hname, hnone⟩ | ⟨path, -, hclosed, hneeded⟩
    · obtain ⟨e, he⟩ := havailable name hname
      exact absurd he (hnone e)
    · obtain ⟨name, hname, hcircle⟩ := hclosed.exists_transGen
      exact absurd hcircle (hacyclic name (hneeded name hname))
  · intro path j herror
    cases orders_iff.mpr herror with
    | repeated he =>
      obtain ⟨name, hname⟩ := eq_duplicate_of_supplied he
      cases hname
    | failed _ h =>
      obtain ⟨s, hsteps, hs⟩ := h.obstructed rfl (waits_start extensions journal)
        (follows_start extensions journal)
      cases hs with
      | refused _ _ _ hbuild he => exact .inl ⟨_, _, _, _, hbuild, congrArg Prod.fst he⟩
      | circular hclosed hpath =>
        refine .inr ⟨hclosed.mono fun _ _ => Requires.mono fun _ _ he => ⟨s, hsteps, he⟩, ?_⟩
        exact fun name hname => (Survey.Steps.needed hsteps).2 name (hpath name hname)

/-- `left` and `right` need each other -/
def leftAndRight : List (Extension (List String)) :=
  [.idle "left" [⟨"right", .null⟩], .idle "right" [⟨"left", .null⟩]]

theorem journaled_not_raises (e : ExtensionError) : ¬ journaled.Raises e := by
  rintro ⟨name, build, args, j, hbuild, he⟩
  have hmem : (name, build) ∈ journaled := OrderedMap.mem_of_get? hbuild
  simp only [journaled, List.mem_cons, Prod.mk.injEq, List.not_mem_nil, or_false] at hmem
  rcases hmem with ⟨-, rfl⟩ | ⟨-, rfl⟩ | ⟨-, rfl⟩ <;> cases he

theorem left_and_right_circular :
    resolveOrder leftAndRight journaled [] =
      (.error (.cyclicDependency ["left", "right", "left"]), []) ∧
    ClosedPath (Requires (Stands leftAndRight journaled [])) ["left", "right", "left"] ∧
    ∀ name ∈ ["left", "right", "left"], Needed leftAndRight journaled [] name :=
  ⟨rfl, ((orderable_iff leftAndRight journaled []).2.2 _ _ rfl).resolve_left
    (journaled_not_raises _)⟩

/-! ## catalogs that do not look at arguments -/

section Steady

variable {t : Sorting σ} {name : String} {e e' : Extension σ}

/-- a constructor gives the same answer whenever it is called -/
def Catalog.Steady (catalog : Catalog σ) : Prop :=
  ∀ name build args args' j j', catalog.get? name = some build →
    (build args j).1 = (build args' j').1

/-- an extension is supplied under a name, or else the catalog gives it -/
def Declared (extensions : List (Extension σ)) (catalog : Catalog σ) (name : String)
    (e : Extension σ) : Prop :=
  Among extensions name e ∨ name ∉ extensions.map Extension.name ∧
    ∃ build args j, catalog.get? name = some build ∧ (build args j).1 = .ok e

theorem Stands.declared (h : Stands extensions catalog journal name e) :
    Declared extensions catalog name e := by
  obtain ⟨s, hsteps, he⟩ := h
  exact hsteps.origin he

theorem Among.eq_of_nodup (hnodup : (extensions.map Extension.name).Nodup)
    (h : Among extensions name e) (h' : Among extensions name e') : e = e' :=
  List.inj_on_of_nodup_map hnodup h.1 h'.1 (h.2.trans h'.2.symm)

theorem Declared.unique (hsteady : catalog.Steady)
    (hnodup : (extensions.map Extension.name).Nodup) (h : Declared extensions catalog name e)
    (h' : Declared extensions catalog name e') : e = e' := by
  rcases h with h | ⟨hnew, build, args, j, hbuild, he⟩
  · rcases h' with h' | ⟨hnew, -⟩
    · exact h.eq_of_nodup hnodup h'
    · exact absurd (List.mem_map.mpr ⟨e, h⟩) hnew
  · rcases h' with h' | ⟨-, build', args', j', hbuild', he'⟩
    · exact absurd (List.mem_map.mpr ⟨e', h'⟩) hnew
    · cases hbuild.symm.trans hbuild'
      have hsame : (build args j).1 = (build args' j').1 := hsteady _ _ _ _ _ _ hbuild
      rw [he, he'] at hsame
      cases hsame
      rfl

/-- where a search succeeds, the declarations of the placed names are what it holds -/
theorem holds_of_declared (hsteady : catalog.Steady)
    (hnodup : (extensions.map Extension.name).Nodup) (hordered : Ordered t.pool t.order)
    (hstands : ∀ name e, Stands extensions catalog journal name e ↔ t.Holds name e)
    (hname : name ∈ t.order) (he : Declared extensions catalog name e) : t.Holds name e := by
  obtain ⟨e', he', -⟩ := hordered.exists_of_mem hname
  have hdeclared : Declared extensions catalog name e' := ((hstands name e').mpr he').declared
  rw [he.unique hsteady hnodup hdeclared]
  exact he'

theorem requires_of_declared (hsteady : catalog.Steady)
    (hnodup : (extensions.map Extension.name).Nodup) (hordered : Ordered t.pool t.order)
    (hstands : ∀ name e, Stands extensions catalog journal name e ↔ t.Holds name e)
    {name other : String} (hname : name ∈ t.order)
    (h : TransGen (Requires (Declared extensions catalog)) name other) :
    TransGen (Requires t.Holds) name other ∧ other ∈ t.order := by
  have hstep : ∀ a b, a ∈ t.order → Requires (Declared extensions catalog) a b →
      Requires t.Holds a b ∧ b ∈ t.order := by
    rintro a b ha ⟨e, he, d, hd, rfl⟩
    have hrequires : Requires t.Holds a d.name :=
      ⟨e, holds_of_declared hsteady hnodup hordered hstands ha he, d, hd, rfl⟩
    exact ⟨hrequires, hordered.mem_of_requires ha (.single hrequires)⟩
  induction h with
  | single h =>
    obtain ⟨hrequires, hin⟩ := hstep _ _ hname h
    exact ⟨.single hrequires, hin⟩
  | tail _ h ih =>
    obtain ⟨hreach, hin⟩ := ih
    obtain ⟨hrequires, hin⟩ := hstep _ _ hin h
    exact ⟨hreach.tail hrequires, hin⟩

/-- a survey of a steady catalog is obstructed by a name that is declared nowhere, or by a circle
of declarations -/
theorem Survey.Obstructed.declared {s : Survey σ} {e : ExtensionError} (hsteady : catalog.Steady)
    (h : s.Obstructed catalog e) (hsteps : Survey.Steps catalog (.start extensions journal) s) :
    ∃ name, Needed extensions catalog journal name ∧
      ((∀ e, ¬ Declared extensions catalog name e) ∨
        TransGen (Requires (Declared extensions catalog)) name name) := by
  obtain ⟨hrequests, hseen⟩ := Survey.Steps.needed hsteps
  have hsupplied : ∀ {name}, s.pool.get? name = none → name ∉ extensions.map Extension.name := by
    intro name hnone hin
    obtain ⟨e, he⟩ := Survey.exists_start_holds hin journal
    cases (Survey.Steps.holds hsteps he).symm.trans hnone
  have hdeclared : ∀ name e, s.Holds name e → Declared extensions catalog name e :=
    fun name e he => Stands.declared ⟨s, hsteps, he⟩
  cases h with
  | @missing d ds waiting hd hunseen hnone hno =>
    refine ⟨d.name, hrequests d (hd ▸ List.mem_cons_self), .inl ?_⟩
    rintro e (he | ⟨-, build, args, j, hbuild, -⟩)
    · exact hsupplied hnone (List.mem_map.mpr ⟨e, he⟩)
    · cases hbuild.symm.trans hno
  | @refused d ds e j build hd hunseen hnone hbuild he =>
    refine ⟨d.name, hrequests d (hd ▸ List.mem_cons_self), .inl ?_⟩
    rintro e' (he' | ⟨-, build', args, j', hbuild', he'⟩)
    · exact hsupplied hnone (List.mem_map.mpr ⟨e', he'⟩)
    · cases hbuild.symm.trans hbuild'
      have hsame : (build args j').1 = (build d.args s.journal).1 :=
        hsteady _ _ _ _ _ _ hbuild
      rw [he', he] at hsame
      cases hsame
  | @circular path hclosed hpath =>
    obtain ⟨name, hname, hcircle⟩ := (hclosed.mono fun _ _ =>
      Requires.mono hdeclared).exists_transGen
    exact ⟨name, hseen name (hpath name hname), .inr hcircle⟩

/-- for a steady catalog the names and what they depend on are there before the search -/
theorem orderable_iff_of_steady (hsteady : catalog.Steady) :
    (∃ ordered j, resolveOrder extensions catalog journal = (.ok ordered, j)) ↔
      (extensions.map Extension.name).Nodup ∧
      ∀ e ∈ extensions, ∀ name,
        ReflTransGen (Requires (Declared extensions catalog)) e.name name →
          (∃ e, Declared extensions catalog name e) ∧
          ¬ TransGen (Requires (Declared extensions catalog)) name name := by
  constructor
  · rintro ⟨ordered, j, hok⟩
    cases orders_iff.mpr hok with
    | @ordered t hsupplied h =>
      have hnodup : (extensions.map Extension.name).Nodup := (supplied_eq_ok hsupplied).1
      have hordered : Ordered t.pool t.order := (h.ordered .nil).1
      have hstands := stands_iff_holds h
      refine ⟨hnodup, fun e he name hreach => ?_⟩
      have hroot : e.name ∈ t.order := h.placed_of_ok rfl (request e.name) (List.mem_map_of_mem he)
      have hplaced : name ∈ t.order := by
        rcases reflTransGen_iff_eq_or_transGen.mp hreach with rfl | hreach
        · exact hroot
        · exact (requires_of_declared hsteady hnodup hordered hstands hroot hreach).2
      constructor
      · obtain ⟨e', he', -⟩ := hordered.exists_of_mem hplaced
        exact ⟨e', ((hstands name e').mpr he').declared⟩
      · intro hcircle
        refine (hordered.grounded name hplaced).not_transGen ?_
        exact (requires_of_declared hsteady hnodup hordered hstands hplaced hcircle).1
  · rintro ⟨hnodup, hall⟩
    rcases ordered_or_obstructed hnodup catalog journal with hok | ⟨s, e, hsteps, hs⟩
    · exact hok
    obtain ⟨name, ⟨e, he, hreach⟩, hreason⟩ := hs.declared hsteady hsteps
    obtain ⟨⟨e', he'⟩, hacyclic⟩ := hall e he name
      (Requires.reach_mono (fun _ _ => Stands.declared) hreach)
    rcases hreason with hnone | hcircle
    · exact absurd he' (hnone e')
    · exact absurd hcircle hacyclic

end Steady

end ServiceGraph
