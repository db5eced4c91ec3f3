import ServiceGraph.Proofs.Extension.Order

/-!
# Extensions keep their order

An extension is moved forward only where something supplied before it, or the one it overtakes,
requires it. So a list in which dependencies come first is left as it is.

* `Sorting.Search.split`: a search for some names and then for others;
* `Sorting.Search.reached`: what gets a place was asked for, directly or by what is asked for;
* `Sorting.order_kept`: two supplied names keep their order where the second was not reached before;
* `DependenciesFirst`: every extension of a list comes after its dependencies;
* `resolveOrder_of_dependenciesFirst`: such a list is left as it is;
* `order_stable`: the result.
-/

namespace ServiceGraph

open Relation

variable {σ : Type} {catalog : Catalog σ} {journal journal' : σ}

/-- every dependency of an extension stands somewhere before it -/
def DependenciesFirst (extensions : List (Extension σ)) : Prop :=
  ∀ earlier e later, extensions = earlier ++ e :: later →
    ∀ d ∈ e.dependencies, ∃ e' ∈ earlier, e'.name = d.name

namespace Sorting

variable {path : List String} {waiting name : String} {d : Dependency} {ds more : List Dependency}
  {s t u : Sorting σ} {r : Except ExtensionError Unit} {j : σ}
  {extensions earlier later : List (Extension σ)} {a b e : Extension σ}

/-! ## one root after the other -/

/-- a search for some names and then for others -/
theorem Search.split (h : Search catalog path waiting (ds ++ more) s (.ok ()) t) :
    ∃ u, Search catalog path waiting ds s (.ok ()) u ∧
      Search catalog path waiting more u (.ok ()) t := by
  induction ds generalizing s with
  | nil => exact ⟨s, .done, h⟩
  | cons d ds ih =>
    cases h with
    | placed he hin hrest =>
      obtain ⟨u, hds, hmore⟩ := ih hrest
      exact ⟨u, .placed he hin hds, hmore⟩
    | visited he hnew hfree hinner hrest =>
      obtain ⟨u, hds, hmore⟩ := ih hrest
      exact ⟨u, .visited he hnew hfree hinner hds, hmore⟩

/-- what gets a place is asked for, directly or by what is asked for -/
theorem Search.reached (h : Search catalog path waiting ds s r t) (hr : r = .ok ())
    (hname : name ∈ t.order) :
    name ∈ s.order ∨ ∃ d ∈ ds, ReflTransGen (Requires t.Holds) d.name name := by
  induction h with
  | done => exact .inl hname
  | unavailable _ => cases hr
  | placed he _ _ ih =>
    rw [← (ensured_of_ensure he).order_eq]
    exact (ih hr hname).imp id fun ⟨d, hd, hreach⟩ => ⟨d, List.mem_cons_of_mem _ hd, hreach⟩
  | closed _ _ _ => cases hr
  | failed _ _ _ _ _ => cases hr
  | @visited path waiting d ds s t u v r he _ _ hinner hrest ih ihrest =>
    rw [← (ensured_of_ensure he).order_eq]
    obtain ⟨e, heholds, hdeps⟩ := (ensured_of_ensure he).exists_holds
    rcases ihrest hr hname with hname | ⟨d', hd', hreach⟩
    · have hown : ReflTransGen (Requires v.Holds) d.name name ∨ name ∈ t.order := by
        rcases List.mem_append.mp hname with hname | hname
        · rcases ih rfl hname with hname | ⟨dep, hdep, hreach⟩
          · exact .inr hname
          · have hfirst : Requires u.Holds d.name dep.name :=
              ⟨e, hinner.grew.holds heholds, dep, hdeps ▸ hdep, rfl⟩
            exact .inl (Requires.reach_mono (fun _ _ => hrest.grew.holds) (.head hfirst hreach))
        · exact .inl (List.mem_singleton.mp hname ▸ .refl)
      exact hown.symm.imp id fun hreach => ⟨d, List.mem_cons_self, hreach⟩
    · exact .inr ⟨d', List.mem_cons_of_mem _ hd', hreach⟩

/-- two supplied names keep their order when neither the first nor a name supplied before it leads to
the second -/
theorem order_kept
    (h : Search catalog [] "" (roots (earlier ++ a :: later)) (start extensions j) (.ok ()) t)
    (hb : b ∈ later)
    (hapart : ∀ e ∈ earlier ++ [a], ¬ ReflTransGen (Requires t.Holds) e.name b.name) :
    [a.name, b.name].Sublist t.order := by
  have hroots : roots (earlier ++ a :: later) = roots (earlier ++ [a]) ++ roots later := by
    rw [roots, roots, roots, ← List.map_append, List.append_assoc, List.singleton_append]
  rw [hroots] at h
  obtain ⟨u, hfront, hback⟩ := h.split
  obtain ⟨rest, hrest⟩ := hback.order_prefix
  have ha : a.name ∈ u.order :=
    hfront.placed_of_ok rfl (request a.name) (List.mem_map_of_mem (by simp))
  have hin : b.name ∈ t.order := hback.placed_of_ok rfl (request b.name) (List.mem_map_of_mem hb)
  have hout : b.name ∉ u.order := by
    intro hbu
    rcases hfront.reached rfl hbu with hbu | ⟨d, hd, hreach⟩
    · cases hbu
    · obtain ⟨e, he, rfl⟩ := List.mem_map.mp hd
      exact hapart e he (Requires.reach_mono (fun _ _ => hback.grew.holds) hreach)
  rw [← hrest] at hin ⊢
  have hbrest : b.name ∈ rest := (List.mem_append.mp hin).resolve_left hout
  exact (List.singleton_sublist.mpr ha).append (List.singleton_sublist.mpr hbrest)

/-! ## extensions whose dependencies come first -/

theorem ensure_of_known (h : d.name ∈ s.pool.keys) : ensure catalog waiting d s = (.ok (), s) := by
  rw [ensure]
  exact if_pos (OrderedMap.contains_eq_true_iff.mpr h)

/-- a search for names that have their places changes nothing -/
theorem search_of_placed (h : ∀ d ∈ ds, d.name ∈ s.pool.keys ∧ d.name ∈ s.order) :
    Search catalog path waiting ds s (.ok ()) s := by
  induction ds with
  | nil => exact .done
  | cons d ds ih =>
    obtain ⟨⟨hknown, hplaced⟩, hds⟩ := List.forall_mem_cons.mp h
    exact .placed (ensure_of_known hknown) hplaced (ih hds)

theorem get?_supply (hnodup : (extensions.map Extension.name).Nodup) (he : e ∈ extensions) :
    (supply extensions).get? e.name = some e :=
  (distinct_supply hnodup).get?_of_mem (List.mem_map_of_mem he)

/-- where dependencies come first, every name is placed when its turn comes, and nothing is built -/
theorem search_of_dependenciesFirst (hnodup : (extensions.map Extension.name).Nodup)
    (hfirst : DependenciesFirst extensions) (hsplit : extensions = earlier ++ later) :
    Search catalog [] "" (roots later) ⟨supply extensions, earlier.map Extension.name, j⟩ (.ok ())
      ⟨supply extensions, extensions.map Extension.name, j⟩ := by
  -- by induction on the extensions whose turn is to come; those before are placed already
  induction later generalizing earlier with
  | nil =>
    rw [List.append_nil] at hsplit
    rw [hsplit]
    exact .done
  | cons e later ih =>
    have hin : e ∈ extensions := hsplit ▸ List.mem_append_right _ List.mem_cons_self
    have hknown : ∀ e ∈ extensions, e.name ∈ (supply extensions).keys := fun e he =>
      (keys_supply extensions).symm ▸ List.mem_map_of_mem he
    have hnew : e.name ∉ earlier.map Extension.name := by
      rw [hsplit, List.map_append, List.map_cons, List.nodup_append] at hnodup
      exact fun hm => hnodup.2.2 _ hm _ List.mem_cons_self rfl
    have hdeps : dependencies ⟨supply extensions, earlier.map Extension.name, j⟩ e.name =
        e.dependencies := by
      rw [dependencies, get?_supply hnodup hin]
      rfl
    have hplaced : ∀ d ∈ e.dependencies,
        d.name ∈ (supply extensions).keys ∧ d.name ∈ earlier.map Extension.name := by
      intro d hd
      obtain ⟨e', he', hname⟩ := hfirst earlier e later hsplit d hd
      rw [← hname]
      exact ⟨hknown e' (hsplit ▸ List.mem_append_left _ he'), List.mem_map_of_mem he'⟩
    have hmoved : extensions = earlier ++ [e] ++ later := by
      rw [hsplit, List.append_assoc]
      rfl
    have hrest := ih hmoved
    rw [List.map_append] at hrest
    have hinner : Search catalog ([] ++ [e.name]) e.name
        (dependencies ⟨supply extensions, earlier.map Extension.name, j⟩ e.name)
        ⟨supply extensions, earlier.map Extension.name, j⟩ (.ok ())
        ⟨supply extensions, earlier.map Extension.name, j⟩ := by
      rw [hdeps]
      exact search_of_placed hplaced
    exact Search.visited (d := request e.name) (ensure_of_known (hknown e hin)) hnew
      List.not_mem_nil hinner hrest

theorem values_supply (extensions : List (Extension σ)) : (supply extensions).values = extensions := by
  rw [OrderedMap.values, supply, List.map_map]
  exact List.map_id _

theorem map_name_of_ordered (hordered : Ordered t.pool t.order)
    (hnamed : ∀ name e, t.Holds name e → e.name = name) :
    (t.order.filterMap t.pool.get?).map Extension.name = t.order :=
  map_name_filterMap hnamed fun _ hname => (hordered.exists_of_mem hname).imp fun _ => And.left

/-- the extensions of an order in which names come after their dependencies do so as well -/
theorem dependenciesFirst_of_ordered (hordered : Ordered t.pool t.order)
    (hnamed : ∀ name e, t.Holds name e → e.name = name) :
    DependenciesFirst (t.order.filterMap t.pool.get?) := by
  intro earlier e later hsplit d hd
  have hnames := map_name_of_ordered hordered hnamed
  have hin : e ∈ t.order.filterMap t.pool.get? :=
    hsplit ▸ List.mem_append_right _ List.mem_cons_self
  obtain ⟨name, -, he⟩ := List.mem_filterMap.mp hin
  cases hnamed name e he
  rw [hsplit, List.map_append, List.map_cons] at hnames
  obtain ⟨e', he', hdeps⟩ := hordered.before hnames.symm
  cases he'.symm.trans he
  exact List.mem_map.mp (hdeps d hd)

end Sorting

open Sorting

variable {extensions ordered : List (Extension σ)}

theorem resolveOrder_of_dependenciesFirst (hnodup : (extensions.map Extension.name).Nodup)
    (hfirst : DependenciesFirst extensions) (catalog : Catalog σ) (journal : σ) :
    resolveOrder extensions catalog journal = (.ok extensions, journal) := by
  have hsupplied : supplied extensions [] = .ok (supply extensions) := supplied_of_nodup hnodup
  have hsearch : Search catalog [] "" (roots extensions) (start extensions journal) (.ok ())
      ⟨supply extensions, extensions.map Extension.name, journal⟩ :=
    search_of_dependenciesFirst hnodup hfirst (List.nil_append extensions).symm
  have horders := Orders.ordered hsupplied hsearch
  rw [← keys_supply, filterMap_get?_keys (distinct_supply hnodup), values_supply] at horders
  exact orders_iff.mp horders

/-- what an ordering gives has distinct names, and dependencies come first in it -/
theorem dependenciesFirst_of_resolveOrder (hcatalog : catalog.Named)
    (hok : resolveOrder extensions catalog journal = (.ok ordered, journal')) :
    (ordered.map Extension.name).Nodup ∧ DependenciesFirst ordered := by
  cases orders_iff.mpr hok with
  | @ordered t hsupplied h =>
    obtain ⟨calls, hcalls⟩ := h.exists_calls rfl
    have hordered : Ordered t.pool t.order := (h.ordered .nil).1
    have hnamed : ∀ name e, t.Holds name e → e.name = name := fun _ _ => hcalls.named hcatalog
    refine ⟨?_, dependenciesFirst_of_ordered hordered hnamed⟩
    rw [map_name_of_ordered hordered hnamed]
    exact hordered.nodup

/-- two supplied extensions keep their order when neither the first nor one supplied before it requires
the second -/
theorem sublist_of_not_requires (hcatalog : catalog.Named)
    (hok : resolveOrder extensions catalog journal = (.ok ordered, journal'))
    {earlier later : List (Extension σ)} {a b : Extension σ}
    (hsplit : extensions = earlier ++ a :: later) (hb : b ∈ later)
    (hapart : ∀ e ∈ earlier ++ [a], ¬ TransGen (Requires (Among ordered)) e.name b.name) :
    [a, b].Sublist ordered := by
  cases orders_iff.mpr hok with
  | @ordered t hsupplied h =>
    obtain ⟨calls, hcalls⟩ := h.exists_calls rfl
    have hnodup : (extensions.map Extension.name).Nodup := (supplied_eq_ok hsupplied).1
    have hnamed : ∀ name e, t.Holds name e → e.name = name := fun _ _ => hcalls.named hcatalog
    have hamong := holds_iff_among (order_perm h hnodup) hnamed
    have hholds : ∀ e ∈ extensions, t.Holds e.name e := fun e he =>
      hcalls.holds (get?_supply hnodup he)
    have hkept : [a.name, b.name].Sublist t.order := by
      refine order_kept (hsplit ▸ h) hb fun e he hreach => ?_
      rcases reflTransGen_iff_eq_or_transGen.mp hreach with heq | hreach
      · have hsame : (earlier ++ [a] ++ later).map Extension.name =
            extensions.map Extension.name := by rw [hsplit, List.append_assoc]; rfl
        rw [← hsame, List.map_append, List.nodup_append] at hnodup
        exact hnodup.2.2 _ (List.mem_map_of_mem he) _ (List.mem_map_of_mem hb) heq.symm
      · exact hapart e he (TransGen.mono (fun _ _ => Requires.mono fun name e => (hamong name e).mp)
          _ _ hreach)
    have hpair : [a.name, b.name].filterMap t.pool.get? = [a, b] := by
      have ha : t.Holds a.name a := hholds a (hsplit ▸ by simp)
      have hb : t.Holds b.name b := hholds b (hsplit ▸ by simp [hb])
      rw [List.filterMap_cons_some ha, List.filterMap_cons_some hb, List.filterMap_nil]
    exact hpair ▸ hkept.filterMap _

/-- **Extensions keep their order.** Where an ordering succeeds, a supplied extension stays before a
later one that neither it nor an earlier one requires, directly or by way of others. What is left as it
is are the lists of distinct names in which dependencies come first, and what an ordering gives is such
a list. -/
theorem order_stable (hcatalog : catalog.Named)
    (hok : resolveOrder extensions catalog journal = (.ok ordered, journal')) :
    (∀ earlier a later, extensions = earlier ++ a :: later → ∀ b ∈ later,
      (∀ e ∈ earlier ++ [a], ¬ TransGen (Requires (Among ordered)) e.name b.name) →
        [a, b].Sublist ordered) ∧
    (∀ list j, resolveOrder list catalog j = (.ok list, j) ↔
      (list.map Extension.name).Nodup ∧ DependenciesFirst list) ∧
    ∀ j, resolveOrder ordered catalog j = (.ok ordered, j) := by
  refine ⟨fun earlier a later hsplit b hb => sublist_of_not_requires hcatalog hok hsplit hb, ?_, ?_⟩
  · intro list j
    exact ⟨dependenciesFirst_of_resolveOrder hcatalog, fun ⟨hnodup, hfirst⟩ =>
      resolveOrder_of_dependenciesFirst hnodup hfirst catalog j⟩
  · intro j
    obtain ⟨hnodup, hfirst⟩ := dependenciesFirst_of_resolveOrder hcatalog hok
    exact resolveOrder_of_dependenciesFirst hnodup hfirst catalog j

/-- `blog` needs `log` from the catalog, and `mail` needs `http`, which needs `core` -/
def mailBeforeCore : List (Extension (List String)) :=
  [.idle "blog" [⟨"log", .null⟩], .idle "mail" [⟨"http", .str "fast"⟩],
    .idle "core" [⟨"config", .null⟩]]

/-- the order of them: `core` comes before `mail`, and stays behind `blog` -/
def mailAfterCore : List (Extension (List String)) :=
  [ .idle "log" [], .idle "blog" [⟨"log", .null⟩], .idle "config" [],
    .idle "core" [⟨"config", .null⟩], .idle "http" [⟨"core", .null⟩, ⟨"config", .str "fast"⟩],
    .idle "mail" [⟨"http", .str "fast"⟩] ]

theorem blog_requires_log_only {other : String}
    (h : TransGen (Requires (Among mailAfterCore)) "blog" other) : other = "log" := by
  have hall : ∀ e ∈ mailAfterCore, ∀ d ∈ e.dependencies,
      (e.name = "blog" → d.name = "log") ∧ e.name ≠ "log" := by
    simp [mailAfterCore, Extension.idle]
  induction h with
  | single h =>
    obtain ⟨e, ⟨he, hname⟩, d, hd, rfl⟩ := h
    exact (hall e he d hd).1 hname
  | tail _ h ih =>
    obtain ⟨e, ⟨he, hname⟩, d, hd, rfl⟩ := h
    exact absurd (hname.trans ih) (hall e he d hd).2

theorem blog_stays_before_core :
    journaled.Named ∧
    resolveOrder mailBeforeCore journaled [] = (.ok mailAfterCore, ["log", "http", "config"]) ∧
    [Extension.idle "blog" [⟨"log", .null⟩], .idle "core" [⟨"config", .null⟩]].Sublist
      mailAfterCore ∧
    resolveOrder mailAfterCore journaled [] = (.ok mailAfterCore, []) := by
  have hok : resolveOrder mailBeforeCore journaled [] =
      (.ok mailAfterCore, ["log", "http", "config"]) := rfl
  obtain ⟨hkept, -, hagain⟩ := order_stable journaled_named hok
  refine ⟨journaled_named, hok, hkept [] _ _ rfl _ (by simp) ?_, hagain []⟩
  intro e he hreach
  rw [List.mem_singleton.mp he] at hreach
  exact absurd (blog_requires_log_only hreach) (by decide)

end ServiceGraph
