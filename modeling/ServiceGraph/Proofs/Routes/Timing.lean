import ServiceGraph.Proofs.Routes.Contributions
import ServiceGraph.Proofs.Routes.Forest

/-!
# When contributions come

The table does not show in which order the extensions came to make their contributions. Siblings are
sorted by the boot position of their owner, so only the order in which one owner declared them is
left to count.

* `Interleaved`: the same calls, with the owners' creations mixed in another way;
* `RouteAssembler.Alike`: two assemblers with the same root routes and, for each owner, the same
  collections in the same order;
* `RouteAssembler.Siblings.of_alike`, `RouteAssembler.forest_eq`: the same siblings, and the same
  forest;
* `RouteAssembler.timing_invisible`: the result.
-/

namespace ServiceGraph

/-- calls that differ only in when the owners make their creations -/
structure Interleaved (ops ops' : List RouteChange) : Prop where
  adds : ∀ op ∈ ops, op.Adds
  adds' : ∀ op ∈ ops', op.Adds
  roots : addedRoots ops = addedRoots ops'
  configured : configurations ops = configurations ops'
  created : ∀ owner, (creations ops).filter (·.owner = owner) =
    (creations ops').filter (·.owner = owner)

namespace RouteAssembler

variable {a a' b : RouteAssembler} {order : List String} {parent : Option String}
  {cs : List RouteCollection} {table : RouteTable} {ops ops' : List RouteChange}

/-- two open assemblers with the same root routes and the same collections of each owner in the same
order, where both or none have configurations that wait -/
structure Alike (a a' : RouteAssembler) : Prop where
  isOpen : a.assembled = false
  isOpen' : a'.assembled = false
  distinct : a.Distinct
  distinct' : a'.Distinct
  roots : a.roots = a'.roots
  owned : ∀ owner, a.collections.filter (·.owner = owner) =
    a'.collections.filter (·.owner = owner)
  deferred : a.deferred = [] ↔ a'.deferred = []

theorem Alike.symm (h : Alike a a') : Alike a' a where
  isOpen := h.isOpen'
  isOpen' := h.isOpen
  distinct := h.distinct'
  distinct' := h.distinct
  roots := h.roots.symm
  owned owner := (h.owned owner).symm
  deferred := h.deferred.symm

theorem mem_iff_of_owned (h : ∀ owner, a.collections.filter (·.owner = owner) =
    a'.collections.filter (·.owner = owner)) {c : RouteCollection} :
    c ∈ a.collections ↔ c ∈ a'.collections := by
  have howned : c ∈ a.collections.filter (·.owner = c.owner) ↔
      c ∈ a'.collections.filter (·.owner = c.owner) := by rw [h]
  simpa using howned

theorem Alike.mem_iff (h : Alike a a') {c : RouteCollection} :
    c ∈ a.collections ↔ c ∈ a'.collections := mem_iff_of_owned h.owned

theorem Alike.perm (h : Alike a a') : a.collections.Perm a'.collections :=
  (List.perm_ext_iff_of_nodup h.distinct.nodup h.distinct'.nodup).mpr fun _ => h.mem_iff

/-- siblings of one rank have one owner, who declared them in the same order -/
theorem Siblings.of_alike (h : Alike a a') (howners : ∀ c ∈ a.collections, c.owner ∈ order)
    (hs : a.Siblings order parent cs) : a'.Siblings order parent cs where
  perm := hs.perm.trans (h.perm.filter _)
  sorted := by
    refine hs.sorted.imp_of_mem fun {c d} hc hd hcd => ?_
    rcases hcd with hlt | ⟨hrank, hsub⟩
    · exact .inl hlt
    · refine .inr ⟨hrank, ?_⟩
      have hin : c.owner ∈ order := howners c (hs.mem_iff.mp hc).1
      have howner : c.owner = d.owner := (List.idxOf_inj hin).mp hrank
      have hboth : [c, d].filter (·.owner = c.owner) = [c, d] := by simp [howner]
      have hown : [c, d].Sublist (a.collections.filter (·.owner = c.owner)) := by
        rw [← hboth]
        exact hsub.filter _
      rw [h.owned] at hown
      exact hown.trans List.filter_sublist

theorem children_eq (h : Alike a a') (howners : ∀ c ∈ a.collections, c.owner ∈ order)
    (parent : Option String) : a.children order parent = a'.children order parent :=
  ((siblings_children a order parent).of_alike h howners).unique h.distinct'
    (siblings_children a' order parent)

theorem walk_eq (hchildren : ∀ parent, a.children order parent = a'.children order parent)
    (depth : Nat) (parent : Option String) (outer : RouteScope) :
    a.walk order depth parent outer = a'.walk order depth parent outer := by
  induction depth generalizing parent outer with
  | zero => rfl
  | succ depth ih =>
    rw [walk, walk, hchildren]
    apply List.flatMap_congr
    intro c _
    rw [ih]

theorem forest_eq (h : Alike a a') (howners : ∀ c ∈ a.collections, c.owner ∈ order) :
    a.forest order = a'.forest order := by
  rw [forest, forest, h.perm.length_eq]
  exact walk_eq (children_eq h howners) _ _ _

theorem flatten_of_alike (h : Alike a a') (howners : ∀ c ∈ a.collections, c.owner ∈ order)
    (hok : a.flatten order = .ok (table, b)) : ∃ b', a'.flatten order = .ok (table, b') := by
  obtain ⟨-, hnone, hclosed, hall, rfl, -⟩ := flatten_eq_ok_iff.mp hok
  have hforest : a.forest order = a'.forest order := forest_eq h howners
  have hclosed' : a'.Closed := by
    intro c hc above hparent
    obtain ⟨d, hd, hid⟩ := hclosed c (h.mem_iff.mpr hc) above hparent
    exact ⟨d, h.mem_iff.mp hd, hid⟩
  have hall' : ∀ c ∈ a'.collections, c.id ∈ (a'.forest order).map (·.1.id) := by
    intro c hc
    rw [← hforest]
    exact hall c (h.mem_iff.mpr hc)
  have htable : a.routesOf (a.forest order) = a'.routesOf (a'.forest order) := by
    rw [hforest, routesOf, routesOf, h.roots]
  rw [htable]
  exact ⟨_, flatten_eq_ok_iff.mpr
    ⟨h.isOpen', h.deferred.mp hnone, hclosed', hall', rfl, rfl⟩⟩

theorem alike_of_interleaved (h : Interleaved ops ops') (ha : BuiltBy ops a) (ha' : BuiltBy ops' a') :
    Alike a a' := by
  have howned : ∀ owner, a.collections.filter (·.owner = owner) =
      a'.collections.filter (·.owner = owner) := by
    intro owner
    rw [ha.collections, ha'.collections, h.configured, List.filter_map, List.filter_map]
    exact congrArg _ (h.created owner)
  have hmem : ∀ c, c ∈ a.collections ↔ c ∈ a'.collections := fun c => mem_iff_of_owned howned
  have hids : ∀ id, id ∈ a.collections.map RouteCollection.id ↔
      id ∈ a'.collections.map RouteCollection.id := by
    intro id
    simp only [List.mem_map, hmem]
  refine ⟨ha.isOpen, ha'.isOpen, ha.distinct, ha'.distinct, ?_, howned, ?_⟩
  · rw [ha.roots, ha'.roots, h.roots]
  · rw [ha.deferred_eq_nil_iff, ha'.deferred_eq_nil_iff, h.configured]
    simp only [hids]

/-- **The table does not depend on when contributions come.** Take calls that are all accepted, in
two orders that differ in when each owner makes its creations. If every owner is booted, the tables
are equal, or there is none in both cases. -/
theorem timing_invisible (h : Interleaved ops ops') (hok : run ops = .ok a)
    (hok' : run ops' = .ok a') (howners : ∀ c ∈ creations ops, c.owner ∈ order) :
    (a.flatten order).toOption.map Prod.fst = (a'.flatten order).toOption.map Prod.fst := by
  have ha : BuiltBy ops a := builtBy_of_run h.adds hok
  have halike : Alike a a' := alike_of_interleaved h ha (builtBy_of_run h.adds' hok')
  have hbooted : ∀ c ∈ a.collections, c.owner ∈ order := by
    rw [ha.collections]
    intro c hc
    obtain ⟨made, hmade, rfl⟩ := List.mem_map.mp hc
    exact howners made hmade
  have hbooted' : ∀ c ∈ a'.collections, c.owner ∈ order :=
    fun c hc => hbooted c (halike.mem_iff.mpr hc)
  cases hflat : a.flatten order with
  | ok r =>
    obtain ⟨b, hb⟩ := flatten_of_alike halike hbooted hflat
    rw [hb]
    rfl
  | error e =>
    cases hflat' : a'.flatten order with
    | ok r =>
      obtain ⟨b, hb⟩ := flatten_of_alike halike.symm hbooted' hflat'
      cases hflat.symm.trans hb
    | error e' => rfl

def adminByCore : Creation :=
  ⟨"admin", "core", none, ⟨some "admin", none, []⟩, [.forPath "login" (.literal .null)]⟩

def pagesByWeb : Creation :=
  ⟨"pages", "web", some "admin", .empty, [.forPath "list" (.literal .null)]⟩

def blogByWeb : Creation :=
  ⟨"blog", "web", none, .empty, [.forPath "posts" (.literal .null)]⟩

/-- `core` creates `admin`, and `web` configures and creates `pages` below it -/
def coreThenWeb : List RouteChange :=
  [ .ofCreation adminByCore,
    .addRoot (.forPath "home" (.literal .null)),
    .configure "@pages" ⟨some "pages", none, []⟩ (some "web"),
    .ofCreation pagesByWeb,
    .ofCreation blogByWeb ]

/-- the same, where `web` comes first and `pages` is there when it is configured -/
def webThenCore : List RouteChange :=
  [ .ofCreation pagesByWeb,
    .ofCreation blogByWeb,
    .configure "@pages" ⟨some "pages", none, []⟩ (some "web"),
    .addRoot (.forPath "home" (.literal .null)),
    .ofCreation adminByCore ]

theorem coreThenWeb_interleaved : Interleaved coreThenWeb webThenCore where
  adds op hop := by
    simp only [coreThenWeb, List.mem_cons, List.not_mem_nil, or_false] at hop
    rcases hop with rfl | rfl | rfl | rfl | rfl <;> trivial
  adds' op hop := by
    simp only [webThenCore, List.mem_cons, List.not_mem_nil, or_false] at hop
    rcases hop with rfl | rfl | rfl | rfl | rfl <;> trivial
  roots := rfl
  configured := rfl
  created owner := by
    show [adminByCore, pagesByWeb, blogByWeb].filter (·.owner = owner) =
      [pagesByWeb, blogByWeb, adminByCore].filter (·.owner = owner)
    by_cases hcore : "core" = owner
    · cases hcore
      rfl
    · have hadmin : adminByCore.owner ≠ owner := hcore
      simp [List.filter_cons, hadmin]

theorem coreThenWeb_timing_invisible :
    ∃ a a', run coreThenWeb = .ok a ∧ run webThenCore = .ok a' ∧
      (a.flatten ["core", "web"]).toOption.map Prod.fst =
        (a'.flatten ["core", "web"]).toOption.map Prod.fst ∧
      ((a.flatten ["core", "web"]).toOption.map fun r => r.1.paths) =
        some ["/home", "/admin/login", "/admin/pages/list", "/posts"] :=
  ⟨_, _, rfl, rfl,
    timing_invisible coreThenWeb_interleaved rfl rfl (by decide), by decide⟩

end RouteAssembler
end ServiceGraph
