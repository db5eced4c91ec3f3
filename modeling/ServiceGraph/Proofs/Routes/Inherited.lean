import Mathlib.Data.List.DropRight
import ServiceGraph.Proofs.Routes.Forest

/-!
# What routes inherit

A route takes from the collections around it, from the outermost to its own: of the domains the
innermost that is set, all arguments laid over each other with its own defaults on top, and a path that
joins the prefixes that are set with its own path. Paths come out with one slash in front.

* `Routes.OneSlash`: a slash in front and none right behind it; `Routes.oneSlash_joinChars`: joining
  below such a path, or below nothing, gives such a path;
* `Inherited chain r out`: what a route comes to below a chain of collections;
* `RouteScope.around`: the scope inside a lineage, and `RouteScope.inherited_around`: what it makes of a
  route;
* `RouteAssembler.Traversal.around`: a traversal gives every collection the scope of its lineage;
* `RouteAssembler.filter_routesOf`: the part of a table that one collection has;
* `RouteAssembler.attributes_inherited`: the result.
-/

namespace ServiceGraph

/-! ## joined paths -/

namespace Routes

variable {outer path : List Char}

/-- a path with a slash in front and no second one right behind it -/
def OneSlash (s : List Char) : Prop := ∃ rest, s = '/' :: rest ∧ rest.head? ≠ some '/'

theorem head?_trimStart (s : List Char) : (trimStart s).head? ≠ some '/' := by
  intro h
  have hnot := List.head?_dropWhile_not (fun c : Char => decide (c = '/')) s
  rw [← trimStart, h] at hnot
  simp at hnot

theorem oneSlash_trimStart (s : List Char) : OneSlash ('/' :: trimStart s) :=
  ⟨trimStart s, rfl, head?_trimStart s⟩

/-- without the slashes at its end, a path with one slash in front is empty or goes on after it -/
theorem OneSlash.trimEnd (h : OneSlash outer) (hne : trimEnd outer ≠ []) :
    ∃ c rest, Routes.trimEnd outer = '/' :: c :: rest ∧ c ≠ '/' := by
  obtain ⟨behind, rfl, hbehind⟩ := h
  obtain ⟨cut, hcut⟩ : Routes.trimEnd ('/' :: behind) <+: '/' :: behind :=
    List.rdropWhile_prefix _ _
  have hlast : (Routes.trimEnd ('/' :: behind)).getLast hne ≠ '/' := fun heq =>
    List.rdropWhile_last_not (fun c => decide (c = '/')) _ hne (decide_eq_true heq)
  generalize Routes.trimEnd ('/' :: behind) = kept at hne hcut hlast
  match kept with
  | [] => exact absurd rfl hne
  | [first] =>
    cases hcut
    exact absurd rfl hlast
  | first :: c :: rest =>
    cases hcut
    exact ⟨c, rest, rfl, fun heq => hbehind (congrArg some heq)⟩

/-- joining below nothing, or below a path with one slash in front, gives one slash in front -/
theorem oneSlash_joinChars (h : outer = [] ∨ OneSlash outer) (path : List Char) :
    OneSlash (joinChars outer path) := by
  unfold joinChars
  dsimp only
  split
  next => exact oneSlash_trimStart path
  next hne =>
    rcases h with rfl | h
    · exact absurd rfl hne
    · obtain ⟨c, rest, htrim, hc⟩ := h.trimEnd hne
      have hhead : ∀ more : List Char, OneSlash ('/' :: c :: more) := fun more =>
        ⟨c :: more, rfl, fun heq => hc (Option.some.inj heq)⟩
      have hrooted : rooted ('/' :: c :: rest) = '/' :: c :: rest := if_pos rfl
      rw [htrim, hrooted]
      split
      · exact hhead rest
      · exact hhead (rest ++ '/' :: trimStart path)

/-- a prefix that was joined from others, or from none -/
def Joined (s : String) : Prop := s.toList = [] ∨ OneSlash s.toList

theorem oneSlash_joinPath {outer : String} (h : Joined outer) (path : String) :
    OneSlash (joinPath outer path).toList := by
  rw [joinPath, String.toList_ofList]
  exact oneSlash_joinChars h _

end Routes

/-! ## a route below a chain of collections -/

/-- what a route comes to below a chain of collections, from the outermost to its own -/
structure Inherited (chain : List RouteCollection) (r : Route) (out : ResolvedRoute) : Prop where
  collection : out.collection = chain.getLast?.map RouteCollection.id
  methods : out.methods = r.methods
  handler : out.handler = r.handler
  /-- the innermost domain that is set -/
  domain : out.domain = (chain.filterMap (·.group.domain)).getLast?
  /-- the arguments laid over each other from the outermost on, and the route's own on top -/
  defaults : out.defaults = (chain.map (·.group.args) ++ [r.defaults]).foldl OrderedMap.extend []
  /-- the prefixes that are set and the route's own path, each joined to the ones before -/
  path : out.path = (chain.filterMap (·.group.pathPrefix) ++ [r.path]).foldl Routes.joinPath ""

namespace RouteScope

variable {c : RouteCollection} {older path : List RouteCollection}

/-- the scope inside collections, given from the inside out -/
def around : List RouteCollection → RouteScope
  | [] => .top
  | c :: older => (around older).within c

theorem domain_around (path : List RouteCollection) :
    (around path).domain = (path.reverse.filterMap (·.group.domain)).getLast? := by
  induction path with
  | nil => rfl
  | cons c older ih =>
    rw [around, within, ih, List.reverse_cons, List.filterMap_append]
    cases h : c.group.domain with
    | none => simp [h]
    | some domain => simp [h]

theorem args_around (path : List RouteCollection) :
    (around path).args = (path.reverse.map (·.group.args)).foldl OrderedMap.extend [] := by
  induction path with
  | nil => rfl
  | cons c older ih =>
    rw [around, within, ih, List.reverse_cons, List.map_append, List.foldl_append]
    rfl

theorem pathPrefix_around (path : List RouteCollection) :
    (around path).pathPrefix =
      (path.reverse.filterMap (·.group.pathPrefix)).foldl Routes.joinPath "" := by
  induction path with
  | nil => rfl
  | cons c older ih =>
    rw [around, within, ih, List.reverse_cons, List.filterMap_append, List.foldl_append]
    cases h : c.group.pathPrefix with
    | none => simp [h]
    | some pathPrefix => simp [h]

theorem joined_around (path : List RouteCollection) : Routes.Joined (around path).pathPrefix := by
  induction path with
  | nil => exact .inl rfl
  | cons c older ih =>
    rw [around, within]
    dsimp only
    split
    · exact .inr (Routes.oneSlash_joinPath ih _)
    · exact ih

/-- a route inside collections comes to what it inherits from them -/
theorem inherited_around (path : List RouteCollection) (r : Route) :
    Inherited path.reverse r ((around path).resolve (path.head?.map RouteCollection.id) r) where
  collection := by rw [List.getLast?_reverse]; rfl
  methods := rfl
  handler := rfl
  domain := domain_around path
  defaults := by
    rw [List.foldl_append, ← args_around]
    rfl
  path := by
    rw [List.foldl_append, ← pathPrefix_around]
    rfl

end RouteScope

/-! ## the table -/

namespace RouteAssembler

variable {a a' : RouteAssembler} {order : List String} {c : RouteCollection}
  {cs older path : List RouteCollection} {outer scope : RouteScope}
  {out : List (RouteCollection × RouteScope)} {table : RouteTable}

/-- a traversal gives every collection the scope of its lineage -/
theorem Traversal.around (h : a.Traversal order cs outer out)
    (hcs : ∀ c ∈ cs, a.Lineage (c :: path)) (houter : outer = .around path) :
    ∀ p ∈ out, ∃ older, a.Lineage (p.1 :: older) ∧ p.2 = .around (p.1 :: older) := by
  induction h generalizing path with
  | nil => exact fun p hp => nomatch hp
  | @cons c cs below outer inner rest hbelow _ _ ih ihrest =>
    obtain ⟨hc, hcs⟩ := List.forall_mem_cons.mp hcs
    have hwithin : outer.within c = .around (c :: path) := by rw [houter]; rfl
    refine List.forall_mem_cons.mpr ⟨⟨path, hc, hwithin⟩, List.forall_mem_append.mpr ⟨?_, ?_⟩⟩
    · exact ih (fun _ => hbelow.lineage hc) hwithin
    · exact ihrest hcs houter

theorem scope_of_mem_forest (hdistinct : a.Distinct) (hlineage : a.Lineage (c :: older))
    (h : (c, scope) ∈ a.forest order) : scope = .around (c :: older) := by
  obtain ⟨older', hlineage', hscope⟩ :=
    (traversal_forest hdistinct order).around (fun _ => lineage_of_mem_children) rfl _ h
  rw [hlineage.unique hdistinct hlineage']
  exact hscope

/-- routes resolved for one collection are all its own -/
theorem filter_resolve (routes : List Route) (scope : RouteScope) (own collection : Option String) :
    (routes.map (scope.resolve own)).filter (·.collection = collection) =
      if own = collection then routes.map (scope.resolve own) else [] := by
  have hown : ∀ r ∈ routes.map (scope.resolve own), r.collection = own := by
    intro r hr
    obtain ⟨route, -, rfl⟩ := List.mem_map.mp hr
    rfl
  by_cases h : own = collection
  · rw [if_pos h, List.filter_eq_self]
    exact fun r hr => decide_eq_true ((hown r hr).trans h)
  · rw [if_neg h, List.filter_eq_nil_iff]
    exact fun r hr heq => h ((hown r hr).symm.trans (of_decide_eq_true heq))

theorem filter_flatMap_of_not_mem {id : String} (h : ∀ p ∈ out, p.1.id ≠ id) :
    (out.flatMap fun (d, scope) => d.routes.map (scope.resolve (some d.id))).filter
      (·.collection = some id) = [] := by
  rw [List.filter_flatMap, List.flatMap_eq_nil_iff]
  intro p hp
  exact (filter_resolve _ p.2 _ _).trans (if_neg fun heq => h p hp (Option.some.inj heq))

/-- the routes outside collections -/
theorem filter_routesOf_none (a : RouteAssembler) (out : List (RouteCollection × RouteScope)) :
    (a.routesOf out).filter (·.collection = none) = a.roots.map (RouteScope.top.resolve none) := by
  have hnone : ∀ p ∈ out, (p.1.routes.map (p.2.resolve (some p.1.id))).filter
      (·.collection = none) = [] := fun p _ => (filter_resolve _ p.2 _ _).trans (if_neg nofun)
  rw [routesOf, List.filter_append, filter_resolve, if_pos rfl, List.filter_flatMap,
    List.flatMap_eq_nil_iff.mpr hnone, List.append_nil]

/-- the routes of a collection that comes once -/
theorem filter_routesOf (hnodup : (out.map (·.1.id)).Nodup) (h : (c, scope) ∈ out) :
    (a.routesOf out).filter (·.collection = some c.id) =
      c.routes.map (scope.resolve (some c.id)) := by
  obtain ⟨before, after, rfl⟩ := List.append_of_mem h
  rw [List.map_append, List.map_cons, List.nodup_append, List.nodup_cons] at hnodup
  obtain ⟨-, ⟨hafter, -⟩, hapart⟩ := hnodup
  have hbefore : ∀ p ∈ before, p.1.id ≠ c.id := fun p hp =>
    hapart _ (List.mem_map_of_mem hp) _ List.mem_cons_self
  have hafter : ∀ p ∈ after, p.1.id ≠ c.id := fun p hp heq =>
    hafter (heq ▸ List.mem_map_of_mem hp)
  rw [routesOf, List.filter_append, filter_resolve, if_neg nofun, List.nil_append,
    List.flatMap_append, List.filter_append, filter_flatMap_of_not_mem hbefore, List.nil_append,
    List.flatMap_cons, List.filter_append, filter_flatMap_of_not_mem hafter, List.append_nil]
  exact (filter_resolve _ scope _ _).trans (if_pos rfl)

theorem nodup_ids_forest (hdistinct : a.Distinct) (order : List String) :
    ((a.forest order).map (·.1.id)).Nodup := by
  have hnodup := nodup_forest hdistinct order
  have hin : ∀ c ∈ (a.forest order).map Prod.fst, c ∈ a.collections := by
    intro c hc
    obtain ⟨older, hlineage⟩ := (mem_forest_iff hdistinct order).mp hc
    exact hlineage.mem
  have hids : ((a.forest order).map Prod.fst).map RouteCollection.id =
      (a.forest order).map (·.1.id) := List.map_map
  rw [← hids]
  exact hnodup.map_on fun c hc d hd => hdistinct.eq (hin c hc) (hin d hd)

theorem oneSlash_of_mem_routesOf (hdistinct : a.Distinct) {r : ResolvedRoute}
    (h : r ∈ a.routesOf (a.forest order)) : Routes.OneSlash r.path.toList := by
  rcases List.mem_append.mp h with h | h
  · obtain ⟨route, -, rfl⟩ := List.mem_map.mp h
    exact Routes.oneSlash_joinPath (.inl rfl) _
  · obtain ⟨⟨c, scope⟩, hc, h⟩ := List.mem_flatMap.mp h
    obtain ⟨route, -, rfl⟩ := List.mem_map.mp h
    obtain ⟨older, hlineage⟩ := (mem_forest_iff hdistinct order).mp (List.mem_map_of_mem hc)
    rw [scope_of_mem_forest hdistinct hlineage hc]
    exact Routes.oneSlash_joinPath (RouteScope.joined_around _) _

/-- **Attributes are inherited along the chain of parents.** In a table that was made, every collection
has one chain of collections around it, and its routes stand there in their order, each with what it
inherits along the chain; so do the routes outside collections, which inherit nothing. Every path begins
with one slash. -/
theorem attributes_inherited (hdistinct : a.Distinct) (h : a.flatten order = .ok (table, a')) :
    (∀ c ∈ a.collections, ∃! older, a.Lineage (c :: older)) ∧
    (∀ c older, a.Lineage (c :: older) →
      List.Forall₂ (Inherited (c :: older).reverse) c.routes
        (table.routes.filter (·.collection = some c.id))) ∧
    List.Forall₂ (Inherited []) a.roots (table.routes.filter (·.collection = none)) ∧
    ∀ r ∈ table.routes, Routes.OneSlash r.path.toList := by
  obtain ⟨-, -, -, hall, rfl, -⟩ := flatten_eq_ok_iff.mp h
  refine ⟨fun c hc => ?_, fun c older hlineage => ?_, ?_, fun r => oneSlash_of_mem_routesOf hdistinct⟩
  · obtain ⟨older, hlineage⟩ := (id_mem_forest_iff hdistinct order hc).mp (hall c hc)
    exact ⟨older, hlineage, fun _ h => h.unique hdistinct hlineage⟩
  · obtain ⟨⟨_, scope⟩, hin, rfl⟩ :=
      List.mem_map.mp ((mem_forest_iff hdistinct order).mpr ⟨older, hlineage⟩)
    rw [filter_routesOf (nodup_ids_forest hdistinct order) hin,
      scope_of_mem_forest hdistinct hlineage hin, List.forall₂_map_right_iff, List.forall₂_same]
    exact fun r _ => RouteScope.inherited_around _ r
  · rw [filter_routesOf_none, List.forall₂_map_right_iff, List.forall₂_same]
    exact fun r _ => RouteScope.inherited_around [] r

def adminPages : RouteCollection :=
  ⟨"admin", "core", none,
    ⟨some "//admin/", some "example.org", [("area", .str "admin"), ("page", .int 1)]⟩, []⟩

/-- it sets neither a prefix nor a domain -/
def userPages : RouteCollection :=
  ⟨"users", "core", some "admin", ⟨none, none, [("area", .str "users")]⟩, []⟩

/-- its prefix is a slash -/
def userLists : RouteCollection :=
  ⟨"lists", "core", some "users", ⟨some "/", none, []⟩,
    [⟨["GET"], "//all", .literal .null, [("page", .int 2)]⟩]⟩

def stacked : RouteAssembler :=
  { roots := [.forPath "//home" (.literal .null)]
    collections := [userLists, adminPages, userPages]
    deferred := []
    assembled := false }

/-- the paths and domains of the table, and the defaults of the inner route -/
example : ((stacked.flatten ["core"]).toOption.map fun r =>
    r.1.routes.map fun r => (r.path, r.domain, r.defaults)) =
      some [("/home", none, []),
        ("/admin/all", some "example.org", [("area", .str "users"), ("page", .int 2)])] := by
  decide

theorem stacked_attributes_inherited :
    stacked.Distinct ∧
    stacked.flatten ["core"] =
      .ok (⟨stacked.routesOf (stacked.forest ["core"])⟩, { stacked with assembled := true }) ∧
    List.Forall₂ (Inherited [adminPages, userPages, userLists]) userLists.routes
      ((stacked.routesOf (stacked.forest ["core"])).filter (·.collection = some "lists")) ∧
    ∀ r ∈ stacked.routesOf (stacked.forest ["core"]), Routes.OneSlash r.path.toList := by
  have hdistinct : stacked.Distinct := by decide
  have hflat : stacked.flatten ["core"] =
      .ok (⟨stacked.routesOf (stacked.forest ["core"])⟩, { stacked with assembled := true }) := rfl
  have hadmin : adminPages ∈ stacked.collections := by simp [stacked]
  have husers : userPages ∈ stacked.collections := by simp [stacked]
  have hlists : userLists ∈ stacked.collections := by simp [stacked]
  have hlineage : stacked.Lineage [userLists, userPages, adminPages] :=
    .under (.under (.top hadmin rfl) husers rfl) hlists rfl
  obtain ⟨-, hroutes, -, hpaths⟩ := attributes_inherited hdistinct hflat
  exact ⟨hdistinct, hflat, hroutes _ _ hlineage, hpaths⟩

end RouteAssembler
end ServiceGraph
