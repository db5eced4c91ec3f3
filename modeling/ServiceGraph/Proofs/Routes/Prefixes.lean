import Mathlib.Data.List.DropRight
import ServiceGraph.Proofs.Routes.Inherited

/-!
# Prefixes in groups

Joining paths is associative. So it does not matter to a route whether a prefix is spread over collections
inside each other or written as one, or at which of the joints the slashes stand.

* `Routes.joinChars_eq`: a joined path is a stem, left of the outer path, with the other one behind a slash;
* `Routes.stem_joinChars`, `Routes.slashed_trimStart_joinChars`: what a joined path is as an outer path, and
  as one behind another;
* `Routes.joinPath_assoc`: joining is associative;
* `Routes.joinAll`: prefixes written as one; `RouteAssembler.paths_of_lineage`: the paths that a collection
  gives to its routes;
* `RouteAssembler.prefixes_regrouped`: the result.
-/

namespace ServiceGraph

/-! ## joining in groups -/

namespace Routes

variable {s t outer path : List Char}

theorem trimStart_append (s t : List Char) :
    trimStart (s ++ t) = if trimStart s = [] then trimStart t else trimStart s ++ t := by
  rw [trimStart, trimStart, trimStart, List.dropWhile_append]
  simp only [List.isEmpty_iff]

theorem trimEnd_append (s t : List Char) :
    trimEnd (s ++ t) = if trimEnd t = [] then trimEnd s else s ++ trimEnd t := by
  simp only [trimEnd, List.reverse_append, List.dropWhile_append, List.isEmpty_iff,
    List.reverse_eq_nil_iff]
  split <;> simp

theorem trimEnd_cons_slash (s : List Char) :
    trimEnd ('/' :: s) = if trimEnd s = [] then [] else '/' :: trimEnd s :=
  trimEnd_append ['/'] s

theorem trimStart_trimStart (s : List Char) : trimStart (trimStart s) = trimStart s :=
  List.dropWhile_idempotent _ s

theorem trimEnd_trimEnd (s : List Char) : trimEnd (trimEnd s) = trimEnd s :=
  List.rdropWhile_idempotent _ s

/-- nothing is left on either side of slashes only -/
theorem trimStart_eq_nil_iff : trimStart s = [] ↔ trimEnd s = [] := by
  have hstart : trimStart s = [] ↔ ∀ c ∈ s, decide (c = '/') = true := List.dropWhile_eq_nil_iff
  have hend : trimEnd s = [] ↔ ∀ c ∈ s, decide (c = '/') = true := List.rdropWhile_eq_nil_iff
  rw [hstart, hend]

/-- the two ends of a path do not meet -/
theorem trimStart_trimEnd (s : List Char) : trimStart (trimEnd s) = trimEnd (trimStart s) := by
  induction s with
  | nil => rfl
  | cons c s ih =>
    by_cases hc : c = '/'
    · subst hc
      have hskip : ∀ t, trimStart ('/' :: t) = trimStart t := fun t => rfl
      rw [trimEnd_cons_slash, hskip, ← ih]
      split
      next hs => rw [hs]
      next => exact hskip _
    · have hkeep : ∀ t, trimStart (c :: t) = c :: t := fun t =>
        List.dropWhile_cons_of_neg (by simpa using hc)
      have hone : trimEnd [c] = [c] := by simp [trimEnd, hc]
      have hends : trimEnd (c :: s) = if trimEnd s = [] then [c] else c :: trimEnd s := by
        have happend := trimEnd_append [c] s
        rwa [hone] at happend
      rw [hkeep, hends]
      split
      · exact hkeep []
      · exact hkeep _

/-- a path behind another one: nothing, or a slash in front -/
def slashed (s : List Char) : List Char := if s = [] then [] else '/' :: s

/-- what joining leaves of an outer path -/
def stem (outer : List Char) : List Char :=
  if trimEnd outer = [] then [] else rooted (trimEnd outer)

def orSlash (s : List Char) : List Char := if s = [] then ['/'] else s

theorem slashed_of_ne_nil (h : s ≠ []) : slashed s = '/' :: s := if_neg h

theorem head?_rooted (s : List Char) : (rooted s).head? = some '/' := by
  unfold rooted
  split
  next h => exact h
  next => rfl

theorem rooted_of_head? (h : s.head? = some '/') : rooted s = s := if_pos h

theorem rooted_ne_nil (s : List Char) : rooted s ≠ [] := by
  intro h
  have hhead := head?_rooted s
  rw [h] at hhead
  cases hhead

theorem joinChars_eq (outer path : List Char) :
    joinChars outer path = orSlash (stem outer ++ slashed (trimStart path)) := by
  unfold joinChars stem
  dsimp only
  by_cases houter : trimEnd outer = []
  · rw [if_pos houter, if_pos houter, List.nil_append]
    by_cases hpath : trimStart path = []
    · rw [hpath]
      rfl
    · rw [slashed_of_ne_nil hpath]
      rfl
  · rw [if_neg houter, if_neg houter]
    have hroot := rooted_ne_nil (trimEnd outer)
    by_cases hpath : trimStart path = []
    · rw [if_pos hpath, hpath, slashed, if_pos rfl, List.append_nil, orSlash, if_neg hroot]
    · rw [if_neg hpath, slashed_of_ne_nil hpath, orSlash, if_neg (by simp)]

theorem trimEnd_slashed (s : List Char) : trimEnd (slashed s) = slashed (trimEnd s) := by
  by_cases hs : s = []
  · rw [hs]
    rfl
  · rw [slashed_of_ne_nil hs, trimEnd_cons_slash]
    rfl

theorem trimEnd_stem (outer : List Char) : trimEnd (stem outer) = stem outer := by
  unfold stem
  split
  next => rfl
  next hne =>
    unfold rooted
    split
    · exact trimEnd_trimEnd outer
    · rw [trimEnd_cons_slash, trimEnd_trimEnd, if_neg hne]

theorem trimEnd_orSlash (s : List Char) : trimEnd (orSlash s) = trimEnd s := by
  by_cases hs : s = []
  · rw [hs]
    rfl
  · rw [orSlash, if_neg hs]

theorem head?_stem_append (outer t : List Char) (h : stem outer ++ slashed t ≠ []) :
    (stem outer ++ slashed t).head? = some '/' := by
  by_cases houter : trimEnd outer = []
  · have hstem : stem outer = [] := if_pos houter
    rw [hstem, List.nil_append] at h ⊢
    unfold slashed at h ⊢
    split at h
    next => exact absurd rfl h
    next ht =>
      rw [if_neg ht]
      rfl
  · have hstem : stem outer = rooted (trimEnd outer) := if_neg houter
    rw [hstem, List.head?_append, head?_rooted, Option.some_or]

/-- a joined path as an outer path: its end is that of the inner one, without slashes on either side -/
theorem stem_joinChars (outer path : List Char) :
    stem (joinChars outer path) = stem outer ++ slashed (trimEnd (trimStart path)) := by
  have htrim : trimEnd (joinChars outer path) = stem outer ++ slashed (trimEnd (trimStart path)) := by
    rw [joinChars_eq, trimEnd_orSlash, trimEnd_append, trimEnd_slashed, trimEnd_stem]
    split
    next h => rw [h, List.append_nil]
    next => rfl
  rw [stem, htrim]
  split
  next h => exact h.symm
  next h => exact rooted_of_head? (head?_stem_append outer _ h)

/-- a joined path behind another one: its front is that of the outer one, without slashes on either side -/
theorem slashed_trimStart_joinChars (outer path : List Char) :
    slashed (trimStart (joinChars outer path)) =
      slashed (trimStart (trimEnd outer)) ++ slashed (trimStart path) := by
  rw [joinChars_eq]
  by_cases houter : trimEnd outer = []
  · rw [stem, if_pos houter, houter, List.nil_append]
    by_cases hpath : trimStart path = []
    · rw [hpath]
      rfl
    · have hskip : trimStart ('/' :: trimStart path) = trimStart path := trimStart_trimStart path
      rw [slashed_of_ne_nil hpath, orSlash, if_neg (List.cons_ne_nil _ _), hskip, slashed_of_ne_nil hpath]
      rfl
  · have hfront : trimStart (rooted (trimEnd outer)) = trimStart (trimEnd outer) := by
      unfold rooted
      split
      · rfl
      · rfl
    have hne : trimStart (trimEnd outer) ≠ [] := by
      rw [ne_eq, trimStart_eq_nil_iff, trimEnd_trimEnd]
      exact houter
    rw [stem, if_neg houter, orSlash, if_neg (by simp [rooted_ne_nil]), trimStart_append, hfront,
      if_neg hne, slashed_of_ne_nil (by simp [hne]), slashed_of_ne_nil hne]
    rfl

theorem joinChars_assoc (a b c : List Char) :
    joinChars (joinChars a b) c = joinChars a (joinChars b c) := by
  rw [joinChars_eq, stem_joinChars, joinChars_eq a, slashed_trimStart_joinChars, trimStart_trimEnd,
    List.append_assoc]

theorem joinPath_assoc (a b c : String) : joinPath (joinPath a b) c = joinPath a (joinPath b c) := by
  simp only [joinPath, String.toList_ofList, joinChars_assoc]

instance : Std.Associative joinPath := ⟨joinPath_assoc⟩

/-- prefixes written as one; none if there is none -/
def joinAll : List String → Option String
  | [] => none
  | p :: ps => some (ps.foldl joinPath p)

/-- prefixes one after the other come to the one that they are written as -/
theorem foldl_joinPath (outer : String) (ps : List String) :
    ps.foldl joinPath outer = ((joinAll ps).map (joinPath outer)).getD outer := by
  cases ps with
  | nil => rfl
  | cons p ps => exact List.foldl_assoc

end Routes

/-! ## routes below collections -/

/-- the prefixes that are set around a route, from the outermost on; the collections are given from the
inside out -/
def RouteScope.prefixes (path : List RouteCollection) : List String :=
  path.reverse.filterMap (·.group.pathPrefix)

namespace RouteAssembler

variable {a a' : RouteAssembler} {order : List String} {c : RouteCollection} {older : List RouteCollection}
  {table : RouteTable}

def pathsOf (table : RouteTable) (c : RouteCollection) : List String :=
  (table.routes.filter (·.collection = some c.id)).map ResolvedRoute.path

theorem paths_of_lineage (hdistinct : a.Distinct) (h : a.flatten order = .ok (table, a'))
    (hlineage : a.Lineage (c :: older)) :
    pathsOf table c = c.routes.map fun r =>
      Routes.joinPath (((Routes.joinAll (RouteScope.prefixes (c :: older))).map (Routes.joinPath "")).getD "")
        r.path := by
  obtain ⟨-, -, -, -, rfl, -⟩ := flatten_eq_ok_iff.mp h
  obtain ⟨⟨_, scope⟩, hin, rfl⟩ :=
    List.mem_map.mp ((mem_forest_iff hdistinct order).mpr ⟨older, hlineage⟩)
  rw [pathsOf, filter_routesOf (nodup_ids_forest hdistinct order) hin,
    scope_of_mem_forest hdistinct hlineage hin, List.map_map]
  refine List.map_congr_left fun r _ => ?_
  show Routes.joinPath (RouteScope.around _).pathPrefix r.path = _
  rw [RouteScope.pathPrefix_around, Routes.foldl_joinPath]
  rfl

/-- **Prefixes can be regrouped.** Joining paths is associative. So routes stand in two tables under the same
paths when the prefixes around them, written as one, are the same, in however many collections inside each
other they are given. -/
theorem prefixes_regrouped :
    (∀ x y z : String,
      Routes.joinPath (Routes.joinPath x y) z = Routes.joinPath x (Routes.joinPath y z)) ∧
    ∀ (a b a' b' : RouteAssembler) (order order' : List String) (table table' : RouteTable),
      a.Distinct → b.Distinct → a.flatten order = .ok (table, a') → b.flatten order' = .ok (table', b') →
      ∀ c older d others, a.Lineage (c :: older) → b.Lineage (d :: others) →
        Routes.joinAll (RouteScope.prefixes (c :: older)) =
          Routes.joinAll (RouteScope.prefixes (d :: others)) →
        c.routes.map Route.path = d.routes.map Route.path → pathsOf table c = pathsOf table' d := by
  refine ⟨Routes.joinPath_assoc, ?_⟩
  intro a b a' b' order order' table table' ha hb hflat hflat' c older d others hc hd hprefixes hroutes
  have hpaths := congrArg (List.map (Routes.joinPath
    (((Routes.joinAll (RouteScope.prefixes (d :: others))).map (Routes.joinPath "")).getD ""))) hroutes
  rw [List.map_map, List.map_map] at hpaths
  rw [paths_of_lineage ha hflat hc, paths_of_lineage hb hflat' hd, hprefixes]
  exact hpaths

def apiGroup : RouteCollection := ⟨"api", "core", none, ⟨some "api/", none, []⟩, []⟩

def versionGroup : RouteCollection := ⟨"v1", "core", some "api", ⟨some "//v1//", none, []⟩, []⟩

def userGroup : RouteCollection :=
  ⟨"users", "core", some "v1", ⟨some "/users", none, []⟩,
    [.forPath "" (.literal .null), .forPath "/new" (.literal .null)]⟩

def onlyGroup : RouteCollection :=
  { userGroup with parent := none, group := ⟨some "/api/v1/users", none, []⟩ }

/-- a prefix in three pieces -/
def spreadOut : RouteAssembler := ⟨[], [userGroup, apiGroup, versionGroup], [], false⟩

def gathered : RouteAssembler := ⟨[], [onlyGroup], [], false⟩

example : (gathered.flatten ["core"]).toOption.map (pathsOf ·.1 onlyGroup) =
    some ["/api/v1/users", "/api/v1/users/new"] := by decide

theorem gathered_regrouped :
    spreadOut.flatten ["core"] =
      .ok (⟨spreadOut.routesOf (spreadOut.forest ["core"])⟩, { spreadOut with assembled := true }) ∧
    gathered.flatten ["core"] =
      .ok (⟨gathered.routesOf (gathered.forest ["core"])⟩, { gathered with assembled := true }) ∧
    Routes.joinAll ["api/", "//v1//", "/users"] = Routes.joinAll ["/api/v1/users"] ∧
    pathsOf ⟨spreadOut.routesOf (spreadOut.forest ["core"])⟩ userGroup =
      pathsOf ⟨gathered.routesOf (gathered.forest ["core"])⟩ onlyGroup := by
  have hspread : spreadOut.flatten ["core"] =
      .ok (⟨spreadOut.routesOf (spreadOut.forest ["core"])⟩, { spreadOut with assembled := true }) := rfl
  have hgathered : gathered.flatten ["core"] =
      .ok (⟨gathered.routesOf (gathered.forest ["core"])⟩, { gathered with assembled := true }) := rfl
  have hnested : spreadOut.Lineage [userGroup, versionGroup, apiGroup] :=
    .under (.under (.top (by simp [spreadOut]) rfl) (by simp [spreadOut]) rfl) (by simp [spreadOut]) rfl
  have hsingle : gathered.Lineage [onlyGroup] := .top (by simp [gathered]) rfl
  have hjoined : Routes.joinAll ["api/", "//v1//", "/users"] = Routes.joinAll ["/api/v1/users"] := by
    decide
  exact ⟨hspread, hgathered, hjoined, prefixes_regrouped.2 spreadOut gathered _ _ _ _ _ _ (by decide)
    (by decide) hspread hgathered _ _ _ _ hnested hsingle hjoined rfl⟩

end RouteAssembler
end ServiceGraph
