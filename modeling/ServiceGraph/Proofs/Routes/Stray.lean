import Mathlib.Data.List.Find
import ServiceGraph.Proofs.Routes.Forest

/-!
# The collection that is named when parents go in a cycle

The walk through the forest does not reach the collections on a cycle of parents, and neither those below
them. The first of all these in the order of declaration is named as the culprit. It need not be on a cycle.

* `RouteAssembler.stray?_eq_some_iff`: the first collection that the walk does not reach;
* `RouteAssembler.flatten_eq_cycle_iff`: when flattening names a collection, and which;
* `RouteAssembler.bystander_named`: one that is below a cycle and not on it.
-/

namespace ServiceGraph

open Relation

namespace RouteAssembler

variable {a : RouteAssembler} {order : List String} {id : String}

theorem not_mem_forest_iff (hdistinct : a.Distinct) (hclosed : a.Closed) (order : List String)
    {c : RouteCollection} (hc : c ∈ a.collections) :
    c.id ∉ (a.forest order).map (·.1.id) ↔ a.Stray c.id := by
  rw [id_mem_forest_iff hdistinct order hc]
  constructor
  · intro hnone
    by_contra hstray
    exact hnone (exists_lineage hclosed hc hstray)
  · rintro hstray ⟨older, h⟩
    exact h.not_stray hdistinct hstray

/-- the first collection in the order of declaration from which the parents lead into a cycle -/
def FirstStray (a : RouteAssembler) (id : String) : Prop :=
  ∃ before c after, a.collections = before ++ c :: after ∧ c.id = id ∧ a.Stray id ∧
    ∀ d ∈ before, ¬ a.Stray d.id

theorem stray?_eq_some_iff (hdistinct : a.Distinct) (hclosed : a.Closed) (order : List String) :
    a.stray? ((a.forest order).map (·.1.id)) = some id ↔ a.FirstStray id := by
  classical
  have hmissed : ∀ c ∈ a.collections,
      (!((a.forest order).map (·.1.id)).contains c.id) = decide (a.Stray c.id) := by
    intro c hc
    rw [List.contains_eq_mem, ← decide_not]
    exact decide_eq_decide.mpr (not_mem_forest_iff hdistinct hclosed order hc)
  rw [stray?, List.find?_congr hmissed, Option.map_eq_some_iff]
  constructor
  · rintro ⟨c, hfind, rfl⟩
    obtain ⟨hstray, before, after, heq, hbefore⟩ := List.find?_eq_some_iff_append.mp hfind
    exact ⟨before, c, after, heq, rfl, by simpa using hstray, by simpa using hbefore⟩
  · rintro ⟨before, c, after, heq, rfl, hstray, hbefore⟩
    refine ⟨c, List.find?_eq_some_iff_append.mpr ?_, rfl⟩
    exact ⟨by simpa using hstray, before, after, heq, by simpa using hbefore⟩

theorem checkParents_ne_cycle (cs : List RouteCollection) :
    a.checkParents cs ≠ .error (.collectionCycle id) := by
  induction cs with
  | nil => simp [checkParents]
  | cons c cs ih =>
    rw [checkParents]
    split
    · split
      · exact ih
      · simp
    · exact ih

theorem checkConsumed_ne_cycle : a.checkConsumed ≠ .error (.collectionCycle id) := by
  unfold checkConsumed
  split <;> simp

theorem ensureOpen_ne_cycle : a.ensureOpen ≠ .error (.collectionCycle id) := by
  unfold ensureOpen
  split <;> simp

/-- **The culprit of a cycle of parents.** Flattening fails for a cycle when the assembler is open, nothing
that was configured early is left, every parent exists and some collection leads into a cycle. The first
such collection is named. -/
theorem flatten_eq_cycle_iff (hdistinct : a.Distinct) (order : List String) (id : String) :
    a.flatten order = .error (.collectionCycle id) ↔
      a.assembled = false ∧ a.deferred = [] ∧ a.Closed ∧ a.FirstStray id := by
  have hclosed : a.Closed ↔ a.checkParents a.collections = .ok () := checkParents_eq_ok_iff.symm
  rw [← ensureOpen_eq_ok_iff, ← checkConsumed_eq_ok_iff, flatten,
    AssemblyError.check_eq_error_iff ensureOpen_ne_cycle,
    AssemblyError.check_eq_error_iff checkConsumed_ne_cycle,
    AssemblyError.check_eq_error_iff (checkParents_ne_cycle _), ← hclosed]
  refine and_congr_right fun _ => and_congr_right fun _ => and_congr_right fun hclosed => ?_
  rw [← stray?_eq_some_iff hdistinct hclosed order]
  dsimp only
  cases a.stray? ((a.forest order).map (·.1.id)) with
  | none => simp [pure, Except.pure]
  | some other => simp

/-- `users` is below `admin` and declared before it, and `admin` and `site` are below each other -/
def dangling : RouteAssembler :=
  { roots := []
    collections :=
      [ ⟨"users", "core", some "admin", .empty, []⟩, ⟨"admin", "core", some "site", .empty, []⟩,
        ⟨"site", "core", some "admin", .empty, []⟩ ]
    deferred := []
    assembled := false }

theorem dangling_named :
    dangling.Distinct ∧ dangling.flatten ["core"] = .error (.collectionCycle "users") ∧
    dangling.FirstStray "users" := by
  have hdistinct : dangling.Distinct := by decide
  have hflat : dangling.flatten ["core"] = .error (.collectionCycle "users") := rfl
  obtain ⟨-, -, -, hfirst⟩ := (flatten_eq_cycle_iff hdistinct ["core"] "users").mp hflat
  exact ⟨hdistinct, hflat, hfirst⟩

/-- `users` is named, and is not on a cycle -/
theorem bystander_named :
    dangling.flatten ["core"] = .error (.collectionCycle "users") ∧
    ¬ TransGen dangling.IsParent "users" "users" := by
  refine ⟨rfl, fun hcycle => ?_⟩
  obtain ⟨_, ⟨c, hc, -, hparent⟩, -⟩ := TransGen.head'_iff.mp hcycle
  have hnone : ∀ c ∈ dangling.collections, c.parent ≠ some "users" := by decide
  exact hnone c hc hparent

end RouteAssembler
end ServiceGraph
