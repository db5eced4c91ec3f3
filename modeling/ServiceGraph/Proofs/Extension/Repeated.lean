import ServiceGraph.Proofs.Extension.Order

/-!
# Names that come twice

A name is asked for once, and what was supplied has a name of its own. What a constructor gives stands
under the name that was asked for, but bears the name that it says itself, and this is not looked at.

* `Sorting.Calls.keys_nodup`: no name is supplied and asked for, or asked for twice;
* `names_nodup_iff`: when no two extensions of an order have one name;
* `core_ordered_twice`: a constructor that gives the name of a supplied extension.
-/

namespace ServiceGraph

variable {σ : Type} {catalog : Catalog σ} {extensions ordered : List (Extension σ)}
  {journal journal' : σ}

namespace Sorting

variable {ds : List Dependency} {t : Sorting σ} {j : σ} {calls : List (Dependency × Extension σ)}

/-- the names that were supplied or asked for are all different -/
theorem Calls.keys_nodup (h : Calls catalog ds (start extensions j) t calls)
    (hdistinct : t.pool.Distinct) :
    (extensions.map Extension.name ++ calls.map fun c => c.1.name).Nodup :=
  h.keys_eq ▸ hdistinct

/-- what is ordered is what was supplied and what was built -/
theorem Calls.perm (h : Calls catalog ds (start extensions j) t calls)
    (hdistinct : t.pool.Distinct) (hperm : t.order.Perm t.pool.keys) :
    (t.order.filterMap t.pool.get?).Perm (extensions ++ calls.map Prod.snd) := by
  rw [← h.values_eq, ← filterMap_get?_keys hdistinct]
  exact hperm.filterMap _

end Sorting

open Sorting

/-- **A name comes twice only by a constructor.** When the extensions can be ordered, the order holds what
was supplied and what the catalog was called for, each once, and it was called once for each name, none of
them supplied. So no two extensions of the order have one name just when those that were built have names of
their own, which is so when each has the name it was asked for by. -/
theorem names_nodup_iff
    (hok : resolveOrder extensions catalog journal = (.ok ordered, journal')) :
    ∃ calls, Constructs catalog journal calls journal' ∧
      ordered.Perm (extensions ++ calls.map Prod.snd) ∧
      (extensions.map Extension.name ++ calls.map fun c => c.1.name).Nodup ∧
      ((ordered.map Extension.name).Nodup ↔ (calls.map fun c => c.2.name).Nodup ∧
        ∀ c ∈ calls, c.2.name ∉ extensions.map Extension.name) ∧
      ((∀ c ∈ calls, c.2.name = c.1.name) → (ordered.map Extension.name).Nodup) := by
  cases orders_iff.mpr hok with
  | @ordered t hsupplied h =>
    obtain ⟨calls, hcalls⟩ := h.exists_calls rfl
    have hnodup : (extensions.map Extension.name).Nodup := (supplied_eq_ok hsupplied).1
    have hperm : t.order.Perm t.pool.keys := order_perm h hnodup
    have hdistinct : t.pool.Distinct := hperm.nodup (h.ordered .nil).1.nodup
    have hkeys := hcalls.keys_nodup hdistinct
    have hall := hcalls.perm hdistinct hperm
    have hnames : (((t.order.filterMap t.pool.get?).map Extension.name).Nodup ↔
        (extensions.map Extension.name ++ calls.map fun c => c.2.name).Nodup) := by
      rw [(hall.map _).nodup_iff, List.map_append, List.map_map]
      rfl
    refine ⟨calls, hcalls.constructs, hall, hkeys, ?_, fun hnamed => ?_⟩
    · rw [hnames, List.nodup_append]
      constructor
      · rintro ⟨-, hbuilt, hapart⟩
        exact ⟨hbuilt, fun c hc hin => hapart _ hin _ (List.mem_map_of_mem hc) rfl⟩
      · rintro ⟨hbuilt, hnew⟩
        refine ⟨hnodup, hbuilt, fun name hin other hother heq => ?_⟩
        obtain ⟨c, hc, rfl⟩ := List.mem_map.mp hother
        exact hnew c hc (heq ▸ hin)
    · have hsame : calls.map (fun c => c.2.name) = calls.map fun c => c.1.name :=
        List.map_congr_left hnamed
      rw [hnames, hsame]
      exact hkeys

theorem web_and_core_named_apart : ∃ calls,
    resolveOrder webAndCore journaled [] = (.ok webAndCoreOrdered, ["http", "config"]) ∧
    Constructs journaled [] calls ["http", "config"] ∧
    webAndCoreOrdered.Perm (webAndCore ++ calls.map Prod.snd) ∧
    ((webAndCoreOrdered.map Extension.name).Nodup ↔ (calls.map fun c => c.2.name).Nodup ∧
      ∀ c ∈ calls, c.2.name ∉ webAndCore.map Extension.name) := by
  have hok : resolveOrder webAndCore journaled [] =
      (.ok webAndCoreOrdered, ["http", "config"]) := rfl
  obtain ⟨calls, hconstructs, hperm, -, hiff, -⟩ := names_nodup_iff hok
  exact ⟨calls, hok, hconstructs, hperm, hiff⟩

/-- what it gives for `http` is named `core` -/
def misnamed : Catalog (List String) :=
  [("http", fun _ journal => (.ok (.idle "core" []), journal ++ ["http"]))]

/-- `web` needs `http` from the catalog, and `core` is supplied -/
def webBesideCore : List (Extension (List String)) := [.idle "web" [⟨"http", .null⟩], .idle "core" []]

/-- the extension that was built and the one that was supplied have one name -/
theorem core_ordered_twice :
    ∃ ordered journal', resolveOrder webBesideCore misnamed [] = (.ok ordered, journal') ∧
      ordered.map Extension.name = ["core", "web", "core"] ∧
      ¬ (ordered.map Extension.name).Nodup :=
  ⟨_, _, rfl, rfl, by decide⟩

end ServiceGraph
