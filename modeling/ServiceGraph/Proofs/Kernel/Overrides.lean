import ServiceGraph.Kernel.Basic
import ServiceGraph.Proofs.Parameters.Layers

/-!
# The parameters that a kernel sets

The parameters of a kernel are laid over those of every file and of every inline configuration. A value
that is no map is then found under the key it was set under, unless a key of the top level of some
configuration is that dotted key as a whole: a lookup tries the whole key before its path.

* `Kernel.setParameters`: one call after the other;
* `Kernel.collected_setParameters`, `Kernel.walk?_setParameters`: what the calls leave in the tree;
* `Kernel.raw?_of_setParameters`: what is found under a key after loading.
-/

namespace ServiceGraph

namespace AppConfig

theorem mem_keys_mergeAll {base : AppConfig} {tops : List AppConfig} {key : String} :
    key ∈ OrderedMap.keys (base.mergeAll tops).parameters ↔
      key ∈ OrderedMap.keys base.parameters ∨ ∃ top ∈ tops, key ∈ OrderedMap.keys top.parameters := by
  induction tops generalizing base with
  | nil => simp [mergeAll]
  | cons top tops ih =>
    show key ∈ OrderedMap.keys ((base.merge top).mergeAll tops).parameters ↔ _
    rw [ih, List.exists_mem_cons_iff, ← or_assoc]
    exact or_congr_left Value.mem_keys_mergeEntries

end AppConfig

namespace Kernel

variable {σ τ : Type}

def setParameters (k : Kernel σ τ) (calls : List (String × Value)) : Kernel σ τ :=
  calls.foldl (fun k call => k.setParameter call.1 call.2) k

variable {k : Kernel σ τ} {f : Files} {c : AppConfig} {key : String} {v : Value}
  {calls earlier later : List (String × Value)}

theorem setParameters_append (k : Kernel σ τ) (earlier later : List (String × Value)) :
    k.setParameters (earlier ++ later) = (k.setParameters earlier).setParameters later :=
  List.foldl_append

theorem files_setParameters (k : Kernel σ τ) (calls : List (String × Value)) :
    (k.setParameters calls).files = k.files ∧ (k.setParameters calls).configs = k.configs := by
  induction calls generalizing k with
  | nil => exact ⟨rfl, rfl⟩
  | cons call calls ih => exact ih (k.setParameter call.1 call.2)

/-- the parameters of a kernel are a collected tree -/
theorem collected_setParameters (h : (Parameters.ofTree k.parameters).Collected)
    (hcalls : ∀ call ∈ calls, call.2.keyed = true) :
    (Parameters.ofTree (k.setParameters calls).parameters).Collected := by
  induction calls generalizing k with
  | nil => exact h
  | cons call calls ih =>
    obtain ⟨hcall, hrest⟩ := List.forall_mem_cons.mp hcalls
    exact ih (h.set hcall call.1) hrest

/-- calls for other keys leave what was found -/
theorem walk?_setParameters_of_apart (hlater : ∀ call ∈ later, ¬ Overlaps key call.1)
    (h : (Value.map k.parameters).walk? (keyPath key) = some v) :
    (Value.map (k.setParameters later).parameters).walk? (keyPath key) = some v := by
  induction later generalizing k with
  | nil => exact h
  | cons call later ih =>
    obtain ⟨hcall, hrest⟩ := List.forall_mem_cons.mp hlater
    exact ih hrest (Parameters.walk?_set_of_apart (p := Parameters.ofTree k.parameters) hcall h)

/-- the last call for a key is found in the tree -/
theorem walk?_setParameters (k : Kernel σ τ) (earlier : List (String × Value)) (v : Value)
    (hlater : ∀ call ∈ later, ¬ Overlaps key call.1) :
    (Value.map (k.setParameters (earlier ++ (key, v) :: later)).parameters).walk? (keyPath key) = some v := by
  rw [setParameters_append]
  refine walk?_setParameters_of_apart (k := (k.setParameters earlier).setParameter key v) hlater ?_
  exact Parameters.walk?_set (Parameters.ofTree (k.setParameters earlier).parameters) key v

/-- **A parameter of the kernel after loading.** It is found whatever the files and the inline
configurations declare, but for a dotted key: where they have it as a whole at their top level, what they
say comes first. -/
theorem raw?_of_setParameters (hk : k.parameters = [])
    (hkeyed : ∀ call ∈ earlier ++ (key, v) :: later, call.2.keyed = true) (hleaf : v.entries? = none)
    (hlater : ∀ call ∈ later, ¬ Overlaps key call.1)
    (hload : (k.setParameters (earlier ++ (key, v) :: later)).load f = .ok c) :
    ∃ loaded, k.files.mapM (AppConfig.load f) = .ok loaded ∧
      (Parameters.ofTree c.parameters).raw? key =
        (if '.' ∈ key.toList
          then (AppConfig.empty.mergeAll (loaded ++ k.configs)).parameters.get? key
          else none).or (some v) ∧
      (('.' ∈ key.toList → ∀ layer ∈ loaded ++ k.configs, key ∉ OrderedMap.keys layer.parameters) →
        (Parameters.ofTree c.parameters).raw? key = some v) := by
  obtain ⟨hfiles, hconfigs⟩ := files_setParameters k (earlier ++ (key, v) :: later)
  have hcollected := collected_setParameters (k := k) (hk ▸ Parameters.Collected.empty) hkeyed
  have hwalk := walk?_setParameters k earlier v hlater
  rw [load, hfiles, hconfigs] at hload
  cases hloaded : k.files.mapM (AppConfig.load f) with
  | error e =>
    rw [hloaded] at hload
    cases hload
  | ok loaded =>
    rw [hloaded] at hload
    cases hload
    have hraw := Parameters.raw?_merge
      (p := Parameters.ofTree (AppConfig.empty.mergeAll (loaded ++ k.configs)).parameters)
      hcollected hleaf hwalk
    refine ⟨loaded, rfl, hraw, fun hplain => ?_⟩
    refine hraw.trans ?_
    split
    next hdot =>
      have habsent : (AppConfig.empty.mergeAll (loaded ++ k.configs)).parameters.get? key = none := by
        rw [OrderedMap.get?_eq_none_iff, AppConfig.mem_keys_mergeAll]
        rintro (hempty | ⟨layer, hlayer, hmem⟩)
        · cases hempty
        · exact hplain hdot layer hlayer hmem
      exact congrArg (·.or (some v)) habsent
    next => rw [Option.none_or]

/-- one inline configuration with a single parameter -/
def declaring (key : String) (v : Value) : Kernel Unit Empty :=
  { empty with configs := [{ AppConfig.empty with parameters := [(key, v)] }] }

theorem nested_overridden : (Parameters.ofTree
    [("db", .map [("host", .str "kernel"), ("port", .int 5)]), ("db-host", .null)]).raw? "db.host" =
      some (.str "kernel") := by
  have hload : ((declaring "db" (.map [("host", .str "file"), ("port", .int 5)])).setParameters
      ([("db", .null)] ++ ("db.host", .str "kernel") :: [("db-host", .null)])).load (Files.emptyAt []) =
        .ok { AppConfig.empty with parameters :=
          [("db", .map [("host", .str "kernel"), ("port", .int 5)]), ("db-host", .null)] } := by
    decide +kernel
  obtain ⟨loaded, hloaded, -, hraw⟩ := raw?_of_setParameters rfl (by decide) rfl (by decide +kernel) hload
  cases hloaded
  exact hraw fun _ => by decide

/-- a configuration that has the dotted key as a whole -/
theorem whole_key_shadows : ¬ ∀ (k : Kernel Unit Empty) (f : Files) (c : AppConfig) (key : String)
    (v : Value), k.parameters = [] → v.entries? = none → (k.setParameter key v).load f = .ok c →
      (Parameters.ofTree c.parameters).raw? key = some v := by
  intro h
  have hload : ((declaring "db.host" (.str "file")).setParameter "db.host" (.str "kernel")).load
      (Files.emptyAt []) = .ok { AppConfig.empty with
        parameters := [("db.host", .str "file"), ("db", .map [("host", .str "kernel")])] } := by
    decide +kernel
  have hraw := h _ _ _ _ _ rfl rfl hload
  exact absurd hraw (by decide +kernel)

end Kernel
end ServiceGraph
