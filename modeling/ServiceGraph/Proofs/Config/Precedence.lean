import Mathlib.Logic.Relation
import ServiceGraph.Proofs.Config.Forest
import ServiceGraph.Proofs.Parameters.Layers

/-!
# Which file has the last word

A file is laid over what it includes, so the files that set a parameter take it over from each other in
the order in which they are loaded. A file that is included at several places is loaded at each of them,
and can come again after a file that includes it.

* `ConfigFiles.setting?`: what a file sets a parameter to; `ConfigFiles.Includes`: what it names;
* `ConfigFiles.get?_loaded`: a parameter that no file sets to a map is what the last file sets it to;
* `ConfigFiles.mem_after`: whenever a file is loaded, all that it includes was loaded before;
* `ConfigFiles.including_overrides`: a parameter that a file and one of those that it includes set.
-/

namespace ServiceGraph

/-- the first result over a list of lists -/
theorem findSome?_flatMap {α β γ : Type} (g : α → List β) (f : β → Option γ) (as : List α) :
    (as.flatMap g).findSome? f = as.findSome? fun a => (g a).findSome? f := by
  induction as with
  | nil => rfl
  | cons a as ih =>
    rw [List.flatMap_cons, List.findSome?_append, ih, List.findSome?_cons]
    cases (g a).findSome? f <;> rfl

namespace AppConfig

theorem distinct_mergeAll {base : AppConfig} (h : OrderedMap.Distinct base.parameters)
    (tops : List AppConfig) : OrderedMap.Distinct (base.mergeAll tops).parameters := by
  induction tops generalizing base with
  | nil => exact h
  | cons top tops ih => exact ih (Value.distinct_mergeEntries h top.parameters)

/-- of configurations that set a parameter to leaves the last one decides -/
theorem get?_mergeAll {key : String} {tops : List AppConfig} {setting : AppConfig → Option Value}
    (hdistinct : ∀ top ∈ tops, OrderedMap.Distinct top.parameters)
    (hsetting : ∀ top ∈ tops, top.parameters.get? key = setting top)
    (hleaf : ∀ top ∈ tops, ∀ v, setting top = some v → v.entries? = none) (base : AppConfig) :
    (base.mergeAll tops).parameters.get? key =
      (tops.reverse.findSome? setting).or (base.parameters.get? key) := by
  induction tops generalizing base with
  | nil => rfl
  | cons top tops ih =>
    rw [List.forall_mem_cons] at hdistinct hsetting hleaf
    have hfirst : (base.merge top).parameters.get? key = _ :=
      Value.get?_mergeEntries_of_leaf hdistinct.1 base.parameters (hsetting.1 ▸ hleaf.1)
    rw [mergeAll, List.foldl_cons, ← mergeAll, ih hdistinct.2 hsetting.2 hleaf.2, hfirst, hsetting.1,
      List.reverse_cons, List.findSome?_append, Option.or_assoc, List.findSome?_singleton]

end AppConfig

namespace ConfigFiles

variable {s : ConfigFiles} {opening : List String} {path file other key : String} {c : AppConfig}
  {own : AppConfig} {children : List AppConfig}

def own? (s : ConfigFiles) (file : String) : Option AppConfig :=
  match OrderedMap.get? s.contents file with
  | some (.ok text) => (AppConfig.ofText file text).toOption
  | _ => none

def setting? (s : ConfigFiles) (key file : String) : Option Value :=
  (s.own? file).bind (·.parameters.get? key)

/-- a pattern of the file names the other one -/
def Includes (s : ConfigFiles) (file other : String) : Prop :=
  ∃ own pattern paths path, s.own? file = some own ∧ pattern ∈ own.includes ∧
    s.matching? file pattern = some paths ∧ path ∈ paths ∧ s.canonical path = .ok other

theorem Loads.own?_eq (h : s.Loads opening path c file own children) : s.own? file = some own := by
  obtain ⟨text, htext, hown⟩ := h.text
  rw [own?, htext]
  show (AppConfig.ofText file text).toOption = some own
  rw [hown]
  rfl

/-! ## what the last file sets -/

/-- induction over what is loaded: a file has it when all that it includes have it -/
@[elab_as_elim]
theorem loaded_induction {motive : AppConfig → Prop} (h : s.loadWhile opening path = .ok c)
    (step : ∀ opening path c file own children, s.Loads opening path c file own children →
      (∀ child ∈ children, motive child) → motive c) : motive c := by
  induction hn : c.sources.length using Nat.strongRecOn generalizing opening path c with
  | ind n ih =>
    obtain ⟨file, own, children, hl⟩ := loadWhile_eq_ok h
    obtain ⟨paths, -, hincluded⟩ := hl.included
    have hloaded : ∀ child ∈ children, ∃ p, s.loadWhile (file :: opening) p = .ok child :=
      forall_mem_of_forall₂ hincluded fun p child hp => ⟨p, hp⟩
    refine step opening path c file own children hl fun child hchild => ?_
    obtain ⟨p, hp⟩ := hloaded child hchild
    refine ih _ ?_ hp rfl
    obtain ⟨before, after, rfl⟩ := List.append_of_mem hchild
    rw [← hn, hl.sources, List.flatMap_append, List.flatMap_cons]
    simp only [List.length_append, List.length_singleton]
    omega

theorem distinct_loaded (h : s.loadWhile opening path = .ok c) :
    OrderedMap.Distinct c.parameters := by
  obtain ⟨file, own, children, hl⟩ := loadWhile_eq_ok h
  have hnone : OrderedMap.Distinct AppConfig.empty.parameters := List.nodup_nil
  rw [hl.result]
  exact Value.distinct_mergeEntries (AppConfig.distinct_mergeAll hnone children) own.parameters

/-- **The last file decides.** A parameter that no loaded file sets to a map is what the file loaded last
sets it to, among those that set it at all. -/
theorem get?_loaded (h : s.loadWhile opening path = .ok c)
    (hleaf : ∀ file ∈ unwound c, ∀ v, s.setting? key file = some v → v.entries? = none) :
    c.parameters.get? key = (unwound c).findSome? (s.setting? key) := by
  revert hleaf
  refine loaded_induction h fun opening path c file own children hl ih hleaf => ?_
  rw [hl.unwound, List.forall_mem_cons] at hleaf
  obtain ⟨hfile, hbelow⟩ := hleaf
  have hown : s.setting? key file = own.parameters.get? key := by
    rw [setting?, hl.own?_eq, Option.bind_some]
  have hchild : ∀ child ∈ children,
      child.parameters.get? key = (unwound child).findSome? (s.setting? key) := fun child hchild =>
    ih child hchild fun x hx => hbelow x
      (List.mem_flatMap.mpr ⟨child, List.mem_reverse.mpr hchild, hx⟩)
  have hleaves : ∀ child ∈ children, ∀ v,
      (unwound child).findSome? (s.setting? key) = some v → v.entries? = none := by
    intro child hmem v hv
    obtain ⟨x, hx, hset⟩ := List.exists_of_findSome?_eq_some hv
    exact hbelow x (List.mem_flatMap.mpr ⟨child, List.mem_reverse.mpr hmem, hx⟩) v hset
  obtain ⟨text, -, htext⟩ := hl.text
  obtain ⟨paths, -, hincluded⟩ := hl.included
  have hdistinct := forall_mem_of_forall₂ hincluded fun p child => distinct_loaded
  have hincludes := AppConfig.get?_mergeAll hdistinct hchild hleaves AppConfig.empty
  have htop := Value.get?_mergeEntries_of_leaf (AppConfig.distinct_parameters_ofText htext)
    (AppConfig.empty.mergeAll children).parameters (hown ▸ hfile)
  have hc : c.parameters.get? key = (own.parameters.get? key).or
      ((AppConfig.empty.mergeAll children).parameters.get? key) := by
    rw [hl.result]
    exact htop
  rw [hc, hincludes, hl.unwound, List.findSome?_cons, hown, findSome?_flatMap]
  cases own.parameters.get? key with
  | none => exact Option.or_none
  | some v => rfl

/-! ## what is loaded before a file -/

theorem mem_included? {pattern : String} {includes named paths : List String}
    (h : s.included? file includes = some paths) (hpattern : pattern ∈ includes)
    (hnamed : s.matching? file pattern = some named) (hpath : path ∈ named) : path ∈ paths := by
  induction includes generalizing paths with
  | nil => cases hpattern
  | cons first includes ih =>
    obtain ⟨matched, rest, hmatched, hrest, rfl⟩ := included?_cons_eq_some h
    rw [List.mem_append]
    rcases List.mem_cons.mp hpattern with rfl | hlater
    · rw [hmatched] at hnamed
      cases hnamed
      exact .inl hpath
    · exact .inr (ih hrest hlater)

/-- all that a file names is loaded for it -/
theorem Loads.mem_of_includes (hl : s.Loads opening path c file own children)
    (h : s.Includes file other) : other ∈ children.reverse.flatMap ConfigFiles.unwound := by
  obtain ⟨holds, pattern, named, p, hown, hpattern, hnamed, hp, hother⟩ := h
  rw [hl.own?_eq] at hown
  cases hown
  obtain ⟨paths, hpaths, hincluded⟩ := hl.included
  have hmem := mem_included? hpaths hpattern hnamed hp
  obtain ⟨x, hx, hcanonical⟩ := canonical_of_loaded (List.rel_reverse hincluded) p
    (List.mem_reverse.mpr hmem)
  rw [hother] at hcanonical
  cases hcanonical
  exact hx

/-- wherever a source stands, what was loaded for it stands right behind it -/
theorem loads_at {paths before after : List String} {cs : List AppConfig}
    (h : List.Forall₂ (fun p c => s.loadWhile opening p = .ok c) paths cs)
    (hsplit : cs.flatMap unwound = before ++ file :: after) :
    ∃ opening path c own children more, s.Loads opening path c file own children ∧
      after = children.reverse.flatMap unwound ++ more := by
  induction hn : (cs.flatMap unwound).length using Nat.strongRecOn
    generalizing opening paths cs before after with
  | ind n ih =>
    cases h with
    | nil => exact absurd hsplit.symm (by simp)
    | @cons path c paths cs hfirst hrest =>
      obtain ⟨first, own, children, hl⟩ := loadWhile_eq_ok hfirst
      obtain ⟨found, -, hincluded⟩ := hl.included
      rw [List.flatMap_cons, hl.unwound, List.cons_append] at hsplit
      rw [List.flatMap_cons, hl.unwound, List.cons_append, List.length_cons, List.length_append] at hn
      have hchildren := List.rel_reverse hincluded
      cases before with
      | nil =>
        obtain ⟨rfl, rfl⟩ := List.cons.inj hsplit
        exact ⟨opening, path, c, own, children, _, hl, rfl⟩
      | cons _ before =>
        obtain ⟨-, hsplit⟩ := List.cons.inj hsplit
        -- the source is one of the other trees, or below the first one
        rcases List.append_eq_append_iff.mp hsplit with ⟨between, -, hother⟩ | ⟨between, hbelow, hrests⟩
        · exact ih _ (by omega) hrest hother rfl
        · cases between with
          | nil =>
            have hother : cs.flatMap unwound = [] ++ file :: after := hrests.symm
            exact ih _ (by omega) hrest hother rfl
          | cons _ between =>
            obtain ⟨rfl, rfl⟩ := List.cons.inj hrests
            obtain ⟨opening, path, c, own, children, more, hl, rfl⟩ :=
              ih _ (by omega) hchildren hbelow rfl
            exact ⟨opening, path, c, own, children, _, hl, List.append_assoc ..⟩

/-- **What a file includes is loaded before it.** Behind every place of a file, read from the end on,
stands all that it includes, directly or through other files. -/
theorem mem_after {before after : List String} (h : s.loadWhile opening path = .ok c)
    (hincludes : Relation.TransGen s.Includes file other)
    (hsplit : unwound c = before ++ file :: after) : other ∈ after := by
  have hloads : List.Forall₂ (fun p c => s.loadWhile opening p = .ok c) [path] [c] :=
    .cons h .nil
  have hforest : [c].flatMap unwound = unwound c := List.flatMap_singleton unwound c
  induction hincludes using Relation.TransGen.head_induction_on generalizing before after with
  | single hdirect =>
    obtain ⟨_, _, _, _, _, more, hl, rfl⟩ := loads_at hloads (hforest.trans hsplit)
    exact List.mem_append_left more (hl.mem_of_includes hdirect)
  | @head file between hdirect hrest ih =>
    obtain ⟨_, _, _, _, _, more, hl, rfl⟩ := loads_at hloads (hforest.trans hsplit)
    obtain ⟨passed, behind, hbelow⟩ := List.append_of_mem (hl.mem_of_includes hdirect)
    have hbetween : unwound c = (before ++ file :: passed) ++ between :: (behind ++ more) := by
      rw [hsplit, hbelow, List.append_assoc, List.append_assoc, List.cons_append, List.cons_append]
    rw [hbelow, List.append_assoc, List.cons_append]
    exact List.mem_append_right passed (List.mem_cons_of_mem between (ih hbetween))

/-- **A file overrides what it includes.** Let a file and one that it includes, directly or through
others, both set a parameter to a leaf, and no other loaded file set it. The included one was loaded
before the last time that the file was. The configuration holds what the file sets, unless the included
one was loaded once more after that, for another file; then it holds what that one sets. -/
theorem including_overrides {v w : Value} (h : s.load path = .ok c) (hfile : file ∈ c.sources)
    (hincludes : Relation.TransGen s.Includes file other)
    (hv : s.setting? key file = some v) (hvleaf : v.entries? = none)
    (hw : s.setting? key other = some w) (hwleaf : w.entries? = none)
    (honly : ∀ x ∈ c.sources, x ≠ file → x ≠ other → s.setting? key x = none) :
    ∃ before after, c.sources = before ++ file :: after ∧ file ∉ after ∧ other ∈ before ∧
      c.parameters.get? key = some (if other ∈ after then w else v) := by
  -- cut at the last time the file was loaded; `unwound` has the last loaded first
  obtain ⟨after, before, hsplit, hlast⟩ :=
    List.eq_append_cons_of_mem (List.mem_reverse.mpr hfile)
  have hsources : c.sources = before.reverse ++ file :: after.reverse := by
    rw [← List.reverse_reverse c.sources, hsplit, List.reverse_append, List.reverse_cons,
      List.append_assoc, List.singleton_append]
  have hbefore : other ∈ before := mem_after h hincludes hsplit
  refine ⟨before.reverse, after.reverse, hsources, by rwa [List.mem_reverse],
    List.mem_reverse.mpr hbefore, ?_⟩
  have hleaf : ∀ x ∈ unwound c, ∀ u, s.setting? key x = some u → u.entries? = none := by
    intro x hx u hu
    by_cases hxfile : x = file
    · rw [hxfile, hv] at hu
      cases hu
      exact hvleaf
    · by_cases hxother : x = other
      · rw [hxother, hw] at hu
        cases hu
        exact hwleaf
      · rw [honly x (List.mem_reverse.mp hx) hxfile hxother] at hu
        cases hu
  have hnone : ∀ x ∈ after, x ≠ other → s.setting? key x = none := fun x hx hother =>
    honly x (hsources ▸ by simp [hx]) (fun heq => hlast (heq ▸ hx)) hother
  have hunwound : unwound c = after ++ file :: before := hsplit
  rw [get?_loaded h hleaf, hunwound]
  -- the last loaded of the two decides
  by_cases hagain : other ∈ after
  · obtain ⟨later, earlier, rfl, hfirst⟩ := List.eq_append_cons_of_mem hagain
    rw [if_pos (List.mem_reverse.mpr hagain), List.findSome?_eq_some_iff]
    exact ⟨later, other, earlier ++ file :: before, List.append_assoc .., hw,
      fun x hx => hnone x (List.mem_append_left _ hx) fun heq => hfirst (heq ▸ hx)⟩
  · rw [if_neg (mt List.mem_reverse.mp hagain), List.findSome?_eq_some_iff]
    exact ⟨after, file, before, rfl, hv, fun x hx => hnone x hx fun heq => hagain (heq ▸ hx)⟩

def ofTexts (texts : List (String × String)) : ConfigFiles :=
  ofFiles ⟨texts.map fun (name, text) => ([name], .file text.toUTF8.toList), []⟩

/-- a file that includes another one through a third, which the root has included before -/
def chained : ConfigFiles := ofTexts [
  ("root.yaml", "includes: [g.yaml, f.yaml]"),
  ("f.yaml", "includes: [m.yaml]\nparameters:\n  k: f"),
  ("m.yaml", "includes: [g.yaml]"),
  ("g.yaml", "parameters:\n  k: g")]

theorem chained_overrides : ∃ before after,
    ["/g.yaml", "/g.yaml", "/m.yaml", "/f.yaml", "/root.yaml"] = before ++ "/f.yaml" :: after ∧
      "/f.yaml" ∉ after ∧ "/g.yaml" ∈ before ∧
      some (Value.str "f") = some (if "/g.yaml" ∈ after then .str "g" else .str "f") := by
  have hload : chained.load "/root.yaml" = .ok ⟨[("k", .str "f")], [], [],
      ["/g.yaml", "/g.yaml", "/m.yaml", "/f.yaml", "/root.yaml"]⟩ := by
    decide +kernel
  have hf : chained.own? "/f.yaml" = some ⟨[("k", .str "f")], ["m.yaml"], [], []⟩ := by decide +kernel
  have hm : chained.own? "/m.yaml" = some ⟨[], ["g.yaml"], [], []⟩ := by decide +kernel
  have hg : chained.own? "/g.yaml" = some ⟨[("k", .str "g")], [], [], []⟩ := by decide +kernel
  have hmiddle : chained.Includes "/f.yaml" "/m.yaml" :=
    ⟨_, "m.yaml", ["/m.yaml"], "/m.yaml", hf, by decide, by decide +kernel, by decide, by decide +kernel⟩
  have hend : chained.Includes "/m.yaml" "/g.yaml" :=
    ⟨_, "g.yaml", ["/g.yaml"], "/g.yaml", hm, by decide, by decide +kernel, by decide, by decide +kernel⟩
  have hv : chained.setting? "k" "/f.yaml" = some (.str "f") := by
    rw [setting?, hf]
    rfl
  have hw : chained.setting? "k" "/g.yaml" = some (.str "g") := by
    rw [setting?, hg]
    rfl
  exact including_overrides hload (by decide) (.head hmiddle (.single hend)) hv rfl hw rfl
    (by decide +kernel)

/-- a file that includes another one, which the root includes once more after it -/
def repeated : ConfigFiles := ofTexts [
  ("root.yaml", "includes: [f.yaml, g.yaml]"),
  ("f.yaml", "includes: [g.yaml]\nparameters:\n  k: f"),
  ("g.yaml", "parameters:\n  k: g")]

/-- what a file sets is hidden when what it includes comes again -/
theorem repeated_hides : ¬ ∀ (s : ConfigFiles) (path file other key : String) (c : AppConfig)
    (v w : Value), s.load path = .ok c → file ∈ c.sources → Relation.TransGen s.Includes file other →
      s.setting? key file = some v → v.entries? = none → s.setting? key other = some w →
      w.entries? = none → (∀ x ∈ c.sources, x ≠ file → x ≠ other → s.setting? key x = none) →
      c.parameters.get? key = some v := by
  intro h
  have hload : repeated.load "/root.yaml" = .ok ⟨[("k", .str "g")], [], [],
      ["/g.yaml", "/f.yaml", "/g.yaml", "/root.yaml"]⟩ := by
    decide +kernel
  have hf : repeated.own? "/f.yaml" = some ⟨[("k", .str "f")], ["g.yaml"], [], []⟩ := by decide +kernel
  have hg : repeated.own? "/g.yaml" = some ⟨[("k", .str "g")], [], [], []⟩ := by decide +kernel
  have hincludes : repeated.Includes "/f.yaml" "/g.yaml" :=
    ⟨_, "g.yaml", ["/g.yaml"], "/g.yaml", hf, by decide, by decide +kernel, by decide, by decide +kernel⟩
  have hv : repeated.setting? "k" "/f.yaml" = some (.str "f") := by
    rw [setting?, hf]
    rfl
  have hw : repeated.setting? "k" "/g.yaml" = some (.str "g") := by
    rw [setting?, hg]
    rfl
  have hget := h repeated _ _ _ _ _ _ _ hload (by decide) (.single hincludes) hv rfl hw rfl
    (by decide +kernel)
  exact absurd hget (by decide +kernel)

end ConfigFiles
end ServiceGraph
