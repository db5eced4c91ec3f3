import ServiceGraph.Config.Include
import ServiceGraph.Proofs.Outcomes

/-!
# Reading a forest of includes back

The sources of a configuration are its files, each after those that it includes. Read from the end
on, a file stands before what it includes, so the list of sources and the number of files that each
of them includes give the whole forest.

* `ConfigFiles.loadWhile_eq_ok`: a file that is loaded, and what it includes;
* `ConfigFiles.Branches`: how many files the patterns of a file name;
* `ConfigFiles.loaded_unique`: two forests with the same sources, where the files have the same texts
  and branches, give the same configurations.
-/

namespace ServiceGraph

namespace AppConfig

theorem sources_mergeAll (base : AppConfig) (tops : List AppConfig) :
    (base.mergeAll tops).sources = base.sources ++ tops.flatMap sources := by
  induction tops generalizing base with
  | nil => rw [mergeAll, List.foldl_nil, List.flatMap_nil, List.append_nil]
  | cons top tops ih =>
    rw [mergeAll, List.foldl_cons, ← mergeAll, ih, List.flatMap_cons, ← List.append_assoc]
    rfl

theorem mergeAll_append (base : AppConfig) (tops more : List AppConfig) :
    base.mergeAll (tops ++ more) = (base.mergeAll tops).mergeAll more := List.foldl_append

/-- of a configuration that is laid over another only parameters, sections and sources count -/
theorem mergeAll_alike {tops tops' : List AppConfig}
    (h : List.Forall₂ (fun c c' : AppConfig => c'.parameters = c.parameters ∧ c'.sections = c.sections)
      tops tops') (hsources : tops'.flatMap sources = tops.flatMap sources) (base : AppConfig) :
    base.mergeAll tops' = base.mergeAll tops := by
  have hrest : ∀ (base : AppConfig) (before : List String),
      mergeAll { base with sources := before } tops' =
        { base.mergeAll tops with sources := before ++ tops'.flatMap sources } := by
    clear hsources
    induction h with
    | nil =>
      intro base before
      rw [List.flatMap_nil, List.append_nil]
      rfl
    | @cons c c' tops tops' hc _ ih =>
      intro base before
      have hfirst : merge { base with sources := before } c' =
          { base.merge c with sources := before ++ c'.sources } := by
        rw [merge, merge, hc.1, hc.2]
      rw [mergeAll, List.foldl_cons, hfirst, ← mergeAll, ih, List.flatMap_cons, List.append_assoc]
      rfl
  have hall := hrest base base.sources
  rw [hsources, ← sources_mergeAll] at hall
  exact hall

/-- the last step of a reading that succeeds -/
theorem last_step {α β : Type} {x : Yaml.Reading α} {f : α → Yaml.Reading β} {n : Nat} {r : β × Nat}
    (h : (x >>= f).run n = some r) : ∃ a m, (f a).run m = some r := by
  cases hx : x.run n with
  | none =>
    rw [StateT.run_bind, hx] at h
    cases h
  | some found =>
    rw [StateT.run_bind, hx] at h
    exact ⟨found.1, found.2, h⟩

/-- a configuration that was read names no sources yet -/
theorem exists_of_read {d : Yaml.Document} {t : Yaml.Tree} {n : Nat} {r : AppConfig × Nat}
    (h : (read d t).run n = some r) : ∃ parameters includes sections,
      r.1 = ⟨OrderedMap.ofList parameters, includes, OrderedMap.ofList sections, []⟩ := by
  rw [read] at h
  obtain ⟨es, n₁, h⟩ := last_step h
  obtain ⟨parameters, n₂, h⟩ := last_step h
  obtain ⟨includes, n₃, h⟩ := last_step h
  obtain ⟨sections, n₄, h⟩ := last_step h
  cases h
  exact ⟨parameters, includes, sections, rfl⟩

theorem exists_of_ofText {origin text : String} {c : AppConfig} (h : ofText origin text = .ok c) :
    ∃ parameters includes sections,
      c = ⟨OrderedMap.ofList parameters, includes, OrderedMap.ofList sections, []⟩ := by
  rw [ofText] at h
  split at h
  · cases h
    exact ⟨[], [], [], rfl⟩
  · split at h
    next found hfound =>
      cases h
      rw [Yaml.Document.read?] at hfound
      cases hdocument : Yaml.Document.ofText? text with
      | none =>
        rw [hdocument] at hfound
        cases hfound
      | some d =>
        rw [hdocument] at hfound
        cases hread : (read d d.root).run (d.marks * 100) with
        | none =>
          simp only [bind, Option.bind, hread] at hfound
          cases hfound
        | some r =>
          simp only [bind, Option.bind, hread] at hfound
          cases hfound
          exact exists_of_read hread
    next => cases h

theorem sources_ofText {origin text : String} {c : AppConfig} (h : ofText origin text = .ok c) :
    c.sources = [] := by
  obtain ⟨parameters, includes, sections, rfl⟩ := exists_of_ofText h
  rfl

theorem distinct_parameters_ofText {origin text : String} {c : AppConfig}
    (h : ofText origin text = .ok c) : OrderedMap.Distinct c.parameters := by
  obtain ⟨parameters, includes, sections, rfl⟩ := exists_of_ofText h
  have hnone : OrderedMap.Distinct ([] : OrderedMap Value) := List.nodup_nil
  exact hnone.extend parameters

end AppConfig

namespace ConfigFiles

variable {s s' : ConfigFiles} {opening opening' : List String} {path file : String} {c : AppConfig}

/-- what the patterns of a file name, all of them in order -/
def included? (s : ConfigFiles) (file : String) (includes : List String) : Option (List String) :=
  (includes.mapM (s.matching? file)).map List.flatten

theorem included?_cons_eq_some {pattern : String} {includes paths : List String}
    (h : s.included? file (pattern :: includes) = some paths) :
    ∃ first rest, s.matching? file pattern = some first ∧ s.included? file includes = some rest ∧
      paths = first ++ rest := by
  rw [included?, List.mapM_cons] at h
  cases hfirst : s.matching? file pattern with
  | none =>
    rw [hfirst] at h
    cases h
  | some first =>
    cases hrest : includes.mapM (s.matching? file) with
    | none =>
      rw [hfirst, hrest] at h
      cases h
    | some rest =>
      rw [hfirst, hrest] at h
      refine ⟨first, rest.flatten, rfl, by rw [included?, hrest]; rfl, ?_⟩
      exact (Option.some.inj h).symm

/-- a file that is loaded: what it holds itself, and what it includes -/
structure Loads (s : ConfigFiles) (opening : List String) (path : String) (c : AppConfig) (file : String)
    (own : AppConfig) (children : List AppConfig) : Prop where
  canonical : s.canonical path = .ok file
  text : ∃ text, OrderedMap.get? s.contents file = some (.ok text) ∧ AppConfig.ofText file text = .ok own
  included : ∃ paths, s.included? file own.includes = some paths ∧
    List.Forall₂ (fun p child => s.loadWhile (file :: opening) p = .ok child) paths children
  result : c = (AppConfig.empty.mergeAll children).merge { own with sources := own.sources ++ [file] }

theorem mapM_included {load : String → Except LoadError AppConfig} {includes : List String}
    {included : List (List AppConfig)}
    (h : (includes.mapM fun pattern =>
      match s.matching? file pattern with
      | none => Except.error (LoadError.pattern pattern)
      | some paths => paths.mapM load) = .ok included) :
    ∃ paths, s.included? file includes = some paths ∧
      List.Forall₂ (fun p child => load p = .ok child) paths included.flatten := by
  rw [Except.mapM_eq_ok_iff] at h
  induction h with
  | nil => exact ⟨[], rfl, .nil⟩
  | @cons pattern children includes included hfirst hrest ih =>
    obtain ⟨paths, hpaths, hloaded⟩ := ih
    cases hmatch : s.matching? file pattern with
    | none =>
      rw [hmatch] at hfirst
      cases hfirst
    | some found =>
      rw [hmatch] at hfirst
      rw [included?, Option.map_eq_some_iff] at hpaths
      obtain ⟨matched, hmatched, rfl⟩ := hpaths
      refine ⟨found ++ matched.flatten, ?_, ?_⟩
      · rw [included?, List.mapM_cons, hmatch, hmatched]
        rfl
      · rw [List.flatten_cons]
        exact List.rel_append (Except.mapM_eq_ok_iff.mp hfirst) hloaded

theorem loadWhile_eq_ok (h : s.loadWhile opening path = .ok c) :
    ∃ file own children, s.Loads opening path c file own children := by
  rw [loadWhile] at h
  split at h
  · cases h
  next file hcanonical =>
    split at h
    · cases h
    next hfresh =>
      split at h
      · cases h
      · cases h
      next text htext =>
        cases hown : AppConfig.ofText file text with
        | error e =>
          rw [hown] at h
          cases h
        | ok own =>
          rw [hown] at h
          simp only [bind, Except.bind] at h
          split at h
          · cases h
          next included hincluded =>
            exact ⟨file, own, included.flatten, hcanonical, ⟨text, htext, hown⟩, mapM_included hincluded,
              (Except.ok.inj h).symm⟩

theorem Loads.sources {own : AppConfig} {children : List AppConfig}
    (h : s.Loads opening path c file own children) :
    c.sources = children.flatMap AppConfig.sources ++ [file] := by
  obtain ⟨text, -, hown⟩ := h.text
  rw [h.result, AppConfig.merge, AppConfig.sources_mergeAll, AppConfig.sources_ofText hown]
  rfl

/-! ## reading back -/

/-- the sources from the end on -/
def unwound (c : AppConfig) : List String := c.sources.reverse

theorem Loads.unwound {own : AppConfig} {children : List AppConfig}
    (h : s.Loads opening path c file own children) :
    unwound c = file :: children.reverse.flatMap ConfigFiles.unwound := by
  rw [ConfigFiles.unwound, h.sources, List.reverse_append, List.reverse_singleton,
    List.singleton_append, List.reverse_flatMap]
  rfl

/-- what is loaded stands for a source -/
theorem canonical_of_loaded {paths : List String} {cs : List AppConfig}
    (h : List.Forall₂ (fun p c => s.loadWhile opening p = .ok c) paths cs) :
    ∀ p ∈ paths, ∃ file ∈ cs.flatMap unwound, s.canonical p = .ok file := by
  induction h with
  | nil => exact nofun
  | @cons path c paths cs hfirst hrest ih =>
    obtain ⟨file, own, children, hl⟩ := loadWhile_eq_ok hfirst
    refine List.forall_mem_cons.mpr ⟨⟨file, ?_, hl.canonical⟩, fun p hp => ?_⟩
    · rw [List.flatMap_cons, hl.unwound]
      exact List.mem_cons_self
    · obtain ⟨x, hx, hcanonical⟩ := ih p hp
      exact ⟨x, List.mem_append_right _ hx, hcanonical⟩

/-- every source is the path that stands for a file with a text -/
theorem source_known {paths : List String} {cs : List AppConfig}
    (h : List.Forall₂ (fun p c => s.loadWhile opening p = .ok c) paths cs) :
    ∀ file ∈ cs.flatMap unwound, (∃ path, s.canonical path = .ok file) ∧
      ∃ text, OrderedMap.get? s.contents file = some (.ok text) := by
  induction hn : (cs.flatMap unwound).length using Nat.strongRecOn generalizing opening paths cs with
  | ind n ih =>
    cases h with
    | nil => exact nofun
    | @cons path c paths cs hfirst hrest =>
      obtain ⟨file, own, children, hl⟩ := loadWhile_eq_ok hfirst
      obtain ⟨found, -, hincluded⟩ := hl.included
      obtain ⟨text, htext, -⟩ := hl.text
      rw [List.flatMap_cons, hl.unwound, List.cons_append, List.length_cons, List.length_append] at hn
      intro x hx
      rw [List.flatMap_cons, hl.unwound, List.cons_append, List.mem_cons, List.mem_append] at hx
      rcases hx with rfl | hchild | hother
      · exact ⟨⟨path, hl.canonical⟩, text, htext⟩
      · exact ih _ (by omega) (List.rel_reverse hincluded) rfl x hchild
      · exact ih _ (by omega) hrest rfl x hother

/-- in both trees a file has this text, and its patterns name this number of known files -/
structure Agree (s s' : ConfigFiles) (known : List String) (file : String) : Prop where
  text : ∀ text text', OrderedMap.get? s.contents file = some (.ok text) →
    OrderedMap.get? s'.contents file = some (.ok text') → text' = text
  branches : ∀ text own paths paths', OrderedMap.get? s.contents file = some (.ok text) →
    AppConfig.ofText file text = .ok own →
    s.included? file own.includes = some paths → (∀ p ∈ paths, ∃ x ∈ known, s.canonical p = .ok x) →
    s'.included? file own.includes = some paths' → (∀ p ∈ paths', ∃ x ∈ known, s'.canonical p = .ok x) →
    paths'.length = paths.length

variable {known : List String}

theorem Agree.own {own own' : AppConfig} {children children' : List AppConfig} {path' : String}
    (h : Agree s s' known file) (hl : s.Loads opening path c file own children) {c' : AppConfig}
    (hl' : s'.Loads opening' path' c' file own' children') : own' = own := by
  obtain ⟨text, htext, hown⟩ := hl.text
  obtain ⟨text', htext', hown'⟩ := hl'.text
  rw [h.text text text' htext htext', hown] at hown'
  exact (Except.ok.inj hown').symm

theorem Agree.length {own : AppConfig} {children children' : List AppConfig} {path' : String}
    (h : Agree s s' known file) (hl : s.Loads opening path c file own children) {c' : AppConfig}
    (hl' : s'.Loads opening' path' c' file own children')
    (hknown : ∀ x ∈ children.reverse.flatMap ConfigFiles.unwound, x ∈ known)
    (hknown' : ∀ x ∈ children'.reverse.flatMap ConfigFiles.unwound, x ∈ known) :
    children'.length = children.length := by
  obtain ⟨text, htext, hown⟩ := hl.text
  obtain ⟨paths, hpaths, hchildren⟩ := hl.included
  obtain ⟨paths', hpaths', hchildren'⟩ := hl'.included
  rw [← hchildren.length_eq, ← hchildren'.length_eq]
  refine h.branches text own paths paths' htext hown hpaths (fun p hp => ?_) hpaths' fun p hp => ?_
  · obtain ⟨x, hx, hcanonical⟩ := canonical_of_loaded (List.rel_reverse hchildren) p
      (List.mem_reverse.mpr hp)
    exact ⟨x, hknown x hx, hcanonical⟩
  · obtain ⟨x, hx, hcanonical⟩ := canonical_of_loaded (List.rel_reverse hchildren') p
      (List.mem_reverse.mpr hp)
    exact ⟨x, hknown' x hx, hcanonical⟩

/-- a forest is given by its sources from the end on, the texts and the branches -/
theorem unwound_unique {paths paths' more more' : List String} {cs cs' : List AppConfig}
    (hagree : ∀ file ∈ known, Agree s s' known file)
    (hloads : List.Forall₂ (fun p c => s.loadWhile opening p = .ok c) paths cs)
    (hloads' : List.Forall₂ (fun p c => s'.loadWhile opening' p = .ok c) paths' cs')
    (hlength : cs'.length = cs.length) (hknown : ∀ x ∈ cs.flatMap unwound ++ more, x ∈ known)
    (hsources : cs'.flatMap unwound ++ more' = cs.flatMap unwound ++ more) :
    cs' = cs ∧ more' = more := by
  induction hn : (cs.flatMap unwound).length using Nat.strongRecOn
    generalizing opening opening' paths paths' cs cs' more more' with
  | ind n ih =>
    cases hloads with
    | nil =>
      cases List.length_eq_zero_iff.mp hlength
      exact ⟨rfl, hsources⟩
    | @cons path c paths cs hfirst hrest =>
      cases hloads' with
      | nil => cases hlength
      | @cons path' c' paths' cs' hfirst' hrest' =>
        obtain ⟨file, own, children, hl⟩ := loadWhile_eq_ok hfirst
        obtain ⟨file', own', children', hl'⟩ := loadWhile_eq_ok hfirst'
        rw [List.flatMap_cons, List.flatMap_cons, hl.unwound, hl'.unwound, List.cons_append,
          List.cons_append, List.cons_append, List.cons_append, List.append_assoc,
          List.append_assoc] at hsources
        rw [List.flatMap_cons, hl.unwound, List.cons_append, List.cons_append, List.append_assoc,
          List.forall_mem_cons] at hknown
        obtain ⟨hfile, hknown⟩ := hknown
        obtain ⟨rfl, hbelow⟩ := List.cons.inj hsources
        have hknown' : ∀ x ∈ children'.reverse.flatMap unwound, x ∈ known := fun x hx =>
          hknown x (hbelow ▸ List.mem_append_left _ hx)
        have hsame := hagree file' hfile
        obtain rfl := hsame.own hl hl'
        rw [List.flatMap_cons, hl.unwound, List.cons_append, List.length_cons,
          List.length_append] at hn
        have hcount := hsame.length hl hl' (fun x hx => hknown x (List.mem_append_left _ hx)) hknown'
        -- first what the file includes, then the files before it
        obtain ⟨found, -, hincluded⟩ := hl.included
        obtain ⟨found', -, hincluded'⟩ := hl'.included
        obtain ⟨hchildren, hbefore⟩ := ih _ (by omega) (List.rel_reverse hincluded)
          (List.rel_reverse hincluded') (by rw [List.length_reverse, List.length_reverse, hcount])
          hknown hbelow rfl
        obtain ⟨rfl, hmore⟩ := ih _ (by omega) hrest hrest' (Nat.succ.inj hlength)
          (fun x hx => hknown x (List.mem_append_right _ hx)) hbefore rfl
        rw [hl.result, hl'.result, List.reverse_inj.mp hchildren]
        exact ⟨rfl, hmore⟩

theorem unwound_ne_nil (h : s.loadWhile opening path = .ok c) : unwound c ≠ [] := by
  obtain ⟨file, own, children, hl⟩ := loadWhile_eq_ok h
  rw [hl.unwound]
  exact List.cons_ne_nil _ _

/-- trees without sources are no trees -/
theorem eq_nil_of_unwound {paths : List String} {cs : List AppConfig}
    (hloads : List.Forall₂ (fun p c => s.loadWhile opening p = .ok c) paths cs)
    (hnone : cs.flatMap unwound = []) : cs = [] := by
  cases hloads with
  | nil => rfl
  | cons hfirst hrest =>
    rw [List.flatMap_cons, List.append_eq_nil_iff] at hnone
    exact absurd hnone.1 (unwound_ne_nil hfirst)

/-- a forest is given by all its sources, however many trees there are -/
theorem forest_unique {paths paths' : List String} {cs cs' : List AppConfig}
    (hagree : ∀ file ∈ cs.flatMap unwound, Agree s s' (cs.flatMap unwound) file)
    (hloads : List.Forall₂ (fun p c => s.loadWhile opening p = .ok c) paths cs)
    (hloads' : List.Forall₂ (fun p c => s'.loadWhile opening' p = .ok c) paths' cs')
    (hsources : cs'.flatMap unwound = cs.flatMap unwound) : cs' = cs := by
  rcases Nat.le_total cs.length cs'.length with hle | hle
  · have hsplit : (cs'.take cs.length).flatMap unwound ++ (cs'.drop cs.length).flatMap unwound =
        cs.flatMap unwound ++ [] := by
      rw [← List.flatMap_append, List.take_append_drop, hsources, List.append_nil]
    obtain ⟨htake, hdrop⟩ := unwound_unique hagree hloads (List.forall₂_take cs.length hloads')
      (List.length_take_of_le hle) (fun x hx => by rwa [List.append_nil] at hx) hsplit
    have hnone := eq_nil_of_unwound (List.forall₂_drop cs.length hloads') hdrop
    rw [← List.take_append_drop cs.length cs', htake, hnone, List.append_nil]
  · have hall : (cs.take cs'.length).flatMap unwound ++ (cs.drop cs'.length).flatMap unwound =
        cs.flatMap unwound := by
      rw [← List.flatMap_append, List.take_append_drop]
    have hsplit : cs'.flatMap unwound ++ [] =
        (cs.take cs'.length).flatMap unwound ++ (cs.drop cs'.length).flatMap unwound := by
      rw [hall, hsources, List.append_nil]
    obtain ⟨htake, hdrop⟩ := unwound_unique hagree (List.forall₂_take cs'.length hloads) hloads'
      (List.length_take_of_le hle).symm (fun x hx => hall ▸ hx) hsplit
    have hnone := eq_nil_of_unwound (List.forall₂_drop cs'.length hloads) hdrop.symm
    have hcs := List.take_append_drop cs'.length cs
    rw [hnone, List.append_nil] at hcs
    exact htake.trans hcs

theorem flatMap_unwound_reverse (cs : List AppConfig) :
    cs.reverse.flatMap unwound = (cs.flatMap AppConfig.sources).reverse := by
  rw [List.reverse_flatMap]
  rfl

/-- **The sources tell what was loaded.** Where two trees of files agree, as far as the texts of the
sources go and the number of sources that their patterns name, the same sources come from the same
configurations. -/
theorem loaded_unique {paths paths' : List String} {cs cs' : List AppConfig}
    (hloads : paths.mapM (s.loadWhile opening) = .ok cs)
    (hloads' : paths'.mapM (s'.loadWhile opening') = .ok cs')
    (hsources : cs'.flatMap AppConfig.sources = cs.flatMap AppConfig.sources)
    (hagree : ∀ file ∈ cs.flatMap AppConfig.sources, Agree s s' (cs.flatMap AppConfig.sources) file) :
    cs' = cs := by
  refine List.reverse_inj.mp (forest_unique (fun file hfile => ?_)
    (List.rel_reverse (Except.mapM_eq_ok_iff.mp hloads))
    (List.rel_reverse (Except.mapM_eq_ok_iff.mp hloads')) ?_)
  · rw [flatMap_unwound_reverse] at hfile ⊢
    have h := hagree file (List.mem_reverse.mp hfile)
    refine ⟨h.text, fun text own paths paths' htext hown hpaths hcanonical hpaths' hcanonical' => ?_⟩
    refine h.branches text own paths paths' htext hown hpaths ?_ hpaths' ?_
    · simpa only [List.mem_reverse] using hcanonical
    · simpa only [List.mem_reverse] using hcanonical'
  · rw [flatMap_unwound_reverse, flatMap_unwound_reverse, hsources]

/-- every source is the path that stands for a file with a text -/
theorem loaded_source_known {paths : List String} {cs : List AppConfig}
    (hloads : paths.mapM (s.loadWhile opening) = .ok cs) {file : String}
    (hfile : file ∈ cs.flatMap AppConfig.sources) : (∃ path, s.canonical path = .ok file) ∧
      ∃ text, OrderedMap.get? s.contents file = some (.ok text) := by
  refine source_known (List.rel_reverse (Except.mapM_eq_ok_iff.mp hloads)) file ?_
  rw [flatMap_unwound_reverse]
  exact List.mem_reverse.mpr hfile

end ConfigFiles
end ServiceGraph
