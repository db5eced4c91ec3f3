import ServiceGraph.Proofs.Config.Forest
import ServiceGraph.Proofs.Files.Found
import ServiceGraph.Proofs.Kernel.Inputs

/-!
# The same inputs give the same configuration

The sources of a configuration say which files were loaded, not which of them included which. They do say
it where the files have the same contents and no pattern leaves a directory of which nothing is known. Nor
do they say which sources were loaded and which came with an inline configuration.

* `Place.nulFree_path`: the paths of files can stand among the inputs;
* `Files.Descends`: the patterns of a file leave no directory but those around the sources;
* `ConfigFiles.agree_of_read`: files with the same contents in two trees have the same texts and name the
  same number of sources;
* `Kernel.ToldApart`: texts tell inline configurations and parameters apart;
* `Kernel.SameSplit`: what one kernel loads, another does not bring with it;
* `Kernel.load_unique`: the same inputs over files with the same contents load the same configuration.
-/

namespace ServiceGraph

theorem Place.nulFree_path {p : Place} (h : p.Proper) : Text.NulFree p.path.toList := by
  induction p with
  | nil => decide
  | cons name p ih =>
    obtain ⟨hname, hp⟩ := h.of_cons
    have hnul : Text.NulFree name.toList := fun c hc => by
      rintro rfl
      exact hname.no_nul hc
    rw [path_cons hname.proper (ofText_path hp), Path.join, if_neg hname.proper.head?_ne]
    split
    · rw [String.toList_append]
      exact (ih hp).append hnul
    · rw [String.toList_append, String.toList_append]
      exact ((ih hp).append (by decide)).append hnul

/-- the place of a file that is given by its path from the root on -/
def Place.IsSource (sources : List String) (p : Place) : Prop :=
  ∃ x ∈ sources, p = (Path.ofText x).names.reverse

theorem Place.Proper.isSource {sources : List String} {p : Place} (h : p.Proper) (hp : p.path ∈ sources) :
    p.IsSource sources :=
  ⟨p.path, hp, by rw [Place.ofText_path h, List.reverse_reverse]⟩

/-- the patterns of the file climb only on the way to sources -/
def Files.Descends (f : Files) (sources : List String) (file : String) : Prop :=
  ∀ text own, OrderedMap.get? (ConfigFiles.ofFiles f).contents file = some (.ok text) →
    AppConfig.ofText file text = .ok own → ∀ pattern ∈ own.includes, ∀ parts,
      PatternPart.ofPattern? (Path.join (Place.path (Path.ofText file).names.dropLast.reverse) pattern) =
        some parts → PatternPart.Descends (Place.IsSource sources) parts []

namespace ConfigFiles

variable {f g : Files} {file : String} {sources : List String}

/-- as many paths for each pattern are as many in all -/
theorem length_included?_eq {s s' : ConfigFiles} {includes : List String} {named named' : String → Prop}
    (h : ∀ pattern ∈ includes, ∀ paths paths', s.matching? file pattern = some paths →
      (∀ p ∈ paths, named p) → s'.matching? file pattern = some paths' → (∀ p ∈ paths', named' p) →
      paths'.length = paths.length) {paths paths' : List String}
    (hpaths : s.included? file includes = some paths) (hnamed : ∀ p ∈ paths, named p)
    (hpaths' : s'.included? file includes = some paths') (hnamed' : ∀ p ∈ paths', named' p) :
    paths'.length = paths.length := by
  induction includes generalizing paths paths' with
  | nil =>
    cases hpaths
    cases hpaths'
    rfl
  | cons pattern includes ih =>
    obtain ⟨first, rest, hfirst, hrest, rfl⟩ := included?_cons_eq_some hpaths
    obtain ⟨first', rest', hfirst', hrest', rfl⟩ := included?_cons_eq_some hpaths'
    obtain ⟨hhead, htail⟩ := List.forall_mem_cons.mp h
    obtain ⟨hin, hin'⟩ := List.forall_mem_append.mp hnamed
    obtain ⟨hon, hon'⟩ := List.forall_mem_append.mp hnamed'
    rw [List.length_append, List.length_append, hhead first first' hfirst hin hfirst' hon,
      ih htail hrest hin' hrest' hon']

/-- the paths that stand for the sources -/
theorem locate_of_canonical {p : String} (hf : f.Tidy)
    (h : ∃ x ∈ sources, (ofFiles f).canonical p = .ok x) :
    ∃ place : Place, place.IsSource sources ∧ f.locate p = .ok place := by
  obtain ⟨x, hx, hcanonical⟩ := h
  change (f.locate p).map Place.path = .ok x at hcanonical
  cases hlocate : f.locate p with
  | error e =>
    rw [hlocate] at hcanonical
    cases hcanonical
  | ok place =>
    rw [hlocate] at hcanonical
    have hpath : place.path = x := Except.ok.inj hcanonical
    exact ⟨place, (hf.locate hlocate).isSource (hpath ▸ hx), rfl⟩

theorem entry?_of_read {p : Place} {content : List UInt8} (hp : p.Proper)
    (h : f.read p.path = .ok content) : f.entry? p = some (.file content) := by
  have hentry := Files.read_eq_ok h
  rwa [Files.placeOf_path hp] at hentry

/-- files with the same contents in two trees -/
theorem agree_of_read (hf : f.Tidy) (hg : g.Tidy)
    (hsources : ∀ x ∈ sources, ∃ place : Place, place.Proper ∧ x = place.path)
    (hread : ∀ x ∈ sources, ∃ content, f.read x = .ok content ∧ g.read x = .ok content)
    (hdescends : ∀ x ∈ sources, f.Descends sources x) :
    ∀ file ∈ sources, Agree (ofFiles f) (ofFiles g) sources file := by
  have hentry : ∀ place : Place, place.Proper → place.path ∈ sources →
      ∃ content, f.entry? place = some (.file content) ∧ g.entry? place = some (.file content) := by
    intro place hplace hsource
    obtain ⟨content, hreadf, hreadg⟩ := hread _ hsource
    exact ⟨content, entry?_of_read hplace hreadf, entry?_of_read hplace hreadg⟩
  have hshare : Files.Share f g (Place.IsSource sources) := by
    rintro place ⟨x, hx, rfl⟩
    obtain ⟨place, hplace, rfl⟩ := hsources x hx
    obtain ⟨content, hcontentf, hcontentg⟩ := hentry place hplace hx
    rw [Place.ofText_path hplace, List.reverse_reverse]
    exact ⟨⟨content, hcontentf⟩, content, hcontentg⟩
  intro file hfile
  refine ⟨fun text text' htext htext' => ?_, fun text own paths paths' htext hown => ?_⟩
  · obtain ⟨place, hplace, rfl⟩ := hsources file hfile
    obtain ⟨content, hcontentf, hcontentg⟩ := hentry place hplace hfile
    obtain ⟨-, c, hc, hx⟩ := entry?_of_contents hf hplace htext
    obtain ⟨-, c', hc', hx'⟩ := entry?_of_contents hg hplace htext'
    cases hc.symm.trans hcontentf
    cases hc'.symm.trans hcontentg
    exact Except.ok.inj (hx'.trans hx.symm)
  · refine length_included?_eq fun pattern hpattern paths paths' hpaths hin hpaths' hin' => ?_
    exact Files.length_matching?_eq hf hg hshare (hdescends file hfile text own htext hown pattern hpattern)
      hpaths (fun p hp => locate_of_canonical hf (hin p hp)) hpaths'
      fun p hp => locate_of_canonical hg (hin' p hp)

end ConfigFiles

namespace Kernel

variable {σ τ : Type} {k k' : Kernel σ τ} {f g : Files} {c c' : AppConfig}

/-- what is loaded: the files, and everything laid over each other -/
theorem load_eq_ok (h : k.load f = .ok c) :
    ∃ loaded, k.files.mapM ((ConfigFiles.ofFiles f).loadWhile []) = .ok loaded ∧
      c = { AppConfig.empty.mergeAll (loaded ++ k.configs) with
        parameters := ((Parameters.ofTree (AppConfig.empty.mergeAll (loaded ++ k.configs)).parameters).merge
          k.parameters).tree } := by
  rw [load] at h
  cases hfiles : k.files.mapM (AppConfig.load f) with
  | error e =>
    rw [hfiles] at h
    cases h
  | ok loaded =>
    rw [hfiles] at h
    exact ⟨loaded, hfiles, (Except.ok.inj h).symm⟩

/-- the sources that come with inline configurations -/
def inlineSources (k : Kernel σ τ) : List String := k.configs.flatMap AppConfig.sources

theorem sources_of_load (h : k.load f = .ok c) :
    ∃ loaded, k.files.mapM ((ConfigFiles.ofFiles f).loadWhile []) = .ok loaded ∧
      c.sources = loaded.flatMap AppConfig.sources ++ k.inlineSources := by
  obtain ⟨loaded, hloaded, rfl⟩ := load_eq_ok h
  refine ⟨loaded, hloaded, ?_⟩
  show (AppConfig.empty.mergeAll (loaded ++ k.configs)).sources = _
  rw [AppConfig.sources_mergeAll, List.flatMap_append]
  rfl

variable {loaded : List AppConfig}

theorem proper_of_loaded (hf : f.Tidy)
    (hloaded : k.files.mapM ((ConfigFiles.ofFiles f).loadWhile []) = .ok loaded) :
    ∀ x ∈ loaded.flatMap AppConfig.sources, ∃ place : Place, place.Proper ∧ x = place.path := by
  intro x hx
  obtain ⟨⟨path, hcanonical⟩, -⟩ := ConfigFiles.loaded_source_known hloaded hx
  exact ConfigFiles.canonical_eq_ok hf hcanonical

theorem nulFree_of_load (hf : f.Tidy) (hinline : ∀ x ∈ k.inlineSources, Text.NulFree x.toList)
    (h : k.load f = .ok c) : ∀ x ∈ c.sources, Text.NulFree x.toList := by
  obtain ⟨loaded, hloaded, hsources⟩ := sources_of_load h
  rw [hsources, List.forall_mem_append]
  refine ⟨fun x hx => ?_, hinline⟩
  obtain ⟨place, hplace, rfl⟩ := proper_of_loaded hf hloaded x hx
  exact Place.nulFree_path hplace

/-- the patterns of the files that are loaded climb only on the way to these files -/
def Descends (k : Kernel σ τ) (f : Files) : Prop :=
  ∀ loaded, k.files.mapM (AppConfig.load f) = .ok loaded →
    ∀ x ∈ loaded.flatMap AppConfig.sources, f.Descends (loaded.flatMap AppConfig.sources) x

/-- the texts of inline configurations and of parameters tell them apart -/
structure ToldApart (k k' : Kernel σ τ) : Prop where
  configs : ∀ c ∈ k.configs, ∀ c' ∈ k'.configs, ∀ text, c.written? = some text →
    c'.written? = some text →
      c'.parameters = c.parameters ∧ c'.includes = c.includes ∧ c'.sections = c.sections
  parameters : ∀ text, (Value.map k.parameters).written? = some text →
    (Value.map k'.parameters).written? = some text → k'.parameters = k.parameters

/-- where the inputs are the same, equally many sources come with inline configurations -/
def SameSplit (k : Kernel σ τ) (f : Files) (k' : Kernel σ τ) (g : Files) : Prop :=
  ∀ c c', k.load f = .ok c → k'.load g = .ok c' → SameInputs k k' c c' →
    k'.inlineSources.length = k.inlineSources.length

/-- kernels without files bring all their sources with them -/
theorem sameSplit_of_files (hk : k.files = []) (hk' : k'.files = []) : k.SameSplit f k' g := by
  have hinline : ∀ (k : Kernel σ τ) f c, k.files = [] → k.load f = .ok c → c.sources = k.inlineSources := by
    intro k f c hk hload
    obtain ⟨loaded, hloaded, hsources⟩ := sources_of_load hload
    rw [hk, List.mapM_nil] at hloaded
    cases hloaded
    exact hsources
  intro c c' hload hload' hsame
  rw [← hinline k f c hk hload, ← hinline k' g c' hk' hload', hsame.sources]

theorem configs_alike {configs configs' : List AppConfig} {written : List (List Char)}
    (htold : ∀ c ∈ configs, ∀ c' ∈ configs', ∀ text, c.written? = some text → c'.written? = some text →
      c'.parameters = c.parameters ∧ c'.includes = c.includes ∧ c'.sections = c.sections)
    (h : configs.mapM AppConfig.written? = some written)
    (h' : configs'.mapM AppConfig.written? = some written) :
    List.Forall₂ (fun c c' : AppConfig => c'.parameters = c.parameters ∧ c'.sections = c.sections)
      configs configs' := by
  rw [Option.mapM_eq_some_iff] at h h'
  induction h generalizing configs' with
  | nil =>
    cases h'
    exact .nil
  | @cons c text configs written hc hcs ih =>
    cases h' with
    | @cons c' _ configs' _ hc' hcs' =>
      obtain ⟨hparameters, -, hsections⟩ := htold c List.mem_cons_self c' List.mem_cons_self text hc hc'
      exact .cons ⟨hparameters, hsections⟩ (ih (fun d hd d' hd' =>
        htold d (List.mem_cons_of_mem _ hd) d' (List.mem_cons_of_mem _ hd')) hcs')

/-- **The same inputs load the same configuration**, where the files that were loaded have the same
contents and their patterns climb only on the way to these files. -/
theorem load_unique (hf : f.Tidy) (hg : g.Tidy) (htold : ToldApart k k') (hload : k.load f = .ok c)
    (hload' : k'.load g = .ok c') {texts : List String} (htexts : k.inputTexts? c = some texts)
    (hsame : SameInputs k k' c c') (hsplit : k.SameSplit f k' g)
    (hread : ∀ loaded, k'.files.mapM ((ConfigFiles.ofFiles g).loadWhile []) = .ok loaded →
      ∀ x ∈ loaded.flatMap AppConfig.sources, ∃ content, f.read x = .ok content ∧ g.read x = .ok content)
    (hdescends : k.Descends f) : c' = c := by
  obtain ⟨configs, parameters, hconfigs, hparameters, -⟩ := inputTexts?_eq_some htexts
  have halike := configs_alike htold.configs hconfigs (hsame.configs.trans hconfigs)
  have hoverlay : k'.parameters = k.parameters :=
    htold.parameters parameters hparameters (hsame.parameters.trans hparameters)
  obtain ⟨loaded, hloaded, hsources⟩ := sources_of_load hload
  obtain ⟨loaded', hloaded', hsources'⟩ := sources_of_load hload'
  -- the sources are cut in the same place, into those of the files and the others
  have hcut : loaded'.flatMap AppConfig.sources ++ k'.inlineSources =
      loaded.flatMap AppConfig.sources ++ k.inlineSources := by
    rw [← hsources, ← hsources', hsame.sources]
  obtain ⟨hknown, hinline⟩ := List.append_inj' hcut (hsplit c c' hload hload' hsame)
  have hfiles : loaded' = loaded := by
    refine ConfigFiles.loaded_unique hloaded hloaded' hknown ?_
    exact ConfigFiles.agree_of_read hf hg (proper_of_loaded hf hloaded) (hknown ▸ hread loaded' hloaded')
      (hdescends loaded hloaded)
  obtain ⟨first, hfirst, rfl⟩ := load_eq_ok hload
  obtain ⟨second, hsecond, rfl⟩ := load_eq_ok hload'
  cases hfirst.symm.trans hloaded
  cases hsecond.symm.trans hloaded'
  rw [hfiles, AppConfig.mergeAll_append, AppConfig.mergeAll_append, AppConfig.mergeAll_alike halike hinline,
    hoverlay]

end Kernel
end ServiceGraph
