import ServiceGraph.Command.Run
import ServiceGraph.Proofs.Digest.Numbers
import ServiceGraph.Proofs.Kernel.Runs
import ServiceGraph.Proofs.Source.Unchecked

/-!
# An artifact that is used again is what would be compiled

The inputs of a kernel tell neither what its extensions do nor its constructors, and of the files that were
loaded they tell the order only. So extensions have to do what their names say, patterns may climb only
where directories are known, and with other constructors the compilation may fail where the artifact was
used again.

* `KernelRun.exists_same_registry`: what is used again was compiled from the same registry;
* `reused_is_compiled`: what is used again is what would be compiled;
* `Command.fresh_is_compiled`: the same of the command line, without conditions on patterns and constructors.
-/

namespace ServiceGraph

variable {σ τ : Type}

/-! ## reuse -/

section

variable {a : Artifacts} {services : Services τ} {h : Heap τ} {behaviour : Behaviour σ}
  {runs : List (KernelRun σ τ)} {now run : KernelRun σ τ} {s : StoreRecord} {path : String}

/-- what is asked of a run: its extensions do what their names say, the files have proper names, and the
paths that come with inline configurations hold no NUL -/
structure KernelRun.Fair (behaviour : Behaviour σ) (run : KernelRun σ τ) : Prop where
  follows : run.kernel.Follows behaviour
  tidy : run.files.Tidy
  nulFree : ∀ x ∈ run.kernel.inlineSources, Text.NulFree x.toList

/-- everything of which a digest was made: contents of files, and the rows that tell inputs -/
def digested (a : Artifacts) (services : Services τ) (h : Heap τ) (runs : List (KernelRun σ τ))
    (now : KernelRun σ τ) : List (List UInt8) :=
  Artifacts.contents (runs.filterMap (KernelRun.record? a services h)) now.files ++
    (now :: runs).filterMap KernelRun.row?

namespace KernelRun

/-- the run that has stored what is found had the same inputs -/
theorem sameInputs_of_record {c c' : AppConfig} {l l' : Lifecycle σ} {journal journal' : σ} {r : Registry}
    {texts : List String} {source : String} (hnow : now.Fair behaviour) (hthen : run.Fair behaviour)
    (hdigests : Digest.Distinct (digested a services h runs now)) (hrun : run ∈ runs)
    (hrecord : run.record? a services h = some s)
    (hprepare : now.kernel.prepare now.files now.journal = (.ok (c, l), journal))
    (hprepare' : run.kernel.prepare run.files run.journal = (.ok (c', l'), journal'))
    (htexts : now.kernel.inputTexts? c = some texts)
    (hsource : run.kernel.source? services h r = some (.ok source)) (hcall : s.call.source = source)
    (hinputs : (run.kernel.fingerprint? c').getD (Digest.ofText source) = Digest.ofParts texts) :
    Kernel.SameInputs now.kernel run.kernel c c' := by
  have hrow : Digest.terminated texts ∈ digested a services h runs now := by
    refine List.mem_append_right _ (List.mem_filterMap.mpr ⟨now, List.mem_cons_self, ?_⟩)
    rw [KernelRun.row?, hprepare]
    dsimp only
    rw [htexts]
    rfl
  cases htexts' : run.kernel.inputTexts? c' with
  | none =>
    -- then the module itself was digested in place of the inputs
    have hmodule : Digest.bytes source ∈ digested a services h runs now := by
      refine List.mem_append_left _ (hcall ▸ Artifacts.source_mem_contents ?_)
      exact List.mem_filterMap.mpr ⟨run, hrun, hrecord⟩
    rw [Kernel.fingerprint?, htexts'] at hinputs
    obtain ⟨m, rfl⟩ := Kernel.exists_module hsource
    exact absurd (hdigests _ hmodule _ hrow hinputs) (Kernel.terminated_ne_module htexts m)
  | some texts' =>
    have hrow' : Digest.terminated texts' ∈ digested a services h runs now := by
      refine List.mem_append_right _ (List.mem_filterMap.mpr ⟨run, List.mem_cons_of_mem _ hrun, ?_⟩)
      rw [KernelRun.row?, hprepare']
      dsimp only
      rw [htexts']
      rfl
    obtain ⟨hload, -⟩ := Kernel.prepare_eq_ok hprepare
    obtain ⟨hload', -⟩ := Kernel.prepare_eq_ok hprepare'
    rw [Kernel.fingerprint?, htexts'] at hinputs
    exact Kernel.sameInputs_of_terminated htexts htexts' (Kernel.nulFree_of_load hnow.tidy hnow.nulFree hload)
      (Kernel.nulFree_of_load hthen.tidy hthen.nulFree hload') (hdigests _ hrow' _ hrow hinputs)

/-- the files that the run has loaded still have the contents that it has seen -/
theorem read_of_record {c : AppConfig} {journal : σ} {l : Lifecycle σ}
    (hfair : run.Fair behaviour) (hprepare : run.kernel.prepare run.files run.journal = (.ok (c, l), journal))
    (hlook : Artifacts.look run.files c.sources [] = .ok s.seen)
    (hseen : ∀ r ∈ s.seen, now.files.read r.1 = .ok r.2) {loaded : List AppConfig}
    (hloaded : run.kernel.files.mapM ((ConfigFiles.ofFiles run.files).loadWhile []) = .ok loaded) :
    ∀ x ∈ loaded.flatMap AppConfig.sources,
      ∃ content, now.files.read x = .ok content ∧ run.files.read x = .ok content := by
  intro x hx
  obtain ⟨hload, -⟩ := Kernel.prepare_eq_ok hprepare
  obtain ⟨loaded', hloaded', hsources⟩ := Kernel.sources_of_load hload
  cases hloaded.symm.trans hloaded'
  obtain ⟨⟨path, hcanonical⟩, text, htext⟩ := ConfigFiles.loaded_source_known hloaded hx
  obtain ⟨place, hplace, rfl⟩ := ConfigFiles.canonical_eq_ok hfair.tidy hcanonical
  obtain ⟨hne, -⟩ := ConfigFiles.entry?_of_contents hfair.tidy hplace htext
  -- a file that was loaded is its own path from the root on
  have hsaw : StoreRecord.Saw ⟨s.call, s.seen⟩ run.files.here place.path :=
    Artifacts.saw_of_look hlook (.inl (hsources ▸ List.mem_append_left _ hx))
  obtain ⟨absolute, habsolute, hpath⟩ := hsaw
  rw [Path.absolute?_path hplace hne, Option.some.injEq] at hpath
  obtain ⟨⟨known, content⟩, hmem, hknown⟩ := List.mem_map.mp habsolute
  have hknown : known = place.path := hknown.trans hpath.symm
  subst hknown
  exact ⟨content, hseen (place.path, content) hmem,
    (Artifacts.read_of_look hlook (place.path, content) hmem).resolve_left List.not_mem_nil⟩

/-- what is used again was compiled by an earlier run from the registry that would be compiled now -/
theorem exists_same_registry (history : CacheHistory a services h now.files runs)
    (hfair : ∀ run ∈ now :: runs, run.Fair behaviour)
    (htold : ∀ run ∈ runs, Kernel.ToldApart now.kernel run.kernel)
    (hsplit : ∀ run ∈ runs, now.kernel.SameSplit now.files run.kernel run.files)
    (hdescends : now.kernel.Descends now.files)
    (hmanifests : ∀ s ∈ runs.filterMap (KernelRun.record? a services h),
      Manifest.ofText? s.manifest.toText = some s.manifest)
    (hdigests : Digest.Distinct (digested a services h runs now))
    (hreused : (now.outcome a services h).1 = some (.ok (.reused path))) :
    ∃ run ∈ runs, ∃ r text, now.files.readText path = .ok text ∧
      run.kernel.source? services h r = some (.ok text) ∧
        (now.kernel.compile services h now.files now.journal).1 = now.kernel.source? services h r := by
  obtain ⟨-, c, l, journal, texts, hprepare, htexts, hlookup⟩ := Kernel.reused_iff.mp hreused
  have hsub : Digest.Distinct
      (Artifacts.contents (runs.filterMap (KernelRun.record? a services h)) now.files) :=
    fun x hx y hy => hdigests x (List.mem_append_left _ hx) y (List.mem_append_left _ hy)
  obtain ⟨s, hs, hextensions, hinputs, -, hartifact, hseen⟩ :=
    history.vouched.lookup hmanifests hsub hlookup
  obtain ⟨run, hrun, hrecord⟩ := List.mem_filterMap.mp hs
  obtain ⟨c', l', journal', r, source, ⟨hprepare', -, hbuild, hsource⟩, hlook, hcall⟩ :=
    KernelRun.record?_eq_some_iff.mp hrecord
  have hnow := hfair now List.mem_cons_self
  have hthen := hfair run (List.mem_cons_of_mem _ hrun)
  obtain ⟨hload, es, horder, rfl⟩ := Kernel.prepare_eq_ok hprepare
  obtain ⟨hload', es', horder', rfl⟩ := Kernel.prepare_eq_ok hprepare'
  rw [hcall] at hextensions hinputs hartifact
  dsimp only [Kernel.call] at hextensions hinputs hartifact
  refine ⟨run, hrun, r, source, hartifact, hsource, ?_⟩
  -- the inputs and the contents were the same, so the configuration was
  have hsame := sameInputs_of_record hnow hthen hdigests hrun hrecord hprepare hprepare' htexts hsource
    (congrArg StoreCall.source hcall) hinputs
  obtain rfl := Kernel.load_unique hnow.tidy hthen.tidy (htold run hrun) hload hload' htexts hsame
    (hsplit run hrun) (fun _ => read_of_record hthen hprepare' hlook hseen) hdescends
  -- the extensions were alike, so the registry was the same
  have halike : List.Forall₂ Extension.Alike es' es :=
    Extension.alike_of_names (hthen.follows.resolved horder') (hnow.follows.resolved horder) hextensions
  rw [Kernel.build_alike halike rfl rfl journal' journal] at hbuild
  rw [Kernel.compile_of_prepare hprepare, hbuild]

end KernelRun

/-- **An artifact that is used again is what would be compiled.** Let kernels run on a directory that was
empty at the beginning, each with the same live objects at hand, and let other files change between the
runs in any way. If a run uses an artifact again, compiling its kernel gives exactly the text of the
artifact. It may only fail because of a constructor, and only if an earlier run had other constructors. -/
theorem reused_is_compiled (history : CacheHistory a services h now.files runs)
    (hfair : ∀ run ∈ now :: runs, run.Fair behaviour)
    (htold : ∀ run ∈ runs, Kernel.ToldApart now.kernel run.kernel)
    (hsplit : ∀ run ∈ runs, now.kernel.SameSplit now.files run.kernel run.files)
    (hdescends : now.kernel.Descends now.files)
    (hmanifests : ∀ s ∈ runs.filterMap (KernelRun.record? a services h),
      Manifest.ofText? s.manifest.toText = some s.manifest)
    (hdigests : Digest.Distinct (digested a services h runs now))
    (hreused : (now.outcome a services h).1 = some (.ok (.reused path))) :
    ∃ text, now.files.readText path = .ok text ∧
      ((now.kernel.compile services h now.files now.journal).1 = some (.ok text) ∨
        (∃ run ∈ runs, run.kernel.constructors ≠ now.kernel.constructors) ∧
          now.kernel.constructors.isSome ∧
          ∃ e : CompileError, e.OfConstructor ∧
            (now.kernel.compile services h now.files now.journal).1 = some (.error (.compile e))) := by
  obtain ⟨run, hrun, r, text, htext, hsource, hcompile⟩ :=
    KernelRun.exists_same_registry history hfair htold hsplit hdescends hmanifests hdigests hreused
  refine ⟨text, htext, ?_⟩
  rw [hcompile]
  by_cases hconstructors : run.kernel.constructors = now.kernel.constructors
  · exact .inl (Kernel.source?_of_constructors hconstructors hsource)
  · rcases Compile.compile_kept r run.kernel.constructors now.kernel.constructors services h .standard text
      (Kernel.source?_eq_ok.mp hsource) with hkept | ⟨hknown, e, hfailed, he⟩
    · exact .inl (Kernel.source?_eq_ok.mpr hkept)
    · exact .inr ⟨⟨run, hrun, hconstructors⟩, hknown, e, he, Kernel.source?_eq_error hfailed⟩

end

namespace Clock

open Command (noServices)

/-! ### an application that is compiled twice

A pattern leads out of the directory of its file, and an inline configuration brings a source along. -/

def extension : Extension Unit :=
  ⟨"clock", [], none, fun _ => do
    .apply (.add (.ofNode "clock" (.statement (.named "Clock") [] [])))
    return .done (.ok ())⟩

def site : AppConfig := ⟨[("site", .str "home")], [], [], ["/site.yaml"]⟩

def kernel (constructors : Option (Constructors Empty)) : Kernel Unit Empty :=
  ⟨["conf/app.yaml"], [site], [], [extension], [], constructors⟩

def appYaml : List UInt8 := Digest.bytes "includes: [../zone.yaml]\n"
def siteYaml : List UInt8 := Digest.bytes "parameters: {site: home}\n"
def zoneYaml : List UInt8 := Digest.bytes "parameters: {zone: UTC}\n"

def files : Files :=
  ⟨[(["app.yaml", "conf"], .file appYaml), (["conf"], .directory), (["site.yaml"], .file siteYaml),
    (["zone.yaml"], .file zoneYaml)], []⟩

def loaded : AppConfig := ⟨[("zone", .str "UTC")], [], [], ["/zone.yaml", "/conf/app.yaml"]⟩

def parameters : OrderedMap Value := [("zone", .str "UTC"), ("site", .str "home")]

def config : AppConfig := ⟨parameters, [], [], ["/zone.yaml", "/conf/app.yaml", "/site.yaml"]⟩

def registry : Registry :=
  { Registry.ofParameters ⟨parameters, true⟩ with
    definitions := [{ Definition.ofNode "clock" (.statement (.named "Clock") [] []) with
      origin := some "clock" }]
    extensionOrder := ["clock"]
    frozen := true }

def compiled : SourceModule where
  options := .standard
  table := [("zone", .str "UTC"), ("site", .str "home")]
  methods := [⟨"service_clock", "clock", true, true, .construct "Clock" [], []⟩]
  tags := []
  types := []

def texts : List String :=
  ["files", "/zone.yaml", "/conf/app.yaml", "/site.yaml", "configs",
    "\x7b? \"parameters\" : \x7b? \"site\" : \"home\"\x7d\x7d", "parameters", "\x7b\x7d"]

def appDigest : String := "blake3:827003ecab5eb37ab00d0afffa2faab00af343f0295947d176b0fe5265ffb4a8"
def siteDigest : String := "blake3:6f6be34d1dabf0bc74ca8616d7b9f82fd07c5064b33be71651055cd8482323eb"
def zoneDigest : String := "blake3:034fee7e775ecd12682fcdca0c12f914965dc89c846ccc8400b63e40de52d0a1"
def manifestDigest : String := "blake3:526107ce467d655db00086164db6dae51a2f706ec79563020342e20e65762310"

def manifest : Manifest where
  schema := "1.0"
  generator := "kiln 0.3.0"
  key := "134da7d24b94dffd"
  extensions := ["clock"]
  inputs := "blake3:688d534d7f59aded72a3f2893aade1553c589e695a2265c9be5dfbd53a98e4bc"
  resources := [("/zone.yaml", zoneDigest), ("/conf/app.yaml", appDigest), ("/site.yaml", siteDigest)]
  artifactHash := "blake3:acd831a7d3a766ae25b9375a6f3472785fdc126b11cdcde51e0464637ac83895"

/-- what the first run stores -/
def record : StoreRecord :=
  ⟨⟨["clock"], manifest.inputs, config.sources, compiled.text⟩,
    [("/zone.yaml", zoneYaml), ("/conf/app.yaml", appYaml), ("/site.yaml", siteYaml)]⟩

def withArtifact (artifact : List UInt8) : Files :=
  ⟨(["134da7d24b94dffd.rs", "cache"], .file artifact) :: (["cache"], .directory) :: files.entries, []⟩

def withManifest (artifact manifest : List UInt8) : Files :=
  ⟨(["134da7d24b94dffd.manifest.yaml", "cache"], .file manifest) :: (withArtifact artifact).entries, []⟩

/-- what the first run leaves -/
def stored : Files := withManifest (Digest.bytes compiled.text) (Digest.bytes manifest.toText)

def cache : Artifacts := ⟨"/cache"⟩

/-- a run before anything is stored; the names of constructors are not checked -/
def first : KernelRun Unit Empty := ⟨kernel none, files, (), false⟩

def again (constructors : Option (Constructors Empty)) : KernelRun Unit Empty :=
  ⟨kernel constructors, stored, (), true⟩

variable {constructors : Option (Constructors Empty)}

/-- the digests, evaluated in one proof: each evaluation waits for all that stands before it -/
theorem digests_evaluated :
    [zoneYaml, appYaml, siteYaml, Digest.terminated texts].map Digest.ofBytes =
        [zoneDigest, appDigest, siteDigest, manifest.inputs] ∧
      Digest.ofText compiled.text = manifest.artifactHash ∧
      Digest.ofText manifest.toText = manifestDigest ∧ record.key = manifest.key := by
  refine ⟨?_, ?_, ?_, ?_⟩
  · rw [List.map_congr_left fun content _ => Digest.ofBytes_eq_unrolled content]
    decide +kernel
  · unfold SourceModule.text SourceModule.withHeader
    -- the header has the digest of the body
    simp only [Digest.ofText_eq_unrolled]
    decide +kernel
  · rw [Digest.ofText_eq_unrolled]
    decide +kernel
  · rw [StoreRecord.key, Artifacts.keyFor, Digest.key, Digest.digits_eq_unrolled]
    decide +kernel

theorem digests_loaded : Digest.ofBytes zoneYaml = zoneDigest ∧ Digest.ofBytes appYaml = appDigest ∧
    Digest.ofBytes siteYaml = siteDigest ∧ Digest.ofBytes (Digest.terminated texts) = manifest.inputs := by
  simpa only [List.map_cons, List.map_nil, List.cons.injEq, and_true] using digests_evaluated.1

theorem digest_compiled : Digest.ofText compiled.text = manifest.artifactHash := digests_evaluated.2.1

theorem digest_manifest : Digest.ofText manifest.toText = manifestDigest := digests_evaluated.2.2.1

theorem key_record : record.key = manifest.key := digests_evaluated.2.2.2

theorem manifest_survives : Manifest.ofText? manifest.toText = some manifest := by
  unfold Manifest.ofText? Yaml.Document.read? Yaml.Document.ofText? Yaml.Token.ofText? Yaml.cells?
    Manifest.toText
  simp only [String.toList_ofList]
  decide +kernel

theorem manifest_record : record.manifest = manifest := by
  obtain ⟨hzone, happ, hsite, -⟩ := digests_loaded
  have hresources : StoreRecord.digests record.seen = manifest.resources := by
    rw [show StoreRecord.digests record.seen = [("/zone.yaml", Digest.ofBytes zoneYaml),
      ("/conf/app.yaml", Digest.ofBytes appYaml), ("/site.yaml", Digest.ofBytes siteYaml)] from rfl, hzone,
      happ, hsite]
    rfl
  rw [StoreRecord.manifest, key_record, hresources,
    show Digest.ofText record.call.source = _ from digest_compiled]
  rfl

/-! ### the first run -/

theorem load_files_stored : AppConfig.load files "conf/app.yaml" = .ok loaded ∧
    AppConfig.load stored "conf/app.yaml" = .ok loaded := by
  decide +kernel

theorem load_of_loaded {f : Files} (h : AppConfig.load f "conf/app.yaml" = .ok loaded) :
    (kernel constructors).load f = .ok config := by
  have hfiles : (kernel constructors).files.mapM (AppConfig.load f) = .ok [loaded] := by
    rw [show (kernel constructors).files = ["conf/app.yaml"] from rfl, List.mapM_cons, h]
    rfl
  rw [Kernel.load, hfiles]
  rfl

theorem prepare_of_load {f : Files} (h : AppConfig.load f "conf/app.yaml" = .ok loaded) :
    (kernel constructors).prepare f () = (.ok (config, ⟨[extension], .resolved⟩), ()) := by
  rw [Kernel.prepare, load_of_loaded h]
  rfl

theorem inputTexts_config : (kernel constructors).inputTexts? config = some texts := by
  have htexts : (kernel none).inputTexts? config = some texts := by decide
  exact htexts

theorem fingerprint_config : (kernel constructors).fingerprint? config = some manifest.inputs := by
  rw [Kernel.fingerprint?, inputTexts_config]
  exact congrArg some digests_loaded.2.2.2

theorem record_first : first.record? cache noServices .empty = some record := by
  refine KernelRun.record?_eq_some_iff.mpr ⟨config, ⟨[extension], .resolved⟩, (), registry, compiled.text,
    ⟨prepare_of_load load_files_stored.1, rfl, rfl, rfl⟩, rfl, ?_⟩
  rw [Kernel.call, show first.kernel.fingerprint? config = _ from fingerprint_config]
  rfl

theorem store_files (text : String) :
    files.store "/cache/134da7d24b94dffd.rs" text = (.ok (), withArtifact (Digest.bytes text)) := rfl

theorem save_withArtifact (artifact : List UInt8) (m : Manifest) :
    m.save (withArtifact artifact) "/cache/134da7d24b94dffd.manifest.yaml" =
      (.ok (), withManifest artifact (Digest.bytes m.toText)) := rfl

theorem artifactPath_key : cache.artifactPath manifest.key = "/cache/134da7d24b94dffd.rs" := rfl

theorem manifestPath_key : cache.manifestPath manifest.key = "/cache/134da7d24b94dffd.manifest.yaml" := rfl

theorem files_first : (first.outcome cache noServices .empty).2.1 = stored := by
  have hartifact : files.store (cache.artifactPath record.key) record.call.source =
      (.ok (), withArtifact (Digest.bytes compiled.text)) := by
    rw [key_record, artifactPath_key]
    exact store_files _
  have hlook : Artifacts.look files record.call.resources [] = .ok record.seen := rfl
  rw [KernelRun.files_of_record record_first, show first.files = files from rfl,
    Artifacts.store_written hlook hartifact]
  dsimp only
  rw [manifest_record, key_record, manifestPath_key]
  exact congrArg Prod.snd (save_withArtifact (Digest.bytes compiled.text) manifest)

/-! ### the second run -/

theorem reads (artifact manifest : List UInt8) :
    (withManifest artifact manifest).read "/cache/134da7d24b94dffd.rs" = .ok artifact ∧
      (withManifest artifact manifest).read "/cache/134da7d24b94dffd.manifest.yaml" = .ok manifest :=
  ⟨rfl, rfl⟩

theorem check_manifest : cache.check stored manifest ["clock"] manifest.inputs = .ok () := by
  obtain ⟨hzone, happ, hsite, -⟩ := digests_loaded
  obtain ⟨hartifact, -⟩ := reads (Digest.bytes compiled.text) (Digest.bytes manifest.toText)
  have hread : stored.read "/zone.yaml" = .ok zoneYaml ∧ stored.read "/conf/app.yaml" = .ok appYaml ∧
      stored.read "/site.yaml" = .ok siteYaml := ⟨rfl, rfl, rfl⟩
  have hresources : ∀ r ∈ manifest.resources, stored.digest r.1 = .ok r.2 :=
    List.forall_mem_cons.mpr ⟨(Files.digest_of_read hread.1).trans (congrArg _ hzone),
      List.forall_mem_cons.mpr ⟨(Files.digest_of_read hread.2.1).trans (congrArg _ happ),
        List.forall_mem_singleton.mpr ((Files.digest_of_read hread.2.2).trans (congrArg _ hsite))⟩⟩
  exact Artifacts.check_eq_ok_iff.mpr ⟨rfl, rfl, rfl, hresources,
    (Files.digest_of_read hartifact).trans (congrArg _ digest_compiled)⟩

theorem lookup_stored : cache.lookup stored ["clock"] manifest.inputs = .ok "/cache/134da7d24b94dffd.rs" := by
  obtain ⟨-, hmanifest⟩ := reads (Digest.bytes compiled.text) (Digest.bytes manifest.toText)
  have hkey : Artifacts.keyFor ["clock"] manifest.inputs = manifest.key := key_record
  refine Artifacts.lookup_eq_ok_iff.mpr ?_
  rw [hkey]
  exact ⟨rfl, manifest, Artifacts.loadManifest_eq_ok_iff.mpr
    ⟨manifest.toText, Files.readText_of_read hmanifest, manifest_survives⟩, check_manifest⟩

theorem reused_again : ((again constructors).outcome cache noServices .empty).1 =
    some (.ok (.reused "/cache/134da7d24b94dffd.rs")) := by
  refine Kernel.reused_iff.mpr ⟨rfl, config, ⟨[extension], .resolved⟩, (), texts,
    prepare_of_load load_files_stored.2, inputTexts_config, ?_⟩
  rw [Digest.ofParts, digests_loaded.2.2.2]
  exact lookup_stored

theorem follows_kernel : (kernel constructors).Follows fun _ => (none, extension.register) where
  supplied := List.forall_mem_singleton.mpr rfl
  built := nofun

theorem fair_kernel {f : Files} (hf : f.Tidy) (reuse : Bool) :
    KernelRun.Fair (fun _ => (none, extension.register)) ⟨kernel constructors, f, (), reuse⟩ :=
  ⟨follows_kernel, hf, List.forall_mem_singleton.mpr (by decide)⟩

theorem descends_of_contents {sources : List String} {file : String} (text : String) (own : AppConfig)
    (htext : OrderedMap.get? (ConfigFiles.ofFiles stored).contents file = some (.ok text))
    (hown : AppConfig.ofText file text = .ok own)
    (h : ∀ pattern ∈ own.includes, ∃ parts,
      PatternPart.ofPattern? (Path.join (Place.path (Path.ofText file).names.dropLast.reverse) pattern) =
        some parts ∧ PatternPart.Descends (Place.IsSource sources) parts []) :
    stored.Descends sources file := by
  intro text' own' htext' hown' pattern hpattern parts hparts
  cases htext.symm.trans htext'
  cases hown.symm.trans hown'
  obtain ⟨parts', hparts', hdescends⟩ := h pattern hpattern
  cases hparts'.symm.trans hparts
  exact hdescends

theorem descends_kernel : (kernel constructors).Descends stored := by
  intro all hall
  rw [show (kernel constructors).files = ["conf/app.yaml"] from rfl, List.mapM_cons,
    load_files_stored.2] at hall
  cases hall
  have happ : Place.OnWay (Place.IsSource loaded.sources) ["conf"] :=
    ⟨["app.yaml", "conf"], ⟨"/conf/app.yaml", by decide, by decide⟩, List.suffix_cons _ _⟩
  -- the pattern leaves the directory of the file that it stands in
  have hparts : PatternPart.Descends (Place.IsSource loaded.sources)
      [.literal "conf", .literal "..", .literal "zone.yaml"] [] :=
    PatternPart.descends_of_leading (by decide) happ
      (List.forall_mem_singleton.mpr (by decide : ¬ (PatternPart.literal "zone.yaml").Climbs)) 1
  refine List.forall_mem_cons.mpr ⟨?_, List.forall_mem_singleton.mpr ?_⟩
  · exact descends_of_contents "parameters: {zone: UTC}\n" { loaded with sources := [] } (by decide)
      (by decide +kernel) nofun
  · exact descends_of_contents "includes: [../zone.yaml]\n"
      { AppConfig.empty with includes := ["../zone.yaml"] } (by decide) (by decide +kernel)
      (List.forall_mem_singleton.mpr ⟨_, by decide +kernel, hparts⟩)

theorem records_first : [first].filterMap (KernelRun.record? cache noServices .empty) = [record] := by
  rw [List.filterMap_cons, record_first]
  rfl

theorem row_of_load {f : Files} {journal : Unit} {reuse : Bool}
    (h : AppConfig.load f "conf/app.yaml" = .ok loaded) :
    KernelRun.row? ⟨kernel none, f, journal, reuse⟩ = some (Digest.terminated texts) := by
  rw [KernelRun.row?, prepare_of_load h]
  dsimp only
  rw [inputTexts_config]
  rfl

theorem rows : [again none, first].filterMap KernelRun.row? =
    [Digest.terminated texts, Digest.terminated texts] := by
  rw [List.filterMap_cons, List.filterMap_cons, again, first, row_of_load load_files_stored.1,
    row_of_load load_files_stored.2]
  rfl

theorem digested_again : digested cache noServices .empty [first] (again none) =
    [Digest.bytes manifest.toText, Digest.bytes compiled.text, appYaml, siteYaml, zoneYaml] ++
      [Digest.bytes compiled.text, zoneYaml, appYaml, siteYaml] ++
        [Digest.terminated texts, Digest.terminated texts] := by
  have hcontents : (again none).files.contents =
      [Digest.bytes manifest.toText, Digest.bytes compiled.text, appYaml, siteYaml, zoneYaml] := rfl
  rw [digested, Artifacts.contents, records_first, rows, hcontents]
  rfl

theorem distinct_digests : Digest.Distinct (digested cache noServices .empty [first] (again none)) := by
  have hmem : ∀ m s y x z r : List UInt8, ∀ c ∈ [m, s, y, x, z] ++ [s, z, y, x] ++ [r, r],
      c ∈ [m, s, z, y, x, r] := by
    intro m s y x z r c hc
    simp only [List.mem_append, List.mem_cons, List.not_mem_nil, or_false] at hc ⊢
    tauto
  have hdigests : [Digest.bytes manifest.toText, Digest.bytes compiled.text, zoneYaml, appYaml, siteYaml,
      Digest.terminated texts].map Digest.ofBytes =
        [manifestDigest, manifest.artifactHash, zoneDigest, appDigest, siteDigest, manifest.inputs] := by
    rw [← digest_manifest, ← digest_compiled, List.map_cons, List.map_cons, digests_evaluated.1]
    rfl
  have hnodup : [manifestDigest, manifest.artifactHash, zoneDigest, appDigest, siteDigest,
      manifest.inputs].Nodup := by
    decide
  rw [digested_again]
  exact .of_known hdigests hnodup (hmem _ _ _ _ _ _)

theorem history_first : CacheHistory cache noServices .empty stored [first] := by
  have hempty : cache.Empty files := Artifacts.empty_of_entries (by decide)
  have hran : CacheHistory cache noServices .empty _ [first] := .ran first (.started files hempty)
  rwa [files_first] at hran

theorem again_is_compiled : ∃ text, stored.readText "/cache/134da7d24b94dffd.rs" = .ok text ∧
    ((kernel none).compile noServices .empty stored ()).1 = some (.ok text) := by
  have htidy : files.Tidy ∧ stored.Tidy := by decide
  have hfair : ∀ run ∈ [again none, first], KernelRun.Fair (fun _ => (none, extension.register)) run :=
    List.forall_mem_cons.mpr ⟨fair_kernel htidy.2 true,
      List.forall_mem_singleton.mpr (fair_kernel htidy.1 false)⟩
  have htold : ∀ run ∈ [first], Kernel.ToldApart (again none).kernel run.kernel :=
    List.forall_mem_singleton.mpr ⟨List.forall_mem_singleton.mpr (List.forall_mem_singleton.mpr
      fun _ _ _ => ⟨rfl, rfl, rfl⟩), fun _ _ _ => rfl⟩
  have hsplit : ∀ run ∈ [first], (again none).kernel.SameSplit (again none).files run.kernel run.files :=
    List.forall_mem_singleton.mpr fun _ _ _ _ _ => rfl
  have hmanifests : ∀ s ∈ [first].filterMap (KernelRun.record? cache noServices .empty),
      Manifest.ofText? s.manifest.toText = some s.manifest := by
    rw [records_first, List.forall_mem_singleton, manifest_record]
    exact manifest_survives
  obtain ⟨text, htext, hcompiled | ⟨⟨run, hrun, hother⟩, -⟩⟩ :=
    reused_is_compiled history_first hfair htold hsplit descends_kernel hmanifests distinct_digests
      reused_again
  · exact ⟨text, htext, hcompiled⟩
  · cases List.mem_singleton.mp hrun
    exact absurd rfl hother

/-- with other constructors the artifact is used again all the same, and compiling fails -/
theorem unchecked_is_reused : CacheHistory cache noServices .empty stored [first] ∧
    ((again (some [])).outcome cache noServices .empty).1 =
      some (.ok (.reused "/cache/134da7d24b94dffd.rs")) ∧
    ((kernel (some [])).compile noServices .empty stored ()).1 =
      some (.error (.compile (.unknownCallable "Clock" "clock"))) := by
  refine ⟨history_first, reused_again, ?_⟩
  rw [Kernel.compile_of_prepare (prepare_of_load load_files_stored.2)]
  rfl

end Clock
end ServiceGraph
