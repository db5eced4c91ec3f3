import ServiceGraph.Proofs.Cache.Writers
import ServiceGraph.Proofs.Files.Changes

/-!
# When an artifact is fresh

After a store files are written, brought into being and removed, only not the manifest. A lookup
then finds the artifact if everything is as it was, and otherwise it names the first thing that is not.

* `StoreRecord.Intact`: the resources and the artifact have the contents that they had;
* `Artifacts.store_eq_ok`: what a store that succeeds leaves behind;
* `Artifacts.check_manifest`: a check against the manifest of a store looks at the resources one after
  the other, and then at the artifact;
* `Artifacts.lookup_exact`: when the artifact is found, and what is said if it is not.
-/

namespace ServiceGraph

/-! ## what is stored is read -/

namespace Files

variable {f g : Files} {path text : String} {p : Place}

theorem read_store (hstored : f.store path text = (.ok (), g)) : g.read path = .ok (Digest.bytes text) := by
  rw [store] at hstored
  cases hreplaced : f.replace path (Digest.bytes text) with
  | mk result h =>
    rw [hreplaced] at hstored
    obtain ⟨hresult, rfl⟩ := Prod.ext_iff.mp hstored
    cases result with
    | error e => cases hresult
    | ok u => exact read_replace hreplaced

theorem keeps_store (hne : f.placeOf (Path.ofText path) ≠ p) (text : String) :
    Keeps f (f.store path text).2 p := by
  rw [store]
  exact keeps_replace hne

end Files

/-- the resources and the artifact have the contents that they had when they were stored -/
structure StoreRecord.Intact (a : Artifacts) (s : StoreRecord) (f : Files) : Prop where
  resources : ∀ r ∈ s.seen, f.read r.1 = .ok r.2
  artifact : f.read (a.artifactPath s.key) = .ok (Digest.bytes s.call.source)

def Staleness.ofResource (f : Files) (path : String) : Staleness :=
  if (f.read path).isOk then .resourceChanged path else .resourceMissing path

def Staleness.ofArtifact (f : Files) (path : String) : Staleness :=
  if (f.read path).isOk then .artifactChanged else .artifactMissing

namespace Artifacts

variable {a : Artifacts} {f g : Files} {s : StoreRecord} {records : List StoreRecord}
  {path inputs : String} {extensions : List String} {m : Manifest}

/-! ## what a store leaves behind -/

theorem placeOf_manifest_ne_artifact (a : Artifacts) (s : StoreRecord) (f g : Files) :
    f.placeOf (Path.ofText (a.manifestPath s.key)) ≠ g.placeOf (Path.ofText (a.artifactPath s.key)) := by
  rw [StoreRecord.key, placeOf_manifestPath, placeOf_artifactPath]
  intro hsame
  exact artifactName_ne_manifestName _ _ (List.cons.inj hsame).1.symm

/-- a store that succeeds brings the artifact into being and then the manifest -/
theorem store_eq_ok_iff (hlook : look f s.call.resources [] = .ok s.seen) :
    a.store f s.call.extensions s.call.inputs s.call.resources s.call.source = (.ok path, g) ↔
      path = a.artifactPath s.key ∧ ∃ h, f.store (a.artifactPath s.key) s.call.source = (.ok (), h) ∧
        h.store (a.manifestPath s.key) s.manifest.toText = (.ok (), g) := by
  obtain ⟨call, seen⟩ := s
  dsimp only at hlook ⊢
  constructor
  · intro hstore
    cases hstored : f.store (a.artifactPath (StoreRecord.key ⟨call, seen⟩)) call.source with
    | mk result h =>
      cases result with
      | error e => cases (store_unwritten hlook hstored).symm.trans hstore
      | ok u =>
        rw [store_written hlook hstored, Manifest.save] at hstore
        cases hsaved : h.store (a.manifestPath (StoreRecord.key ⟨call, seen⟩))
            (StoreRecord.manifest ⟨call, seen⟩).toText with
        | mk saved last =>
          rw [hsaved] at hstore
          obtain ⟨hresult, rfl⟩ := Prod.ext_iff.mp hstore
          cases saved with
          | error e => cases hresult
          | ok u => exact ⟨(Except.ok.inj hresult).symm, h, rfl, hsaved⟩
  · rintro ⟨rfl, h, hstored, hsaved⟩
    rw [store_written hlook hstored, Manifest.save, hsaved]
    rfl

/-- the artifact and the manifest are there, and nothing else is lost -/
theorem store_eq_ok (hlook : look f s.call.resources [] = .ok s.seen)
    (hstore : a.store f s.call.extensions s.call.inputs s.call.resources s.call.source = (.ok path, g)) :
    path = a.artifactPath s.key ∧ g.read path = .ok (Digest.bytes s.call.source) ∧
      g.read (a.manifestPath s.key) = .ok (Digest.bytes s.manifest.toText) ∧
      ∀ p, f.placeOf (Path.ofText (a.artifactPath s.key)) ≠ p →
        f.placeOf (Path.ofText (a.manifestPath s.key)) ≠ p → Files.Keeps f g p := by
  obtain ⟨rfl, h, hstored, hsaved⟩ := (store_eq_ok_iff hlook).mp hstore
  have hfirst : ∀ p, f.placeOf (Path.ofText (a.artifactPath s.key)) ≠ p → Files.Keeps f h p := by
    intro p hp
    have hkeeps := Files.keeps_store hp s.call.source
    rwa [hstored] at hkeeps
  have hsecond : ∀ p, h.placeOf (Path.ofText (a.manifestPath s.key)) ≠ p → Files.Keeps h g p := by
    intro p hp
    have hkeeps := Files.keeps_store hp s.manifest.toText
    rwa [hsaved] at hkeeps
  have hhere : h.here = f.here := (hfirst _ (placeOf_manifest_ne_artifact a s f f).symm).here
  refine ⟨rfl, ?_, Files.read_store hsaved, fun p hartifact hmanifest => ?_⟩
  · exact (hsecond _ (placeOf_manifest_ne_artifact a s h h)).read (Files.read_store hstored)
  · rw [← Files.placeOf_eq_of_here hhere] at hmanifest
    exact (hfirst p hartifact).trans (hsecond p hmanifest)

/-! ## checking against a manifest of a store -/

theorem checkResources_append {resources : List (String × String)} (rest : List (String × String))
    (hfirst : ∀ r ∈ resources, f.digest r.1 = .ok r.2) :
    checkResources f (resources ++ rest) = checkResources f rest := by
  induction resources with
  | nil => rfl
  | cons r resources ih =>
    obtain ⟨hr, hothers⟩ := List.forall_mem_cons.mp hfirst
    rw [List.cons_append, checkResources, hr]
    exact (if_pos rfl).trans (ih hothers)

/-- the first resource that is not as it was -/
theorem checkResources_first {r : String × String} (rest : List (String × String))
    (hr : f.digest r.1 ≠ .ok r.2) :
    checkResources f (r :: rest) = .error (.ofResource f r.1) := by
  rw [checkResources, Staleness.ofResource]
  rw [Files.digest] at hr ⊢
  cases hread : f.read r.1 with
  | error e => rfl
  | ok content =>
    rw [hread] at hr
    exact if_neg fun hsame => hr (congrArg Except.ok hsame)

/-- extensions and inputs are as they were, so that what is on the disk decides -/
theorem check_manifest (a : Artifacts) (s : StoreRecord) (f : Files) :
    a.check f s.manifest s.call.extensions s.call.inputs =
      match checkResources f (StoreRecord.digests s.seen) with
      | .error e => .error e
      | .ok () =>
        if f.digest (a.artifactPath s.key) = .ok (Digest.ofText s.call.source) then .ok ()
        else .error (.ofArtifact f (a.artifactPath s.key)) := by
  have hmanifest : s.manifest.generator = Source.generator ∧ s.manifest.extensions = s.call.extensions ∧
      s.manifest.inputs = s.call.inputs ∧ s.manifest.resources = StoreRecord.digests s.seen ∧
      s.manifest.key = s.key ∧ s.manifest.artifactHash = Digest.ofText s.call.source :=
    ⟨rfl, rfl, rfl, rfl, rfl, rfl⟩
  obtain ⟨hgenerator, hextensions, hinputs, hresources, hkey, hhash⟩ := hmanifest
  rw [check, Staleness.ofArtifact]
  simp only [hgenerator, hextensions, hinputs, hresources, hkey, hhash, ne_eq, not_true_eq_false,
    if_false, bind, Except.bind, pure, Except.pure, throw, throwThe, MonadExceptOf.throw]
  cases checkResources f (StoreRecord.digests s.seen) with
  | error e => rfl
  | ok u =>
    rw [Files.digest]
    cases f.read (a.artifactPath s.key) with
    | error e => rfl
    | ok content =>
      by_cases hsame : Digest.ofBytes content = Digest.ofText s.call.source
      · exact (if_pos hsame).trans (if_pos (congrArg Except.ok hsame)).symm
      · exact (if_neg hsame).trans (if_neg fun h => hsame (Except.ok.inj h)).symm

/-! ## looking up what was stored -/

theorem lookup_of_loaded (hload : a.loadManifest f (keyFor extensions inputs) = .ok (some m)) :
    a.lookup f extensions inputs =
      (a.check f m extensions inputs).map fun _ => a.artifactPath (keyFor extensions inputs) := by
  unfold lookup
  generalize keyFor extensions inputs = key at *
  simp only [hload]
  cases a.check f m extensions inputs with
  | error e => rfl
  | ok u => rfl

section

variable (hmanifest : f.read (a.manifestPath s.key) = .ok (Digest.bytes s.manifest.toText))
  (hsurvives : Manifest.ofText? s.manifest.toText = some s.manifest)
include hmanifest hsurvives

/-- as long as the manifest of a store is there, it decides -/
theorem lookup_of_manifest : a.lookup f s.call.extensions s.call.inputs =
    (a.check f s.manifest s.call.extensions s.call.inputs).map fun _ => a.artifactPath s.key := by
  have hload := loadManifest_eq_ok_iff.mpr ⟨_, Files.readText_of_read hmanifest, hsurvives⟩
  rw [StoreRecord.key] at hload ⊢
  exact lookup_of_loaded hload

theorem lookup_of_resource {before after : OrderedMap (List UInt8)} {r : String × List UInt8}
    (hdigests : Digest.Distinct (contents [s] f)) (hseen : s.seen = before ++ r :: after)
    (hbefore : ∀ b ∈ before, f.read b.1 = .ok b.2) (hr : f.read r.1 ≠ .ok r.2) :
    a.lookup f s.call.extensions s.call.inputs = .error (.ofResource f r.1) := by
  have hmem : r ∈ s.seen := hseen ▸ List.mem_append_right _ List.mem_cons_self
  have hdigest : f.digest r.1 ≠ .ok (Digest.ofBytes r.2) := by
    rw [ne_eq, digest_eq_iff hdigests (seen_mem_contents List.mem_cons_self hmem)]
    exact hr
  have hfirst : ∀ b ∈ StoreRecord.digests before, f.digest b.1 = .ok b.2 :=
    StoreRecord.forall_mem_digests.mpr fun b hb => Files.digest_of_read (hbefore b hb)
  have hchecked : checkResources f (StoreRecord.digests s.seen) = .error (.ofResource f r.1) := by
    rw [hseen, StoreRecord.digests, List.map_append, List.map_cons]
    exact (checkResources_append _ hfirst).trans (checkResources_first _ hdigest)
  rw [lookup_of_manifest hmanifest hsurvives, check_manifest, hchecked]
  rfl

theorem lookup_of_resources (hdigests : Digest.Distinct (contents [s] f))
    (hresources : ∀ r ∈ s.seen, f.read r.1 = .ok r.2) :
    a.lookup f s.call.extensions s.call.inputs =
      if f.read (a.artifactPath s.key) = .ok (Digest.bytes s.call.source) then
        .ok (a.artifactPath s.key)
      else .error (.ofArtifact f (a.artifactPath s.key)) := by
  have hchecked : checkResources f (StoreRecord.digests s.seen) = .ok () :=
    checkResources_eq_ok_iff.mpr (StoreRecord.forall_mem_digests.mpr fun r hr =>
      Files.digest_of_read (hresources r hr))
  have hartifact : f.digest (a.artifactPath s.key) = .ok (Digest.ofText s.call.source) ↔
      f.read (a.artifactPath s.key) = .ok (Digest.bytes s.call.source) :=
    digest_eq_iff hdigests (source_mem_contents List.mem_cons_self)
  rw [lookup_of_manifest hmanifest hsurvives, check_manifest, hchecked]
  simp only [hartifact]
  split <;> rfl

theorem lookup_eq_ok_iff_intact (hdigests : Digest.Distinct (contents [s] f)) :
    a.lookup f s.call.extensions s.call.inputs = .ok (a.artifactPath s.key) ↔ s.Intact a f := by
  constructor
  · intro hfound
    rw [lookup_of_manifest hmanifest hsurvives] at hfound
    cases hcheck : a.check f s.manifest s.call.extensions s.call.inputs with
    | error e =>
      rw [hcheck] at hfound
      cases hfound
    | ok u =>
      obtain ⟨-, -, -, hresources, hartifact⟩ := check_eq_ok_iff.mp hcheck
      refine ⟨fun r hr => ?_, ?_⟩
      · exact (digest_eq_iff hdigests (seen_mem_contents List.mem_cons_self hr)).mp
          (StoreRecord.forall_mem_digests.mp hresources r hr)
      · exact (digest_eq_iff hdigests (source_mem_contents List.mem_cons_self)).mp hartifact
  · intro hintact
    rw [lookup_of_resources hmanifest hsurvives hdigests hintact.resources, if_pos hintact.artifact]

end

/-- **Freshness is exact.** Let a store succeed, with resources that are not its own artifact or manifest,
and let any files but the manifest be written, brought into being or removed after it. All resources of
the call were seen, and the store leaves them and the artifact as they are told in the manifest. A lookup
then finds the artifact if and only if they still are, or are so again. Otherwise it names the first of
the resources, in the order in which they were stored, that is missing or changed, or else the artifact. -/
theorem lookup_exact {changes : List FileChange}
    (hlook : look f s.call.resources [] = .ok s.seen)
    (hstore : a.store f s.call.extensions s.call.inputs s.call.resources s.call.source = (.ok path, g))
    (hothers : ∀ r ∈ s.seen,
      f.placeOf (Path.ofText (a.artifactPath s.key)) ≠ f.placeOf (Path.ofText r.1) ∧
        f.placeOf (Path.ofText (a.manifestPath s.key)) ≠ f.placeOf (Path.ofText r.1))
    (hsurvives : Manifest.ofText? s.manifest.toText = some s.manifest)
    (hchanges : ∀ c ∈ changes,
      g.placeOf (Path.ofText c.path) ≠ g.placeOf (Path.ofText (a.manifestPath s.key)))
    (hdigests : Digest.Distinct (contents [s] (g.changed changes))) :
    (∀ resource ∈ s.call.resources, s.Saw f.here resource) ∧ path = a.artifactPath s.key ∧
      s.Intact a g ∧
      (a.lookup (g.changed changes) s.call.extensions s.call.inputs = .ok path ↔
        s.Intact a (g.changed changes)) ∧
      (∀ before r after, s.seen = before ++ r :: after →
        (∀ b ∈ before, (g.changed changes).read b.1 = .ok b.2) →
        (g.changed changes).read r.1 ≠ .ok r.2 →
          a.lookup (g.changed changes) s.call.extensions s.call.inputs =
            .error (.ofResource (g.changed changes) r.1)) ∧
      ((∀ r ∈ s.seen, (g.changed changes).read r.1 = .ok r.2) →
        (g.changed changes).read path ≠ .ok (Digest.bytes s.call.source) →
          a.lookup (g.changed changes) s.call.extensions s.call.inputs =
            .error (.ofArtifact (g.changed changes) path)) := by
  obtain ⟨rfl, hartifact, hmanifest, hkept⟩ := store_eq_ok hlook hstore
  -- what was seen before the store can still be read after it
  have hread : ∀ r ∈ s.seen, g.read r.1 = .ok r.2 := by
    intro r hr
    have hnow := (read_of_look hlook r hr).resolve_left List.not_mem_nil
    exact (hkept _ (hothers r hr).1 (hothers r hr).2).read hnow
  have hlater : (g.changed changes).read (a.manifestPath s.key) = .ok (Digest.bytes s.manifest.toText) :=
    (Files.keeps_changed changes g hchanges).read hmanifest
  refine ⟨fun resource hresource => saw_of_look hlook (.inl hresource), rfl, ⟨hread, hartifact⟩,
    lookup_eq_ok_iff_intact hlater hsurvives hdigests, ?_, ?_⟩
  · intro before r after hseen hbefore hr
    exact lookup_of_resource hlater hsurvives hdigests hseen hbefore hr
  · intro hresources hchanged
    rw [lookup_of_resources hlater hsurvives hdigests hresources, if_neg hchanged]

theorem store_cutOffRecord : (Artifacts.mk "/cache").store oneResource cutOffRecord.call.extensions
    cutOffRecord.call.inputs cutOffRecord.call.resources cutOffRecord.call.source =
      (.ok "/cache/a72cb9bcf4dd0ced.rs", oneManifest "new\n" cutOffManifest) := by
  have hkey : cutOffRecord.key = cutOffManifest.key := cutOff_digests.1
  have hlook : look oneResource cutOffRecord.call.resources [] = .ok cutOffRecord.seen := rfl
  have hsave : ∀ m : Manifest, (oneArtifact "new\n").store
      ((Artifacts.mk "/cache").manifestPath cutOffManifest.key) m.toText =
        (.ok (), oneManifest "new\n" m) := fun _ => rfl
  rw [store_eq_ok_iff hlook, hkey, manifest_cutOff]
  exact ⟨rfl, oneArtifact "new\n", rfl, hsave _⟩

def restored : List FileChange := [.remove "/app.yaml", .write "/app.yaml" (Digest.bytes "parameters:\n")]

theorem distinct_restored : Digest.Distinct
    (contents [cutOffRecord] ((oneManifest "new\n" cutOffManifest).changed restored)) := by
  have hmem : ∀ m s r : List UInt8, ∀ c ∈ [r, m, s] ++ [s, r], c ∈ [m, s, r] := by
    intro m s r c hc
    simp only [List.mem_append, List.mem_cons, List.not_mem_nil, or_false] at hc ⊢
    tauto
  have hcontents : ∀ m, contents [cutOffRecord] ((oneManifest "new\n" m).changed restored) =
      [Digest.bytes "parameters:\n", Digest.bytes m.toText, Digest.bytes "new\n"] ++
        [Digest.bytes "new\n", Digest.bytes "parameters:\n"] := fun _ => rfl
  rw [hcontents]
  exact distinct_of_cutOff (hmem _ _ _)

theorem restored_found : (Artifacts.mk "/cache").lookup
    ((oneManifest "new\n" cutOffManifest).changed restored) ["core"] "inputs" =
      .ok "/cache/a72cb9bcf4dd0ced.rs" := by
  have hkey : cutOffRecord.key = cutOffManifest.key := cutOff_digests.1
  have hlook : look oneResource cutOffRecord.call.resources [] = .ok cutOffRecord.seen := rfl
  have hsurvives : Manifest.ofText? cutOffRecord.manifest.toText = some cutOffRecord.manifest := by
    rw [manifest_cutOff]
    exact cutOffManifest_survives
  have hothers : ∀ r ∈ cutOffRecord.seen,
      oneResource.placeOf (Path.ofText ((Artifacts.mk "/cache").artifactPath cutOffRecord.key)) ≠
          oneResource.placeOf (Path.ofText r.1) ∧
        oneResource.placeOf (Path.ofText ((Artifacts.mk "/cache").manifestPath cutOffRecord.key)) ≠
          oneResource.placeOf (Path.ofText r.1) := by
    rw [hkey]
    decide
  have hchanges : ∀ c ∈ restored,
      (oneManifest "new\n" cutOffManifest).placeOf (Path.ofText c.path) ≠
        (oneManifest "new\n" cutOffManifest).placeOf
          (Path.ofText ((Artifacts.mk "/cache").manifestPath cutOffRecord.key)) := by
    rw [hkey]
    decide
  obtain ⟨-, -, -, hfound, -⟩ :=
    lookup_exact hlook store_cutOffRecord hothers hsurvives hchanges distinct_restored
  have hread : ∀ m, ((oneManifest "new\n" m).changed restored).read "/app.yaml" =
      .ok (Digest.bytes "parameters:\n") := fun _ => rfl
  have hartifact : ∀ m, ((oneManifest "new\n" m).changed restored).read
      ((Artifacts.mk "/cache").artifactPath cutOffManifest.key) = .ok (Digest.bytes "new\n") := fun _ => rfl
  refine hfound.mpr ⟨List.forall_mem_singleton.mpr (hread _), ?_⟩
  rw [hkey]
  exact hartifact _

end Artifacts
end ServiceGraph
