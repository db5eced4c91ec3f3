import Mathlib.Logic.Relation
import ServiceGraph.Proofs.Cache.Vouched
import ServiceGraph.Proofs.Digest.Numbers

/-!
# Any number of stores at once

A store looks at its resources one after the other, replaces the artifact and then the manifest.
Other stores may come between any two of these steps, and it may be cut off after each of them: then it
never goes on.

* `Writer`, `Writer.next`: a store on its way, and its next step;
* `Writer.alone`: if nothing comes between, this is `Artifacts.store`;
* `World`, `World.Step`: files with the stores at work on them;
* `World.Sound`: every manifest is that of a store that came to its end, and this store has seen its
  resources;
* `Artifacts.found_was_stored`: what a lookup finds was stored.
-/

namespace ServiceGraph

open Relation (ReflTransGen)

/-! ## one store -/

/-- how far a store has come -/
inductive Progress where
  /-- these resources have still to be looked at -/
  | looking (rest : List String)
  /-- the artifact is in its place -/
  | signing
  | ended (result : Except CacheError String)

structure Writer where
  record : StoreRecord
  stage : Progress

namespace Writer

variable {a : Artifacts} {f : Files} {x : Writer} {here : Place} {call : StoreCall}
  {records : List StoreRecord} {s : StoreRecord}

def of (call : StoreCall) : Writer := ⟨⟨call, []⟩, .looking call.resources⟩

/-- the stage that follows the replacing of the artifact -/
def afterArtifact : Except CacheError Unit → Progress
  | .ok () => .signing
  | .error e => .ended (.error e)

/-- the next step, on the files as they are when it comes -/
def next (a : Artifacts) (x : Writer) (f : Files) : Writer × Files :=
  match x.stage with
  | .looking [] =>
    let stored := f.store (a.artifactPath x.record.key) x.record.call.source
    ({ x with stage := afterArtifact stored.1 }, stored.2)
  | .looking (path :: rest) =>
    match Path.absolute? f.here.path path with
    | none => ({ x with stage := .ended (.error (.unreadable path .emptyPath)) }, f)
    | some absolute =>
      match f.read absolute with
      | .error fault => ({ x with stage := .ended (.error (.unreadable absolute fault)) }, f)
      | .ok content =>
        (⟨{ x.record with seen := x.record.seen.insert absolute content }, .looking rest⟩, f)
  | .signing =>
    let saved := x.record.manifest.save f (a.manifestPath x.record.key)
    ({ x with stage := .ended (saved.1.map fun _ => a.artifactPath x.record.key) }, saved.2)
  | .ended _ => (x, f)

def record? (x : Writer) : Option StoreRecord :=
  match x.stage with
  | .ended (.ok _) => some x.record
  | _ => none

/-- the resources of the call are seen, except for those that have still to be looked at -/
def Recorded (here : Place) (x : Writer) : Prop :=
  match x.stage with
  | .looking rest => ∀ resource ∈ x.record.call.resources, resource ∈ rest ∨ x.record.Saw here resource
  | .signing | .ended (.ok _) => ∀ resource ∈ x.record.call.resources, x.record.Saw here resource
  | .ended (.error _) => True

theorem recorded_of (here : Place) (call : StoreCall) : (of call).Recorded here :=
  fun _ hresource => .inl hresource

theorem Recorded.saw (h : x.Recorded here) (hs : x.record? = some s) :
    ∀ resource ∈ s.call.resources, s.Saw here resource := by
  obtain ⟨record, stage⟩ := x
  cases stage with
  | looking rest => cases hs
  | signing => cases hs
  | ended result =>
    cases result with
    | error e => cases hs
    | ok path =>
      cases hs
      exact h

theorem next_eq_of_record? (hs : x.record? = some s) (f : Files) : x.next a f = (x, f) := by
  obtain ⟨record, stage⟩ := x
  cases stage with
  | looking rest => cases hs
  | signing => cases hs
  | ended result => rfl

theorem next_artifact (a : Artifacts) (r : StoreRecord) (f : Files) :
    next a ⟨r, .looking []⟩ f =
      (⟨r, afterArtifact (f.store (a.artifactPath r.key) r.call.source).1⟩,
        (f.store (a.artifactPath r.key) r.call.source).2) := by
  unfold next
  rfl

theorem next_manifest (a : Artifacts) (r : StoreRecord) (f : Files) :
    next a ⟨r, .signing⟩ f =
      (⟨r, .ended ((r.manifest.save f (a.manifestPath r.key)).1.map fun _ => a.artifactPath r.key)⟩,
        (r.manifest.save f (a.manifestPath r.key)).2) := by
  unfold next
  rfl

theorem next_here (a : Artifacts) (x : Writer) (f : Files) : (x.next a f).2.here = f.here := by
  obtain ⟨record, stage⟩ := x
  cases stage with
  | looking rest =>
    cases rest with
    | nil =>
      simp only [next_artifact]
      exact Artifacts.here_store f _ _
    | cons path rest =>
      unfold next
      dsimp only
      split
      · rfl
      · split <;> rfl
  | signing =>
    simp only [next_manifest, Manifest.save]
    exact Artifacts.here_store f _ _
  | ended result => rfl

theorem Recorded.next (h : x.Recorded f.here) : (x.next a f).1.Recorded f.here := by
  obtain ⟨⟨call, seen⟩, stage⟩ := x
  cases stage with
  | looking rest =>
    cases rest with
    -- nothing is left to look at, so every resource was seen
    | nil =>
      have hsaw : ∀ resource ∈ call.resources, StoreRecord.Saw ⟨call, seen⟩ f.here resource := by
        intro resource hresource
        exact (h resource hresource).resolve_left List.not_mem_nil
      simp only [next_artifact]
      cases (f.store (a.artifactPath (StoreRecord.key ⟨call, seen⟩)) call.source).1 with
      | ok u => exact hsaw
      | error e => trivial
    | cons path rest =>
      unfold Writer.next
      dsimp only
      split
      · trivial
      next absolute habsolute =>
        split
        · trivial
        next content hread =>
          intro resource hresource
          rcases h resource hresource with hleft | ⟨known, hknown, hsame⟩
          · rcases List.mem_cons.mp hleft with rfl | hrest
            · exact .inr ⟨absolute, OrderedMap.mem_keys_insert.mpr (.inl rfl), habsolute⟩
            · exact .inl hrest
          · exact .inr ⟨known, OrderedMap.mem_keys_insert.mpr (.inr hknown), hsame⟩
  | signing =>
    simp only [next_manifest]
    cases (StoreRecord.manifest ⟨call, seen⟩).save f (a.manifestPath (StoreRecord.key ⟨call, seen⟩)) with
    | mk saved g =>
      cases saved with
      | ok u => exact h
      | error e => trivial
  | ended result => exact h

/-- a step leaves only manifests behind that are vouched for -/
theorem next_vouched (h : a.Vouched records f)
    (hs : ∀ s, (x.next a f).1.record? = some s → s ∈ records) : a.Vouched records (x.next a f).2 := by
  obtain ⟨record, stage⟩ := x
  cases stage with
  | looking rest =>
    cases rest with
    | nil =>
      simp only [next_artifact]
      exact h.storeArtifact record.call.extensions record.call.inputs record.call.source
    | cons path rest =>
      unfold next
      dsimp only
      split
      · exact h
      · split <;> exact h
  | signing =>
    simp only [next_manifest] at hs ⊢
    refine h.storeManifest fun hsaved => hs record ?_
    rw [hsaved]
    rfl
  | ended result => exact h

/-! ### a store that nothing comes between -/

/-- steps of one store, with nothing between them -/
def Alone (a : Artifacts) : Writer × Files → Writer × Files → Prop :=
  ReflTransGen fun p q => p.1.next a p.2 = q

theorem next_look (a : Artifacts) (call : StoreCall) (seen : OrderedMap (List UInt8)) (path : String)
    (rest : List String) (f : Files) :
    next a ⟨⟨call, seen⟩, .looking (path :: rest)⟩ f =
      match Path.absolute? f.here.path path with
      | none => (⟨⟨call, seen⟩, .ended (.error (.unreadable path .emptyPath))⟩, f)
      | some absolute =>
        match f.read absolute with
        | .error fault => (⟨⟨call, seen⟩, .ended (.error (.unreadable absolute fault))⟩, f)
        | .ok content => (⟨⟨call, seen.insert absolute content⟩, .looking rest⟩, f) := by
  unfold next
  rfl

/-- looking at resources: one of them cannot be read, or all are seen -/
theorem alone_looking (a : Artifacts) (f : Files) (call : StoreCall) (rest : List String)
    (seen : OrderedMap (List UInt8)) :
    ∃ x, Alone a (⟨⟨call, seen⟩, .looking rest⟩, f) (x, f) ∧
      match Artifacts.look f rest seen with
      | .ok seen' => x = ⟨⟨call, seen'⟩, .looking []⟩
      | .error e => ∃ seen', x = ⟨⟨call, seen'⟩, .ended (.error e)⟩ := by
  induction rest generalizing seen with
  | nil => exact ⟨_, .refl, rfl⟩
  | cons path rest ih =>
    have hnext := next_look a call seen path rest f
    rw [Artifacts.look]
    cases habsolute : Path.absolute? f.here.path path with
    | none =>
      rw [habsolute] at hnext
      exact ⟨_, .single hnext, seen, rfl⟩
    | some absolute =>
      rw [habsolute] at hnext
      cases hread : f.read absolute with
      | error fault =>
        simp only [hread] at hnext
        refine ⟨_, .single hnext, ?_⟩
        simp only [hread]
        exact ⟨seen, rfl⟩
      | ok content =>
        simp only [hread] at hnext ⊢
        obtain ⟨x, hrun, hx⟩ := ih (seen.insert absolute content)
        exact ⟨x, .head hnext hrun, hx⟩

/-- a store that nothing comes between is `Artifacts.store` -/
theorem alone_store (a : Artifacts) (f : Files) (call : StoreCall) :
    ∃ seen, Alone a (of call, f)
      (⟨⟨call, seen⟩, .ended (a.store f call.extensions call.inputs call.resources call.source).1⟩,
        (a.store f call.extensions call.inputs call.resources call.source).2) := by
  obtain ⟨x, hrun, hx⟩ := alone_looking a f call call.resources []
  cases hlook : Artifacts.look f call.resources [] with
  | error e =>
    rw [hlook] at hx
    obtain ⟨seen, rfl⟩ := hx
    rw [Artifacts.store_unread hlook]
    exact ⟨seen, hrun⟩
  | ok seen =>
    rw [hlook] at hx
    subst hx
    refine ⟨seen, hrun.trans ?_⟩
    have hartifact := next_artifact a ⟨call, seen⟩ f
    cases hstored : f.store (a.artifactPath (StoreRecord.key ⟨call, seen⟩)) call.source with
    | mk stored g =>
      cases stored with
      | error e =>
        rw [Artifacts.store_unwritten hlook hstored]
        simp only [hstored] at hartifact
        exact .single hartifact
      | ok u =>
        rw [Artifacts.store_written hlook hstored]
        simp only [hstored] at hartifact
        have hmanifest := next_manifest a ⟨call, seen⟩ g
        dsimp only
        rw [← hmanifest]
        exact .head hartifact (.single rfl)

end Writer

/-! ## the world -/

/-- files with the stores at work on them -/
structure World where
  files : Files
  writers : List Writer

namespace World

variable {a : Artifacts} {w next : World} {f : Files} {s : StoreRecord}

def records (w : World) : List StoreRecord := w.writers.filterMap Writer.record?

def call (w : World) (c : StoreCall) : World := { w with writers := w.writers ++ [.of c] }

/-- one of the stores takes its next step -/
def advance (a : Artifacts) (w : World) (i : Nat) : World :=
  match w.writers[i]? with
  | none => w
  | some x => ⟨(x.next a w.files).2, w.writers.set i (x.next a w.files).1⟩

/-- what can happen. Apart from the stores anything may be done to the files, as long as this brings no
manifest into being. -/
inductive Step (a : Artifacts) : World → World → Prop
  | called (w : World) (c : StoreCall) : Step a w (w.call c)
  | advanced (w : World) (i : Nat) : Step a w (w.advance a i)
  | changed (w : World) (g : Files) (hhere : g.here = w.files.here)
      (hmanifests : ∀ key content,
        g.entry? (Artifacts.manifestName key :: a.place w.files) = some (.file content) →
          w.files.entry? (Artifacts.manifestName key :: a.place w.files) = some (.file content)) :
      Step a w { w with files := g }

/-- what is so after every step -/
structure Sound (a : Artifacts) (w : World) : Prop where
  vouched : a.Vouched w.records w.files
  recorded : ∀ x ∈ w.writers, x.Recorded w.files.here

theorem records_call (w : World) (c : StoreCall) : (w.call c).records = w.records := by
  rw [records, records, call, List.filterMap_append]
  exact List.append_nil _

/-- stores that have come to their end stay as they are -/
theorem records_subset_advance (a : Artifacts) (w : World) (i : Nat) :
    w.records ⊆ (w.advance a i).records := by
  intro s hs
  rw [advance]
  split
  · exact hs
  next x hx =>
    obtain ⟨y, hy, hys⟩ := List.mem_filterMap.mp hs
    obtain ⟨j, hj⟩ := List.getElem?_of_mem hy
    refine List.mem_filterMap.mpr ⟨y, List.mem_iff_getElem?.mpr ⟨j, ?_⟩, hys⟩
    rw [List.getElem?_set]
    split
    next hij =>
      subst hij
      have hsame : x = y := Option.some.inj (hx.symm.trans hj)
      subst hsame
      rw [Writer.next_eq_of_record? hys, if_pos (List.getElem?_eq_some_iff.mp hx).1]
    next => exact hj

theorem Sound.step (h : Sound a w) (hstep : Step a w next) : Sound a next := by
  cases hstep with
  | called c =>
    refine ⟨?_, fun x hx => ?_⟩
    · rw [records_call]
      exact h.vouched
    · rcases List.mem_append.mp hx with hold | hnew
      · exact h.recorded x hold
      · cases List.mem_singleton.mp hnew
        exact Writer.recorded_of _ c
  | advanced i =>
    have hmore := h.vouched.mono (records_subset_advance a w i)
    rw [advance] at hmore ⊢
    split at hmore
    next hnone => exact h
    next x hx =>
      have hmem := List.mem_of_getElem? hx
      refine ⟨Writer.next_vouched hmore fun s hs => ?_, fun y hy => ?_⟩
      · refine List.mem_filterMap.mpr ⟨_, List.mem_iff_getElem?.mpr ⟨i, ?_⟩, hs⟩
        rw [List.getElem?_set, if_pos rfl, if_pos (List.getElem?_eq_some_iff.mp hx).1]
      · dsimp only
        rw [Writer.next_here]
        rcases List.mem_or_eq_of_mem_set hy with hold | rfl
        · exact h.recorded y hold
        · exact (h.recorded x hmem).next
  | changed g hhere hmanifests =>
    refine ⟨h.vouched.kept hhere hmanifests, fun x hx => ?_⟩
    dsimp only
    rw [hhere]
    exact h.recorded x hx

theorem Sound.steps (h : Sound a w) (hsteps : ReflTransGen (Step a) w next) : Sound a next := by
  induction hsteps with
  | refl => exact h
  | tail hsteps hstep ih => exact ih.step hstep

end World

namespace Artifacts

variable {a : Artifacts} {f : Files} {w : World} {extensions : List String} {inputs path : String}

theorem Empty.sound (h : a.Empty f) : World.Sound a ⟨f, []⟩ := ⟨h.vouched [], nofun⟩

/-- **What is found was stored.** Let any number of stores work on an empty directory, each step of each
at any time, and let other files change in any way. If a lookup succeeds, some store was called with the
very same extensions and inputs, its source is the text of the artifact, and the resources that it has
seen, which are all those of its call, still have the contents that it has seen. -/
theorem found_was_stored (hempty : a.Empty f)
    (hsteps : ReflTransGen (World.Step a) ⟨f, []⟩ w)
    (hmanifests : ∀ s ∈ w.records, Manifest.ofText? s.manifest.toText = some s.manifest)
    (hdigests : Digest.Distinct (contents w.records w.files))
    (hfound : a.lookup w.files extensions inputs = .ok path) :
    ∃ s ∈ w.records, s.call.extensions = extensions ∧ s.call.inputs = inputs ∧
      path = a.artifactPath s.key ∧ w.files.readText path = .ok s.call.source ∧
      (∀ r ∈ s.seen, w.files.read r.1 = .ok r.2) ∧
      ∀ resource ∈ s.call.resources, s.Saw w.files.here resource := by
  have hsound := hempty.sound.steps hsteps
  obtain ⟨s, hs, hextensions, hinputs, hpath, hsource, hseen⟩ :=
    hsound.vouched.lookup hmanifests hdigests hfound
  obtain ⟨x, hx, hrecord⟩ := List.mem_filterMap.mp hs
  exact ⟨s, hs, hextensions, hinputs, hpath, hsource, hseen, (hsound.recorded x hx).saw hrecord⟩

theorem steps_advance (a : Artifacts) (w : World) (turns : List Nat) :
    ReflTransGen (World.Step a) w (turns.foldl (World.advance a) w) := by
  induction turns generalizing w with
  | nil => exact .refl
  | cons i turns ih => exact .head (.advanced w i) (ih _)

def oneResource : Files := ⟨[(["app.yaml"], .file (Digest.bytes "parameters:\n"))], []⟩

/-- two stores under one key: the first is cut off when it has replaced the artifact, and the second,
which has looked at the resource in the meantime, goes on to its end -/
def cutOff : World :=
  let call (source : String) : StoreCall := ⟨["core"], "inputs", ["app.yaml"], source⟩
  [0, 1, 0, 1, 1].foldl (World.advance ⟨"/cache"⟩)
    (((⟨oneResource, []⟩ : World).call (call "old\n")).call (call "new\n"))

/-- what the second store has done -/
def cutOffRecord : StoreRecord :=
  ⟨⟨["core"], "inputs", ["app.yaml"], "new\n"⟩, [("/app.yaml", Digest.bytes "parameters:\n")]⟩

theorem empty_oneResource : (Artifacts.mk "/cache").Empty oneResource := empty_of_entries (by decide)

/-- the manifest that it has written -/
def cutOffManifest : Manifest where
  schema := Manifest.currentSchema
  generator := Source.generator
  key := "a72cb9bcf4dd0ced"
  extensions := ["core"]
  inputs := "inputs"
  resources := [("/app.yaml",
    "blake3:02822312891bc6a80066af259059670b42763e9070354dd89178bc443b9677ec")]
  artifactHash := "blake3:79d1d8da0b625035cdbfc9d51841030861b9f4cf7c5abbe442a8d13efc352170"

/-- the digests, evaluated in one proof: each evaluation waits for all that stands before it -/
theorem cutOff_digests : keyFor ["core"] "inputs" = cutOffManifest.key ∧
    Digest.ofBytes (Digest.bytes "parameters:\n") =
      "blake3:02822312891bc6a80066af259059670b42763e9070354dd89178bc443b9677ec" ∧
    Digest.ofText cutOffRecord.call.source = cutOffManifest.artifactHash ∧
    Digest.ofText cutOffManifest.toText =
      "blake3:b5798b094525d4ea359462f10631e4fcb620b505e026b975f70ac5cf4e08c87a" := by
  refine ⟨?_, ?_, ?_, ?_⟩
  · rw [keyFor, Digest.key, Digest.digits_eq_unrolled]
    decide +kernel
  · rw [Digest.ofBytes_eq_unrolled]
    decide +kernel
  · rw [Digest.ofText_eq_unrolled]
    decide +kernel
  · rw [Digest.ofText_eq_unrolled]
    decide +kernel

theorem manifest_cutOff : cutOffRecord.manifest = cutOffManifest := by
  obtain ⟨hkey, hresource, hsource, -⟩ := cutOff_digests
  have hkey : cutOffRecord.key = cutOffManifest.key := hkey
  have hresources : StoreRecord.digests cutOffRecord.seen = cutOffManifest.resources :=
    congrArg (fun digest => [("/app.yaml", digest)]) hresource
  rw [StoreRecord.manifest, hkey, hresources, hsource]
  rfl

theorem cutOffManifest_survives :
    Manifest.ofText? cutOffManifest.toText = some cutOffManifest := by
  unfold Manifest.ofText? Yaml.Document.read? Yaml.Document.ofText? Yaml.Token.ofText? Yaml.cells?
    Manifest.toText
  -- the evaluation would spend its time on taking the text apart again
  simp only [String.toList_ofList]
  decide +kernel

def oneArtifact (source : String) : Files :=
  ⟨[(["a72cb9bcf4dd0ced.rs", "cache"], .file (Digest.bytes source)), (["cache"], .directory),
    (["app.yaml"], .file (Digest.bytes "parameters:\n"))], []⟩

def oneManifest (source : String) (m : Manifest) : Files :=
  ⟨(["a72cb9bcf4dd0ced.manifest.yaml", "cache"], .file (Digest.bytes m.toText)) ::
    (oneArtifact source).entries, []⟩

/-- one of the two stores when it has seen the resource -/
def cutOffStore (source : String) : StoreRecord :=
  ⟨⟨["core"], "inputs", ["app.yaml"], source⟩, cutOffRecord.seen⟩

theorem next_cutOffStore (source : String) {f g : Files}
    (h : f.store "/cache/a72cb9bcf4dd0ced.rs" source = (.ok (), g)) :
    Writer.next ⟨"/cache"⟩ ⟨cutOffStore source, .looking []⟩ f =
      (⟨cutOffStore source, .signing⟩, g) := by
  have hkey : (cutOffStore source).key = cutOffManifest.key := cutOff_digests.1
  have hstore : f.store ((Artifacts.mk "/cache").artifactPath cutOffManifest.key)
      (cutOffStore source).call.source = (.ok (), g) := h
  rw [Writer.next_artifact, hkey, hstore]
  rfl

theorem next_cutOffRecord :
    Writer.next ⟨"/cache"⟩ ⟨cutOffRecord, .signing⟩ (oneArtifact "new\n") =
      (⟨cutOffRecord, .ended (.ok "/cache/a72cb9bcf4dd0ced.rs")⟩,
        oneManifest "new\n" cutOffManifest) := by
  have hkey : cutOffRecord.key = cutOffManifest.key := cutOff_digests.1
  have hsave : ∀ m : Manifest, m.save (oneArtifact "new\n") "/cache/a72cb9bcf4dd0ced.manifest.yaml" =
      (.ok (), oneManifest "new\n" m) := fun _ => rfl
  have hpath : (Artifacts.mk "/cache").manifestPath cutOffManifest.key =
      "/cache/a72cb9bcf4dd0ced.manifest.yaml" := rfl
  rw [Writer.next_manifest, hkey, manifest_cutOff, hpath, hsave]
  rfl

/-- what the two stores come to -/
theorem cutOff_eq : cutOff = ⟨oneManifest "new\n" cutOffManifest,
    [⟨cutOffStore "old\n", .signing⟩, ⟨cutOffRecord, .ended (.ok "/cache/a72cb9bcf4dd0ced.rs")⟩]⟩ := by
  have hlook : ∀ source, Writer.next ⟨"/cache"⟩ (.of ⟨["core"], "inputs", ["app.yaml"], source⟩)
      oneResource = (⟨cutOffStore source, .looking []⟩, oneResource) := fun _ => rfl
  have hold := next_cutOffStore "old\n" (f := oneResource) (g := oneArtifact "old\n") rfl
  have hnew := next_cutOffStore "new\n" (f := oneArtifact "old\n") (g := oneArtifact "new\n") rfl
  simp only [cutOff, List.foldl_cons, List.foldl_nil, World.call, World.advance, List.nil_append,
    List.singleton_append, List.getElem?_cons_zero, List.getElem?_cons_succ, List.set_cons_zero,
    List.set_cons_succ, hlook, hold, hnew]
  rw [show cutOffStore "new\n" = cutOffRecord from rfl, next_cutOffRecord]

/-- a check against the manifest with any key in it -/
theorem check_cutOffManifest_key {f : Files} {key : String}
    (hresource : f.read "/app.yaml" = .ok (Digest.bytes "parameters:\n"))
    (hartifact : f.read ((Artifacts.mk "/cache").artifactPath key) = .ok (Digest.bytes "new\n")) :
    (Artifacts.mk "/cache").check f { cutOffManifest with key := key } ["core"] "inputs" = .ok () := by
  obtain ⟨-, hresourceDigest, hsourceDigest, -⟩ := cutOff_digests
  refine check_eq_ok_iff.mpr ⟨rfl, rfl, rfl, List.forall_mem_singleton.mpr ?_, ?_⟩
  · exact (Files.digest_of_read hresource).trans (congrArg _ hresourceDigest)
  · exact (Files.digest_of_read hartifact).trans (congrArg _ hsourceDigest)

theorem check_cutOffManifest : (Artifacts.mk "/cache").check (oneManifest "new\n" cutOffManifest)
    cutOffManifest ["core"] "inputs" = .ok () :=
  check_cutOffManifest_key rfl rfl

/-- the contents that come up here have different digests -/
theorem distinct_of_cutOff {contents : List (List UInt8)} (hmem : ∀ c ∈ contents,
    c ∈ [Digest.bytes cutOffManifest.toText, Digest.bytes "new\n", Digest.bytes "parameters:\n"]) :
    Digest.Distinct contents := by
  have hdigests : [Digest.bytes cutOffManifest.toText, Digest.bytes "new\n",
      Digest.bytes "parameters:\n"].map Digest.ofBytes =
      ["blake3:b5798b094525d4ea359462f10631e4fcb620b505e026b975f70ac5cf4e08c87a",
        cutOffManifest.artifactHash,
        "blake3:02822312891bc6a80066af259059670b42763e9070354dd89178bc443b9677ec"] := by
    obtain ⟨-, hresource, hsource, hmanifest⟩ := cutOff_digests
    rw [← hmanifest, ← hsource, ← hresource]
    rfl
  exact .of_known hdigests (by decide) hmem

theorem distinct_cutOff : Digest.Distinct (contents cutOff.records cutOff.files) := by
  have hmem : ∀ m s r : List UInt8, ∀ c ∈ [m, s, r] ++ [s, r], c ∈ [m, s, r] := by
    intro m s r c hc
    simp only [List.mem_append, List.mem_cons, List.not_mem_nil, or_false] at hc ⊢
    tauto
  have hcontents : contents cutOff.records cutOff.files =
      [Digest.bytes cutOffManifest.toText, Digest.bytes "new\n", Digest.bytes "parameters:\n"] ++
        [Digest.bytes "new\n", Digest.bytes "parameters:\n"] := by
    rw [cutOff_eq]
    rfl
  rw [hcontents]
  exact distinct_of_cutOff (hmem _ _ _)

theorem cutOff_found_was_stored :
    ∃ path, (Artifacts.mk "/cache").lookup cutOff.files ["core"] "inputs" = .ok path ∧
      ∃ s ∈ cutOff.records, s.call.extensions = ["core"] ∧ s.call.inputs = "inputs" ∧
        path = (Artifacts.mk "/cache").artifactPath s.key ∧
        cutOff.files.readText path = .ok s.call.source ∧
        (∀ r ∈ s.seen, cutOff.files.read r.1 = .ok r.2) ∧
        ∀ resource ∈ s.call.resources, s.Saw cutOff.files.here resource := by
  have hrecords : cutOff.records = [cutOffRecord] := by
    rw [cutOff_eq]
    rfl
  have hread : ∀ m : Manifest, (oneManifest "new\n" m).read
      "/cache/a72cb9bcf4dd0ced.manifest.yaml" = .ok (Digest.bytes m.toText) := fun _ => rfl
  have hmanifest : cutOff.files.read ((Artifacts.mk "/cache").manifestPath
      (keyFor ["core"] "inputs")) = .ok (Digest.bytes cutOffManifest.toText) := by
    have hpath : (Artifacts.mk "/cache").manifestPath cutOffManifest.key =
        "/cache/a72cb9bcf4dd0ced.manifest.yaml" := rfl
    rw [cutOff_eq, cutOff_digests.1, hpath]
    exact hread cutOffManifest
  have hload := loadManifest_eq_ok_iff.mpr
    ⟨_, Files.readText_of_read hmanifest, cutOffManifest_survives⟩
  have hcheck : (Artifacts.mk "/cache").check cutOff.files cutOffManifest ["core"] "inputs" =
      .ok () := by
    rw [cutOff_eq]
    exact check_cutOffManifest
  have hfound := lookup_eq_ok_iff.mpr ⟨rfl, _, hload, hcheck⟩
  refine ⟨_, hfound, found_was_stored empty_oneResource ?_ ?_ distinct_cutOff hfound⟩
  · exact .head (.called _ _) (.head (.called _ _) (steps_advance _ _ _))
  · rw [hrecords, List.forall_mem_singleton, manifest_cutOff]
    exact cutOffManifest_survives

end Artifacts
end ServiceGraph
