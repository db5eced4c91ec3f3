import Mathlib.Data.List.Nodup
import ServiceGraph.Cache.Artifacts
import ServiceGraph.Proofs.Files.Places

/-!
# What a lookup vouches for

A lookup believes a manifest, and nothing else, so what counts is where manifests come from. Artifacts
may be anything: what is found has the digest that the manifest tells.

* `StoreCall`, `StoreRecord`: a store, and with it the contents of the resources that it has seen;
  `Artifacts.look` looks at them;
* `StoreRecord.manifest`: the manifest that it writes;
* `Artifacts.Vouched`: every manifest under the directory was written by one of these stores;
* `Artifacts.Empty`: at the beginning there is none;
* `Vouched.kept`, `Vouched.storeArtifact`, `Vouched.storeManifest`, `Vouched.store`: what keeps it so;
* `Vouched.lookup`: what is found was stored with the same extensions and inputs, from resources that are
  still the same.
-/

namespace ServiceGraph

/-! ## texts -/

theorem Files.textOf_bytes (s : String) : Files.textOf (Digest.bytes s) = .ok s := by
  have hbytes : String.fromUTF8? ⟨(Digest.bytes s).toArray⟩ = some s := by
    rw [Digest.bytes, Array.toArray_toList]
    exact dif_pos s.isValidUTF8
  rw [textOf, hbytes]

theorem Digest.hexDigit_ne_slash : ∀ n < 16, hexDigit n ≠ '/' := by decide

theorem Digest.slash_not_mem_key (parts : List String) : '/' ∉ (key parts).toList := by
  rw [key, String.toList_ofList]
  intro hmem
  obtain ⟨b, -, hb⟩ := List.mem_flatMap.mp (List.mem_of_mem_take hmem)
  simp only [List.mem_cons, List.not_mem_nil, or_false] at hb
  have hbyte := b.toNat_lt
  rcases hb with hb | hb
  · exact hexDigit_ne_slash _ (by omega) hb.symm
  · exact hexDigit_ne_slash _ (by omega) hb.symm

def Digest.Distinct (contents : List (List UInt8)) : Prop :=
  ∀ c ∈ contents, ∀ d ∈ contents, ofBytes c = ofBytes d → c = d

instance Digest.decidableDistinct (contents : List (List UInt8)) : Decidable (Distinct contents) :=
  inferInstanceAs (Decidable (∀ c ∈ contents, ∀ d ∈ contents, ofBytes c = ofBytes d → c = d))

/-- contents of which the digests are known, and are different -/
theorem Digest.Distinct.of_known {contents known : List (List UInt8)} {digests : List String}
    (hdigests : known.map ofBytes = digests) (hnodup : digests.Nodup) (hmem : ∀ c ∈ contents, c ∈ known) :
    Distinct contents := by
  subst hdigests
  exact fun c hc d hd hsame => List.inj_on_of_nodup_map hnodup (hmem c hc) (hmem d hd) hsame

/-! ## reading -/

namespace Files

variable {f g : Files} {path text : String} {content : List UInt8} {digest : String}

def contents (f : Files) : List (List UInt8) :=
  f.entries.filterMap fun x =>
    match x.2 with
    | .file content => some content
    | .directory => none

theorem mem_contents {p : Place} (h : f.entry? p = some (.file content)) : content ∈ f.contents := by
  have hne : p ≠ [] := by
    rintro rfl
    cases h
  exact List.mem_filterMap.mpr ⟨(p, .file content), mem_entries hne h, rfl⟩

theorem readText_eq_ok (h : f.readText path = .ok text) :
    ∃ content, f.read path = .ok content ∧ textOf content = .ok text := by
  rw [readText] at h
  cases hread : f.read path with
  | error e =>
    rw [hread] at h
    cases h
  | ok content =>
    rw [hread] at h
    exact ⟨content, rfl, h⟩

theorem exists?_of_readText (h : f.readText path = .ok text) : f.exists? path = true := by
  rw [readText, read] at h
  rw [exists?]
  cases hplace : f.locate path with
  | ok place => rfl
  | error e =>
    rw [hplace] at h
    cases h

theorem readText_of_read (h : f.read path = .ok (Digest.bytes text)) : f.readText path = .ok text := by
  rw [readText, h]
  exact textOf_bytes text

theorem digest_eq_ok (h : f.digest path = .ok digest) :
    ∃ content, f.read path = .ok content ∧ digest = Digest.ofBytes content := by
  rw [Files.digest] at h
  cases hread : f.read path with
  | error e =>
    rw [hread] at h
    cases h
  | ok content =>
    rw [hread] at h
    exact ⟨content, rfl, (Except.ok.inj h).symm⟩

theorem digest_of_read (h : f.read path = .ok content) : f.digest path = .ok (Digest.ofBytes content) := by
  rw [Files.digest, h]

/-- a name below a path leads to the place below -/
theorem placeOf_join {name : String} (hname : Path.ProperName name) (hdots : ¬ Path.isDots name)
    (f : Files) (base : String) :
    f.placeOf (Path.ofText (Path.join base name)) = name :: f.placeOf (Path.ofText base) := by
  have hstep : ∀ p : Place, p.step name = name :: p := by
    intro p
    simp only [Path.isDots, Bool.or_eq_true, decide_eq_true_eq, not_or] at hdots
    rw [Place.step, if_neg hdots.1, if_neg hdots.2]
  rw [Path.ofText_join hname, placeOf, Place.follow_append]
  exact hstep _

end Files

/-! ## stores -/

structure StoreCall where
  extensions : List String
  inputs : String
  resources : List String
  source : String
deriving DecidableEq

/-- a store with the contents of its resources as it has seen them -/
structure StoreRecord where
  call : StoreCall
  seen : OrderedMap (List UInt8)
deriving DecidableEq

namespace StoreRecord

def key (s : StoreRecord) : String := Artifacts.keyFor s.call.extensions s.call.inputs

def digests (seen : OrderedMap (List UInt8)) : OrderedMap String :=
  seen.map fun r => (r.1, Digest.ofBytes r.2)

def manifest (s : StoreRecord) : Manifest :=
  { schema := Manifest.currentSchema, generator := Source.generator, key := s.key
    extensions := s.call.extensions, inputs := s.call.inputs, resources := digests s.seen
    artifactHash := Digest.ofText s.call.source }

theorem digests_insert (seen : OrderedMap (List UInt8)) (path : String) (content : List UInt8) :
    digests (seen.insert path content) = (digests seen).insert path (Digest.ofBytes content) := by
  induction seen with
  | nil => rfl
  | cons r rest ih =>
    obtain ⟨k, old⟩ := r
    show digests (if k = path then _ else _) = if k = path then _ else _
    by_cases hk : k = path
    · rw [if_pos hk, if_pos hk]
      rfl
    · rw [if_neg hk, if_neg hk]
      exact congrArg _ ih

theorem forall_mem_digests {seen : OrderedMap (List UInt8)} {P : String × String → Prop} :
    (∀ d ∈ digests seen, P d) ↔ ∀ r ∈ seen, P (r.1, Digest.ofBytes r.2) := List.forall_mem_map

/-- the store of the call has seen a resource, under its path from the root on -/
def Saw (s : StoreRecord) (here : Place) (resource : String) : Prop :=
  ∃ absolute ∈ s.seen.keys, Path.absolute? here.path resource = some absolute

end StoreRecord

namespace Artifacts

variable {a : Artifacts} {f g : Files} {records more : List StoreRecord} {s : StoreRecord}
  {key path inputs : String} {extensions : List String} {m : Manifest}

/-! ## looking at resources -/

/-- the contents of files, by their paths from the root on -/
def look (f : Files) : List String → OrderedMap (List UInt8) →
    Except CacheError (OrderedMap (List UInt8))
  | [], seen => .ok seen
  | path :: rest, seen =>
    match Path.absolute? f.here.path path with
    | none => .error (.unreadable path .emptyPath)
    | some absolute =>
      match f.read absolute with
      | .error fault => .error (.unreadable absolute fault)
      | .ok content => look f rest (seen.insert absolute content)

/-- the digests are those of what is seen -/
theorem digests_eq_look (f : Files) (rest : List String) (seen : OrderedMap (List UInt8)) :
    digests f rest (StoreRecord.digests seen) = (look f rest seen).map StoreRecord.digests := by
  induction rest generalizing seen with
  | nil => rfl
  | cons path rest ih =>
    rw [digests, look]
    cases Path.absolute? f.here.path path with
    | none => rfl
    | some absolute =>
      cases hread : f.read absolute with
      | error fault =>
        simp only [Files.digest, hread]
        rfl
      | ok content =>
        simp only [Files.digest, hread]
        rw [← ih, StoreRecord.digests_insert]
        rfl

theorem look_cons {path : String} {rest : List String} {seen seen' : OrderedMap (List UInt8)}
    (h : look f (path :: rest) seen = .ok seen') :
    ∃ absolute content, Path.absolute? f.here.path path = some absolute ∧ f.read absolute = .ok content ∧
      look f rest (seen.insert absolute content) = .ok seen' := by
  rw [look] at h
  split at h
  · cases h
  next absolute habsolute =>
    split at h
    · cases h
    next content hread => exact ⟨absolute, content, habsolute, hread, h⟩

/-- what is seen is what can be read -/
theorem read_of_look {rest : List String} {seen seen' : OrderedMap (List UInt8)}
    (h : look f rest seen = .ok seen') : ∀ r ∈ seen', r ∈ seen ∨ f.read r.1 = .ok r.2 := by
  induction rest generalizing seen with
  | nil =>
    cases h
    exact fun r hr => .inl hr
  | cons path rest ih =>
    obtain ⟨absolute, content, -, hread, hlook⟩ := look_cons h
    intro r hr
    rcases ih hlook r hr with hold | hnow
    · rcases OrderedMap.mem_insert hold with rfl | hbefore
      · exact .inr hread
      · exact .inl hbefore
    · exact .inr hnow

/-- everything is seen -/
theorem saw_of_look {call : StoreCall} {rest : List String} {seen seen' : OrderedMap (List UInt8)}
    (h : look f rest seen = .ok seen') {resource : String}
    (hresource : resource ∈ rest ∨ StoreRecord.Saw ⟨call, seen⟩ f.here resource) :
    StoreRecord.Saw ⟨call, seen'⟩ f.here resource := by
  induction rest generalizing seen with
  | nil =>
    cases h
    exact hresource.resolve_left List.not_mem_nil
  | cons path rest ih =>
    obtain ⟨absolute, content, habsolute, -, hlook⟩ := look_cons h
    refine ih hlook ?_
    rcases hresource with hmem | ⟨known, hknown, hsame⟩
    · rcases List.mem_cons.mp hmem with rfl | hrest
      · exact .inr ⟨absolute, OrderedMap.mem_keys_insert.mpr (.inl rfl), habsolute⟩
      · exact .inl hrest
    · exact .inr ⟨known, OrderedMap.mem_keys_insert.mpr (.inr hknown), hsame⟩

/-! ## the steps of a store -/

section

variable {call : StoreCall} {seen : OrderedMap (List UInt8)} {e : CacheError}

theorem store_unread (h : look f call.resources [] = .error e) :
    a.store f call.extensions call.inputs call.resources call.source = (.error e, f) := by
  have hdigests := digests_eq_look f call.resources []
  rw [h] at hdigests
  rw [store, show digests f call.resources [] = .error e from hdigests]

theorem store_unwritten (h : look f call.resources [] = .ok seen)
    (hstored : f.store (a.artifactPath (StoreRecord.key ⟨call, seen⟩)) call.source = (.error e, g)) :
    a.store f call.extensions call.inputs call.resources call.source = (.error e, g) := by
  have hdigests := digests_eq_look f call.resources []
  rw [h] at hdigests
  have hdigests : digests f call.resources [] = .ok (StoreRecord.digests seen) := hdigests
  rw [StoreRecord.key] at hstored
  unfold store
  simp only [hdigests, hstored]

theorem store_written (h : look f call.resources [] = .ok seen)
    (hstored : f.store (a.artifactPath (StoreRecord.key ⟨call, seen⟩)) call.source = (.ok (), g)) :
    a.store f call.extensions call.inputs call.resources call.source =
      let saved := (StoreRecord.manifest ⟨call, seen⟩).save g
        (a.manifestPath (StoreRecord.key ⟨call, seen⟩))
      (saved.1.map fun _ => a.artifactPath (StoreRecord.key ⟨call, seen⟩), saved.2) := by
  have hdigests := digests_eq_look f call.resources []
  rw [h] at hdigests
  have hdigests : digests f call.resources [] = .ok (StoreRecord.digests seen) := hdigests
  rw [StoreRecord.manifest, StoreRecord.key] at *
  unfold store
  simp only [hdigests, hstored]

end

/-! ## the places of artifacts and manifests -/

def place (a : Artifacts) (f : Files) : Place := f.placeOf (Path.ofText a.directory)

theorem place_eq_of_here (h : g.here = f.here) : a.place g = a.place f := Files.placeOf_eq_of_here h _

def manifestName (key : String) : String := key ++ ".manifest.yaml"

def artifactName (key : String) : String := key ++ ".rs"

theorem getLast?_manifestName (key : String) : (manifestName key).toList.getLast? = some 'l' := by
  rw [manifestName, String.toList_append, List.getLast?_append_of_ne_nil _ (by decide)]
  rfl

theorem getLast?_artifactName (key : String) : (artifactName key).toList.getLast? = some 's' := by
  rw [artifactName, String.toList_append, List.getLast?_append_of_ne_nil _ (by decide)]
  rfl

theorem artifactName_ne_manifestName (key key' : String) : artifactName key ≠ manifestName key' := by
  intro h
  have hlast := getLast?_artifactName key
  rw [h, getLast?_manifestName] at hlast
  exact absurd hlast (by decide)

theorem manifestName_inj {key' : String} (h : manifestName key = manifestName key') : key = key' := by
  have hlist := congrArg String.toList h
  rw [manifestName, manifestName, String.toList_append, String.toList_append] at hlist
  exact String.toList_inj.mp (List.append_cancel_right hlist)

theorem not_isDots {name : String} {c : Char} (h : name.toList.getLast? = some c) (hc : c ≠ '.') :
    ¬ Path.isDots name := by
  simp only [Path.isDots, Bool.or_eq_true, decide_eq_true_eq, not_or]
  constructor <;> rintro rfl <;> exact hc (Option.some.inj h).symm

/-- a key with a suffix is a name -/
theorem properName_keyFor {suffix : String} (hsuffix : '/' ∉ suffix.toList) (hne : suffix ≠ "")
    (extensions : List String) (inputs : String) :
    Path.ProperName (keyFor extensions inputs ++ suffix) where
  ne_empty h := by
    have hnil := congrArg String.toList h
    rw [String.toList_append] at hnil
    exact hne (String.toList_inj.mp (List.append_eq_nil_iff.mp hnil).2)
  no_slash := by
    rw [String.toList_append, List.mem_append, not_or]
    exact ⟨Digest.slash_not_mem_key _, hsuffix⟩

theorem placeOf_manifestPath (a : Artifacts) (f : Files) (extensions : List String) (inputs : String) :
    f.placeOf (Path.ofText (a.manifestPath (keyFor extensions inputs))) =
      manifestName (keyFor extensions inputs) :: a.place f :=
  Files.placeOf_join (properName_keyFor (by decide) (by decide) extensions inputs)
    (not_isDots (getLast?_manifestName _) (by decide)) f a.directory

theorem placeOf_artifactPath (a : Artifacts) (f : Files) (extensions : List String) (inputs : String) :
    f.placeOf (Path.ofText (a.artifactPath (keyFor extensions inputs))) =
      artifactName (keyFor extensions inputs) :: a.place f :=
  Files.placeOf_join (properName_keyFor (by decide) (by decide) extensions inputs)
    (not_isDots (getLast?_artifactName _) (by decide)) f a.directory

/-! ## where manifests come from -/

/-- every manifest under the directory was written by one of the stores -/
def Vouched (a : Artifacts) (records : List StoreRecord) (f : Files) : Prop :=
  ∀ key content, f.entry? (manifestName key :: a.place f) = some (.file content) →
    ∃ s ∈ records, s.key = key ∧ content = Digest.bytes s.manifest.toText

theorem Vouched.mono (h : a.Vouched records f) (hsub : records ⊆ more) : a.Vouched more f := by
  intro key content hfile
  obtain ⟨s, hs, hkey⟩ := h key content hfile
  exact ⟨s, hsub hs, hkey⟩

/-- there is nothing under the directory -/
def Empty (a : Artifacts) (f : Files) : Prop :=
  ∀ names, names ≠ [] → f.entry? (names ++ a.place f) = none

theorem Empty.vouched (h : a.Empty f) (records : List StoreRecord) : a.Vouched records f := by
  intro key content hfile
  have hnone := h [manifestName key] (List.cons_ne_nil _ _)
  cases hnone.symm.trans hfile

theorem empty_of_entries (h : ∀ x ∈ f.entries, ¬ a.place f <:+ x.1) : a.Empty f := by
  intro names hnames
  cases hentry : f.entry? (names ++ a.place f) with
  | none => rfl
  | some e =>
    have hmem := Files.mem_entries (List.append_ne_nil_of_left_ne_nil hnames _) hentry
    exact absurd (List.suffix_append _ _) (h _ hmem)

/-- other changes, as long as they bring no manifest into being -/
theorem Vouched.kept (h : a.Vouched records f) (hhere : g.here = f.here)
    (hkept : ∀ key content, g.entry? (manifestName key :: a.place f) = some (.file content) →
      f.entry? (manifestName key :: a.place f) = some (.file content)) : a.Vouched records g := by
  intro key content hfile
  rw [place_eq_of_here hhere] at hfile
  exact h key content (hkept key content hfile)

/-- a file is brought into being -/
theorem store_cases (f : Files) (path text : String) : ∃ g, Files.Grown f g ∧
    ((∃ e, f.store path text = (.error e, g)) ∨
      f.store path text = (.ok (), g.put (f.placeOf (Path.ofText path)) (.file (Digest.bytes text))) ∧
        f.placeOf (Path.ofText path) ≠ []) := by
  obtain ⟨g, hgrown, hcases⟩ := Files.replace_cases f path (Digest.bytes text)
  refine ⟨g, hgrown, ?_⟩
  rcases hcases with ⟨e, hfailed⟩ | ⟨p, hgoal, -, -, hput⟩
  · exact .inl ⟨_, by rw [Files.store, hfailed]; rfl⟩
  · rw [← Files.placeOf_eq_of_here hgrown.here, Files.goal_eq_placeOf hgoal]
    exact .inr ⟨by rw [Files.store, hput]; rfl, Files.goal_ne_nil hgoal⟩

theorem here_store (f : Files) (path text : String) : (f.store path text).2.here = f.here := by
  obtain ⟨g, hgrown, ⟨e, hfailed⟩ | ⟨hok, -⟩⟩ := store_cases f path text
  · rw [hfailed]
    exact hgrown.here
  · rw [hok]
    exact hgrown.here

theorem Vouched.grown (h : a.Vouched records f) (hgrown : Files.Grown f g) : a.Vouched records g :=
  h.kept hgrown.here fun _ _ => hgrown.file_iff.mp

theorem Vouched.storeArtifact (h : a.Vouched records f) (extensions : List String) (inputs text : String) :
    a.Vouched records (f.store (a.artifactPath (keyFor extensions inputs)) text).2 := by
  obtain ⟨g, hgrown, ⟨e, hfailed⟩ | ⟨hok, hplace⟩⟩ :=
    store_cases f (a.artifactPath (keyFor extensions inputs)) text
  · rw [hfailed]
    exact h.grown hgrown
  · rw [hok]
    rw [placeOf_artifactPath] at hplace ⊢
    refine (h.grown hgrown).kept rfl fun key content hfile => ?_
    rw [Files.entry?_put hplace, if_neg] at hfile
    · exact hfile
    · intro hsame
      exact artifactName_ne_manifestName _ _ (List.cons.inj hsame).1.symm

/-- a store writes its manifest -/
theorem Vouched.storeManifest (h : a.Vouched records f)
    (hs : (s.manifest.save f (a.manifestPath s.key)).1 = .ok () → s ∈ records) :
    a.Vouched records (s.manifest.save f (a.manifestPath s.key)).2 := by
  rw [Manifest.save] at hs ⊢
  obtain ⟨g, hgrown, ⟨e, hfailed⟩ | ⟨hok, hplace⟩⟩ :=
    store_cases f (a.manifestPath s.key) s.manifest.toText
  · rw [hfailed]
    exact h.grown hgrown
  · rw [hok] at hs ⊢
    rw [StoreRecord.key, placeOf_manifestPath] at hplace ⊢
    intro key content hfile
    have hhere : a.place (g.put (manifestName (keyFor s.call.extensions s.call.inputs) :: a.place f)
        (.file (Digest.bytes s.manifest.toText))) = a.place f := place_eq_of_here hgrown.here
    rw [hhere, Files.entry?_put hplace] at hfile
    split at hfile
    next hsame =>
      refine ⟨s, hs rfl, (manifestName_inj (List.cons.inj hsame).1).symm, ?_⟩
      exact (Entry.file.inj (Option.some.inj hfile)).symm
    next => exact h key content (hgrown.file_iff.mp hfile)

/-- a whole store -/
theorem Vouched.store (h : a.Vouched records f) (call : StoreCall)
    (hs : ∀ seen, look f call.resources [] = .ok seen → ⟨call, seen⟩ ∈ records) :
    a.Vouched records (a.store f call.extensions call.inputs call.resources call.source).2 := by
  cases hlook : look f call.resources [] with
  | error e =>
    rw [store_unread hlook]
    exact h
  | ok seen =>
    have hartifact := h.storeArtifact call.extensions call.inputs call.source
    change a.Vouched records (f.store (a.artifactPath (StoreRecord.key ⟨call, seen⟩)) call.source).2
      at hartifact
    cases hstored : f.store (a.artifactPath (StoreRecord.key ⟨call, seen⟩)) call.source with
    | mk stored g =>
      rw [hstored] at hartifact
      cases stored with
      | error e =>
        rw [store_unwritten hlook hstored]
        exact hartifact
      | ok u =>
        rw [store_written hlook hstored]
        dsimp only
        exact hartifact.storeManifest fun _ => hs seen hlook

/-! ## looking up -/

/-- the contents of the files, of the artifacts that were stored and of the resources as they were seen -/
def contents (records : List StoreRecord) (f : Files) : List (List UInt8) :=
  f.contents ++ records.flatMap fun s => Digest.bytes s.call.source :: s.seen.values

theorem mem_contents_of_file {c : List UInt8} (h : c ∈ f.contents) : c ∈ contents records f :=
  List.mem_append_left _ h

theorem source_mem_contents (hs : s ∈ records) : Digest.bytes s.call.source ∈ contents records f :=
  List.mem_append_right _ (List.mem_flatMap.mpr ⟨s, hs, List.mem_cons_self⟩)

theorem seen_mem_contents {r : String × List UInt8} (hs : s ∈ records) (hr : r ∈ s.seen) :
    r.2 ∈ contents records f := by
  refine List.mem_append_right _ (List.mem_flatMap.mpr ⟨s, hs, List.mem_cons_of_mem _ ?_⟩)
  exact List.mem_map.mpr ⟨r, hr, rfl⟩

/-- where digests tell contents apart, a file has the digest of a content if it has this content -/
theorem digest_eq_iff {expected : List UInt8} (hdigests : Digest.Distinct (contents records f))
    (hmem : expected ∈ contents records f) :
    f.digest path = .ok (Digest.ofBytes expected) ↔ f.read path = .ok expected := by
  refine ⟨fun hdigest => ?_, Files.digest_of_read⟩
  obtain ⟨found, hfound, hequal⟩ := Files.digest_eq_ok hdigest
  have hnow : found ∈ contents records f :=
    mem_contents_of_file (Files.mem_contents (Files.read_eq_ok hfound))
  rw [hdigests expected hmem found hnow hequal]
  exact hfound

theorem checkResources_eq_ok_iff {resources : OrderedMap String} :
    checkResources f resources = .ok () ↔ ∀ r ∈ resources, f.digest r.1 = .ok r.2 := by
  induction resources with
  | nil => exact ⟨fun _ => nofun, fun _ => rfl⟩
  | cons r rest ih =>
    obtain ⟨path, expected⟩ := r
    rw [checkResources, List.forall_mem_cons, ← ih]
    cases hdigest : f.digest path with
    | error e => exact ⟨nofun, fun h => nomatch h.1⟩
    | ok found =>
      dsimp only
      rw [Except.ok.injEq]
      split
      next hsame => exact ⟨fun h => ⟨hsame, h⟩, And.right⟩
      next hother => exact ⟨nofun, fun h => absurd h.1 hother⟩

/-- what a check that succeeds has seen -/
theorem check_eq_ok_iff : a.check f m extensions inputs = .ok () ↔
    m.generator = Source.generator ∧ m.extensions = extensions ∧ m.inputs = inputs ∧
      (∀ r ∈ m.resources, f.digest r.1 = .ok r.2) ∧
      f.digest (a.artifactPath m.key) = .ok m.artifactHash := by
  rw [← checkResources_eq_ok_iff, check]
  simp only [bind, Except.bind, pure, Except.pure, throw, throwThe, MonadExceptOf.throw]
  split
  next hgenerator => exact ⟨nofun, fun h => absurd h.1 hgenerator⟩
  next hgenerator =>
    split
    next hextensions => exact ⟨nofun, fun h => absurd h.2.1 hextensions⟩
    next hextensions =>
      split
      next hinputs => exact ⟨nofun, fun h => absurd h.2.2.1 hinputs⟩
      next hinputs =>
        rw [not_not] at hgenerator hextensions hinputs
        simp only [hgenerator, hextensions, hinputs, true_and]
        cases checkResources f m.resources with
        | error e => exact ⟨nofun, fun h => nomatch h.1⟩
        | ok u =>
          cases f.digest (a.artifactPath m.key) with
          | error e => exact ⟨nofun, fun h => nomatch h.2⟩
          | ok found =>
            dsimp only
            rw [Except.ok.injEq found]
            split
            next hsame => exact ⟨fun _ => ⟨rfl, hsame⟩, fun _ => rfl⟩
            next hother => exact ⟨nofun, fun h => absurd h.2 hother⟩

theorem lookup_eq_ok_iff : a.lookup f extensions inputs = .ok path ↔
    path = a.artifactPath (keyFor extensions inputs) ∧ ∃ m,
      a.loadManifest f (keyFor extensions inputs) = .ok (some m) ∧
      a.check f m extensions inputs = .ok () := by
  unfold lookup
  generalize keyFor extensions inputs = key
  dsimp only
  constructor
  · intro h
    split at h
    next m hload =>
      cases hcheck : a.check f m extensions inputs with
      | error e =>
        rw [hcheck] at h
        cases h
      | ok u =>
        rw [hcheck] at h
        exact ⟨(Except.ok.inj h).symm, m, hload, hcheck⟩
    next => cases h
    next => cases h
  · rintro ⟨rfl, m, hload, hcheck⟩
    simp only [hload, hcheck]
    rfl

theorem loadManifest_eq_ok_iff : a.loadManifest f key = .ok (some m) ↔
    ∃ text, f.readText (a.manifestPath key) = .ok text ∧ Manifest.ofText? text = some m := by
  rw [loadManifest, Manifest.load]
  constructor
  · intro h
    split at h
    · split at h
      · cases h
      next text htext =>
        split at h
        next found hfound =>
          cases h
          exact ⟨text, htext, hfound⟩
        next => cases h
    · cases h
  · rintro ⟨text, htext, hparsed⟩
    rw [if_pos (Files.exists?_of_readText htext), htext]
    dsimp only
    rw [hparsed]

/-- the manifest that is read is the one that a store wrote -/
theorem Vouched.of_loadManifest (h : a.Vouched records f)
    (hmanifests : ∀ s ∈ records, Manifest.ofText? s.manifest.toText = some s.manifest)
    (hload : a.loadManifest f (keyFor extensions inputs) = .ok (some m)) :
    ∃ s ∈ records, s.key = keyFor extensions inputs ∧ m = s.manifest := by
  obtain ⟨text, htext, hparsed⟩ := loadManifest_eq_ok_iff.mp hload
  obtain ⟨content, hread, hcontent⟩ := Files.readText_eq_ok htext
  have hfile := Files.read_eq_ok hread
  rw [placeOf_manifestPath] at hfile
  obtain ⟨s, hs, hkey, rfl⟩ := h _ _ hfile
  rw [Files.textOf_bytes] at hcontent
  cases hcontent
  exact ⟨s, hs, hkey, Option.some.inj (hparsed.symm.trans (hmanifests s hs))⟩

/-- what is found was stored with these extensions and inputs, and the resources are as they were -/
theorem Vouched.lookup (h : a.Vouched records f)
    (hmanifests : ∀ s ∈ records, Manifest.ofText? s.manifest.toText = some s.manifest)
    (hdigests : Digest.Distinct (contents records f))
    (hfound : a.lookup f extensions inputs = .ok path) :
    ∃ s ∈ records, s.call.extensions = extensions ∧ s.call.inputs = inputs ∧
      path = a.artifactPath s.key ∧ f.readText path = .ok s.call.source ∧
      ∀ r ∈ s.seen, f.read r.1 = .ok r.2 := by
  obtain ⟨rfl, m, hload, hcheck⟩ := lookup_eq_ok_iff.mp hfound
  obtain ⟨s, hs, hkey, rfl⟩ := h.of_loadManifest hmanifests hload
  obtain ⟨-, hextensions, hinputs, hresources, hartifact⟩ := check_eq_ok_iff.mp hcheck
  refine ⟨s, hs, hextensions, hinputs, by rw [hkey], ?_, fun r hr => ?_⟩
  · rw [← hkey]
    exact Files.readText_of_read ((digest_eq_iff hdigests (source_mem_contents hs)).mp hartifact)
  · exact (digest_eq_iff hdigests (seen_mem_contents hs hr)).mp
      (StoreRecord.forall_mem_digests.mp hresources r hr)

end Artifacts
end ServiceGraph
