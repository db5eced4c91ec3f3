import ServiceGraph.Proofs.Cache.Vouched
import ServiceGraph.Proofs.Extension.Order
import ServiceGraph.Proofs.Kernel.Built
import ServiceGraph.Proofs.Kernel.Loaded
import ServiceGraph.Proofs.Source.Checked

/-!
# Runs of kernels with a cache

* `Extension.Follows`, `Kernel.Follows`: extensions that do what their names say;
* `Kernel.reused_iff`: when an artifact is used again; `Kernel.Stores`, `Kernel.compileInto_cases`: when
  something is stored;
* `KernelRun`: a compilation with a cache; `KernelRun.record?`: what it has stored;
* `CacheHistory`: kernels run, and between the runs other files change; `CacheHistory.vouched`: every
  manifest was written by one of the runs.
-/

namespace ServiceGraph

variable {σ τ : Type}

/-! ## extensions that do what their names say -/

/-- what extensions do, by their names: the schema of the configuration block and the registration -/
abbrev Behaviour (σ : Type) := String → Option Schema × (Value → Program σ (Program σ Unit))

/-- the extension does what its name says -/
def Extension.Follows (behaviour : Behaviour σ) (e : Extension σ) : Prop :=
  (e.schema, e.register) = behaviour e.name

/-- all extensions do what their names say, those that are supplied and those that may be built -/
structure Kernel.Follows (behaviour : Behaviour σ) (k : Kernel σ τ) : Prop where
  supplied : ∀ e ∈ k.extensions, e.Follows behaviour
  built : ∀ name build, k.catalog.get? name = some build → ∀ args journal e,
    (build args journal).1 = .ok e → e.Follows behaviour

section

variable {behaviour : Behaviour σ} {k : Kernel σ τ} {journal journal' : σ} {es es' : List (Extension σ)}

theorem Constructs.follows {catalog : Catalog σ} {calls : List (Dependency × Extension σ)}
    (hbuilt : ∀ name build, catalog.get? name = some build → ∀ args journal e,
      (build args journal).1 = .ok e → e.Follows behaviour)
    (h : Sorting.Constructs catalog journal calls journal') : ∀ c ∈ calls, c.2.Follows behaviour := by
  induction h with
  | nil => exact nofun
  | cons hbuild he hrest ih =>
    exact List.forall_mem_cons.mpr ⟨hbuilt _ _ hbuild _ _ _ (congrArg Prod.fst he), ih⟩

/-- extensions that were put in order do what their names say -/
theorem Kernel.Follows.resolved (hk : k.Follows behaviour)
    (h : resolveOrder k.extensions k.catalog journal = (.ok es, journal')) :
    ∀ e ∈ es, e.Follows behaviour := by
  cases orders_iff.mpr h with
  | @ordered t hsupplied hsearch =>
    obtain ⟨calls, hcalls⟩ := hsearch.exists_calls rfl
    intro e he
    obtain ⟨name, -, hname⟩ := List.mem_filterMap.mp he
    have hmem := OrderedMap.mem_of_get? hname
    rw [hcalls.pool] at hmem
    rcases List.mem_append.mp hmem with hmem | hmem
    · obtain ⟨e', he', heq⟩ := List.mem_map.mp hmem
      cases heq
      exact hk.supplied e he'
    · obtain ⟨c, hc, heq⟩ := List.mem_map.mp hmem
      cases heq
      exact Constructs.follows hk.built hcalls.constructs c hc

theorem Extension.alike_of_names (h : ∀ e ∈ es, e.Follows behaviour) (h' : ∀ e ∈ es', e.Follows behaviour)
    (hnames : es.map Extension.name = es'.map Extension.name) : List.Forall₂ Extension.Alike es es' := by
  induction es generalizing es' with
  | nil =>
    rw [List.map_nil, eq_comm, List.map_eq_nil_iff] at hnames
    rw [hnames]
    exact .nil
  | cons e es ih =>
    cases es' with
    | nil => cases hnames
    | cons e' es' =>
      obtain ⟨he, hes⟩ := List.forall_mem_cons.mp h
      obtain ⟨he', hes'⟩ := List.forall_mem_cons.mp h'
      obtain ⟨hname, hrest⟩ := List.cons.inj hnames
      have hsame : (e.schema, e.register) = (e'.schema, e'.register) := by
        rw [he, he', hname]
      exact .cons ⟨hname, congrArg Prod.fst hsame, congrArg Prod.snd hsame⟩ (ih hes hes' hrest)

end

/-! ## the steps of a compilation -/

namespace Kernel

section

variable {k : Kernel σ τ} {a : Artifacts} {services : Services τ} {h : Heap τ} {f : Files}
  {journal journal' : σ} {c : AppConfig} {l : Lifecycle σ} {path : String}

theorem prepare_eq_ok (hprepare : k.prepare f journal = (.ok (c, l), journal')) :
    k.load f = .ok c ∧ ∃ es, resolveOrder k.extensions k.catalog journal = (.ok es, journal') ∧
      l = ⟨es, .resolved⟩ := by
  rw [prepare] at hprepare
  cases hload : k.load f with
  | error e =>
    rw [hload] at hprepare
    cases hprepare
  | ok c₁ =>
    rw [hload] at hprepare
    rw [lifecycle, Lifecycle.resolve] at hprepare
    cases horder : resolveOrder k.extensions k.catalog journal with
    | mk result j =>
      rw [horder] at hprepare
      cases result with
      | error e => cases hprepare
      | ok es =>
        cases hprepare
        exact ⟨rfl, es, rfl, rfl⟩

/-- what compiles without a cache -/
theorem compile_of_prepare (hprepare : k.prepare f journal = (.ok (c, l), journal')) :
    (k.compile services h f journal).1 =
      match (build l c journal').1 with
      | .error e => some (.error e)
      | .ok r => k.source? services h r := by
  rw [compile, assemble, hprepare]
  dsimp only
  generalize build l c journal' = built
  obtain ⟨result, j⟩ := built
  cases result <;> rfl

/-- what is stored or served is not used again -/
theorem storeOrServe_ne_reused (k : Kernel σ τ) (a : Artifacts) (services : Services τ) (f : Files)
    (order : List String) (inputs : Option String) (resources : List String) (r : Registry)
    (source path : String) :
    (k.storeOrServe a services f order inputs resources r source).1 ≠ .ok (.reused path) := by
  unfold storeOrServe
  dsimp only
  generalize a.store f order _ resources source = stored
  obtain ⟨result, g⟩ := stored
  match result with
  | .ok written => exact nofun
  | .error (.unwritable path fault) =>
    dsimp only
    cases k.serve services r <;> exact nofun
  | .error (.unreadable path fault) => exact nofun
  | .error (.invalidManifest path) => exact nofun

theorem storeOrServe_files (k : Kernel σ τ) (a : Artifacts) (services : Services τ) (f : Files)
    (order : List String) (inputs : Option String) (resources : List String) (r : Registry)
    (source : String) :
    (k.storeOrServe a services f order inputs resources r source).2 =
      (a.store f order (inputs.getD (Digest.ofText source)) resources source).2 := by
  unfold storeOrServe
  dsimp only
  generalize a.store f order _ resources source = stored
  obtain ⟨result, g⟩ := stored
  match result with
  | .ok written => rfl
  | .error (.unwritable path fault) => rfl
  | .error (.unreadable path fault) => rfl
  | .error (.invalidManifest path) => rfl

theorem source?_eq_ok {r : Registry} {source : String} :
    k.source? services h r = some (.ok source) ↔
      Compile.compile r k.constructors services h .standard = some (.ok source) := by
  unfold source?
  generalize Compile.compile r k.constructors services h .standard = compiled
  match compiled with
  | none => exact ⟨nofun, nofun⟩
  | some (.error e) => exact ⟨nofun, nofun⟩
  | some (.ok text) =>
    constructor
    · intro hsource
      cases hsource
      rfl
    · intro hsource
      cases hsource
      rfl

theorem source?_of_constructors {k' : Kernel σ τ} (hconstructors : k.constructors = k'.constructors)
    {r : Registry} {source : String} (hsource : k.source? services h r = some (.ok source)) :
    k'.source? services h r = some (.ok source) := by
  rw [source?_eq_ok, ← hconstructors]
  exact source?_eq_ok.mp hsource

theorem source?_eq_error {r : Registry} {e : CompileError}
    (hfailed : Compile.compile r k.constructors services h .standard = some (.error e)) :
    k.source? services h r = some (.error (.compile e)) := by
  unfold source?
  rw [hfailed]
  rfl

/-- what is compiled is the text of a module -/
theorem exists_module {r : Registry} {source : String} (hsource : k.source? services h r = some (.ok source)) :
    ∃ m : SourceModule, source = m.text := by
  have hcompiled := source?_eq_ok.mp hsource
  unfold Compile.compile at hcompiled
  obtain ⟨m, -, hm⟩ := Compiling.bind_eq_ok hcompiled
  exact ⟨m, (Except.ok.inj (Option.some.inj hm)).symm⟩

theorem reusable?_eq_some {order : List String} {inputs : Option String} {reuse : Bool} :
    reusable? a f order inputs reuse = some path ↔
      reuse = true ∧ ∃ digest, inputs = some digest ∧ a.lookup f order digest = .ok path := by
  unfold reusable?
  match inputs, reuse with
  | none, _ => exact ⟨nofun, fun ⟨_, _, hnone, _⟩ => nomatch hnone⟩
  | some digest, false => exact ⟨nofun, fun ⟨hreuse, _⟩ => nomatch hreuse⟩
  | some digest, true =>
    dsimp only
    constructor
    · intro hfound
      cases hlookup : a.lookup f order digest with
      | error e =>
        rw [hlookup] at hfound
        cases hfound
      | ok found =>
        rw [hlookup] at hfound
        cases hfound
        exact ⟨rfl, digest, rfl, hlookup⟩
    · rintro ⟨-, digest', hsame, hlookup⟩
      cases hsame
      rw [hlookup]
      rfl

/-- an artifact is used again exactly if it may be and it is found -/
theorem reused_iff {reuse : Bool} :
    (k.compileInto a reuse services h f journal).1 = some (.ok (.reused path)) ↔
      reuse = true ∧ ∃ c l journal' texts, k.prepare f journal = (.ok (c, l), journal') ∧
        k.inputTexts? c = some texts ∧ a.lookup f l.order (Digest.ofParts texts) = .ok path := by
  unfold compileInto
  generalize k.prepare f journal = prepared
  obtain ⟨result, journal'⟩ := prepared
  cases result with
  | error e => exact ⟨nofun, fun ⟨_, _, _, _, _, hprepare, _⟩ => nomatch hprepare⟩
  | ok x =>
    obtain ⟨c, l⟩ := x
    dsimp only
    constructor
    · intro hreused
      have hfound : reusable? a f l.order (k.fingerprint? c) reuse = some path := by
        cases hreusable : reusable? a f l.order (k.fingerprint? c) reuse with
        | some found =>
          rw [hreusable] at hreused
          cases hreused
          rfl
        | none =>
          -- nothing stored is used, so the kernel compiles, and that never ends so
          rw [hreusable] at hreused
          dsimp only at hreused
          generalize build l c journal' = built at hreused
          obtain ⟨result, j⟩ := built
          cases result with
          | error e => cases hreused
          | ok r =>
            dsimp only at hreused
            generalize k.source? services h r = source? at hreused
            match source? with
            | none => cases hreused
            | some (.error e) => cases hreused
            | some (.ok source) =>
              exact (storeOrServe_ne_reused _ _ _ _ _ _ _ _ _ _ (Option.some.inj hreused)).elim
      obtain ⟨hreuse, digest, hdigest, hlookup⟩ := reusable?_eq_some.mp hfound
      obtain ⟨texts, htexts, rfl⟩ := Option.map_eq_some_iff.mp hdigest
      exact ⟨hreuse, c, l, journal', texts, rfl, htexts, hlookup⟩
    · rintro ⟨hreuse, c, l, journal', texts, hprepare, htexts, hlookup⟩
      cases hprepare
      have hdigest : k.fingerprint? c = some (Digest.ofParts texts) :=
        Option.map_eq_some_iff.mpr ⟨texts, htexts, rfl⟩
      rw [reusable?_eq_some.mpr ⟨hreuse, _, hdigest, hlookup⟩]

/-- the kernel finds no artifact to use again, and comes to storing what it has compiled -/
structure Stores (k : Kernel σ τ) (a : Artifacts) (reuse : Bool) (services : Services τ) (h : Heap τ)
    (f : Files) (journal : σ) (c : AppConfig) (l : Lifecycle σ) (journal' : σ) (r : Registry)
    (source : String) : Prop where
  prepared : k.prepare f journal = (.ok (c, l), journal')
  missed : reusable? a f l.order (k.fingerprint? c) reuse = none
  built : (build l c journal').1 = .ok r
  compiled : k.source? services h r = some (.ok source)

def call (k : Kernel σ τ) (c : AppConfig) (l : Lifecycle σ) (source : String) : StoreCall :=
  ⟨l.order, (k.fingerprint? c).getD (Digest.ofText source), c.sources, source⟩

/-- a compilation leaves the files as they are, or it stores what it has compiled -/
theorem compileInto_cases (k : Kernel σ τ) (a : Artifacts) (reuse : Bool) (services : Services τ) (h : Heap τ)
    (f : Files) (journal : σ) : (k.compileInto a reuse services h f journal).2.1 = f ∨
      ∃ c l journal' r source, Stores k a reuse services h f journal c l journal' r source := by
  unfold compileInto
  cases hprepare : k.prepare f journal with
  | mk result journal' =>
    cases result with
    | error e => exact .inl rfl
    | ok x =>
      obtain ⟨c, l⟩ := x
      dsimp only
      cases hreusable : reusable? a f l.order (k.fingerprint? c) reuse with
      | some found => exact .inl rfl
      | none =>
        dsimp only
        cases hbuild : build l c journal' with
        | mk result j =>
          cases result with
          | error e => exact .inl rfl
          | ok r =>
            dsimp only
            match hsource : k.source? services h r with
            | none => exact .inl rfl
            | some (.error e) => exact .inl rfl
            | some (.ok source) =>
              exact .inr ⟨c, l, journal', r, source, hprepare, hreusable, congrArg Prod.fst hbuild, hsource⟩

theorem Stores.files {reuse : Bool} {r : Registry} {source : String}
    (hstores : Stores k a reuse services h f journal c l journal' r source) :
    (k.compileInto a reuse services h f journal).2.1 =
      (a.store f (k.call c l source).extensions (k.call c l source).inputs (k.call c l source).resources
        (k.call c l source).source).2 := by
  obtain ⟨hprepare, hmissed, hbuild, hsource⟩ := hstores
  unfold compileInto
  rw [hprepare]
  dsimp only
  rw [hmissed]
  dsimp only
  generalize build l c journal' = built at hbuild
  obtain ⟨result, j⟩ := built
  cases hbuild
  dsimp only
  rw [hsource]
  exact storeOrServe_files ..

end

end Kernel

/-! ## runs and what they store -/

/-- a compilation with a cache, on these files and with this journal -/
structure KernelRun (σ τ : Type) where
  kernel : Kernel σ τ
  files : Files
  journal : σ
  reuse : Bool

namespace KernelRun

variable (a : Artifacts) (services : Services τ) (h : Heap τ)

/-- what comes of the run, and the files and the journal that it leaves -/
def outcome (run : KernelRun σ τ) : Option (Except KernelError (Compiled τ)) × Files × σ :=
  run.kernel.compileInto a run.reuse services h run.files run.journal

/-- what the run has stored, unless it has stopped before or used an artifact again -/
def record? (run : KernelRun σ τ) : Option StoreRecord :=
  match (run.kernel.prepare run.files run.journal) with
  | (.error _, _) => none
  | (.ok (c, l), journal) =>
    let inputs := run.kernel.fingerprint? c
    match Kernel.reusable? a run.files l.order inputs run.reuse with
    | some _ => none
    | none =>
      match (Kernel.build l c journal).1 with
      | .error _ => none
      | .ok r =>
        match run.kernel.source? services h r, Artifacts.look run.files c.sources [] with
        | some (.ok source), .ok seen =>
          some ⟨⟨l.order, inputs.getD (Digest.ofText source), c.sources, source⟩, seen⟩
        | _, _ => none

/-- the row of texts that tells the inputs of the run, if it comes so far -/
def row? (run : KernelRun σ τ) : Option (List UInt8) :=
  match (run.kernel.prepare run.files run.journal).1 with
  | .error _ => none
  | .ok (c, _) => (run.kernel.inputTexts? c).map Digest.terminated

variable {a services h} {run : KernelRun σ τ} {s : StoreRecord}

/-- the run comes to storing what it has compiled -/
def Stores (a : Artifacts) (services : Services τ) (h : Heap τ) (run : KernelRun σ τ) :
    AppConfig → Lifecycle σ → σ → Registry → String → Prop :=
  run.kernel.Stores a run.reuse services h run.files run.journal

theorem record?_eq_some_iff : run.record? a services h = some s ↔ ∃ c l journal r source,
    run.Stores a services h c l journal r source ∧ Artifacts.look run.files c.sources [] = .ok s.seen ∧
      s.call = run.kernel.call c l source := by
  unfold record?
  constructor
  · intro hs
    split at hs
    · cases hs
    next c l journal hprepare =>
      dsimp only at hs
      split at hs
      · cases hs
      next hmissed =>
        split at hs
        · cases hs
        next r hbuild =>
          split at hs
          next source seen hsource hseen =>
            cases hs
            exact ⟨c, l, journal, r, source, ⟨hprepare, hmissed, hbuild, hsource⟩, hseen, rfl⟩
          next => cases hs
  · rintro ⟨c, l, journal, r, source, ⟨hprepare, hmissed, hbuild, hsource⟩, hseen, hcall⟩
    obtain ⟨call, seen⟩ := s
    cases hcall
    rw [hprepare]
    dsimp only
    rw [hmissed, hbuild]
    dsimp only
    rw [hsource, hseen]

/-- what a run has stored is in the files that it leaves -/
theorem files_of_record (hs : run.record? a services h = some s) : (run.outcome a services h).2.1 =
    (a.store run.files s.call.extensions s.call.inputs s.call.resources s.call.source).2 := by
  obtain ⟨c, l, journal, r, source, hstores, -, hcall⟩ := record?_eq_some_iff.mp hs
  rw [hcall]
  exact hstores.files

end KernelRun

/-- what becomes of the files: at the beginning there is nothing under the directory, then kernels run, and
between the runs other files may change in any way, as long as this brings no manifest into being -/
inductive CacheHistory (a : Artifacts) (services : Services τ) (h : Heap τ) :
    Files → List (KernelRun σ τ) → Prop
  | started (f : Files) (hempty : a.Empty f) : CacheHistory a services h f []
  | ran {runs : List (KernelRun σ τ)} (run : KernelRun σ τ)
    (hbefore : CacheHistory a services h run.files runs) :
    CacheHistory a services h ((run.outcome a services h).2.1) (runs ++ [run])
  | changed {f : Files} {runs : List (KernelRun σ τ)} (hbefore : CacheHistory a services h f runs) (g : Files)
    (hhere : g.here = f.here)
    (hmanifests : ∀ key content,
      g.entry? (Artifacts.manifestName key :: a.place f) = some (.file content) →
        f.entry? (Artifacts.manifestName key :: a.place f) = some (.file content)) :
    CacheHistory a services h g runs

namespace CacheHistory

variable {a : Artifacts} {services : Services τ} {h : Heap τ} {f : Files} {runs : List (KernelRun σ τ)}

/-- every manifest was written by one of the runs -/
theorem vouched (history : CacheHistory a services h f runs) :
    a.Vouched (runs.filterMap (KernelRun.record? a services h)) f := by
  induction history with
  | started f hempty => exact hempty.vouched _
  | @ran runs run hbefore ih =>
    rw [List.filterMap_append]
    have hmore := ih.mono (List.subset_append_left _ ([run].filterMap (KernelRun.record? a services h)))
    rcases run.kernel.compileInto_cases a run.reuse services h run.files run.journal with
      hfiles | ⟨c, l, journal', r, source, hstores⟩
    · rw [KernelRun.outcome, hfiles]
      exact hmore
    · rw [KernelRun.outcome, hstores.files]
      refine hmore.store _ fun seen hseen => List.mem_append_right _ ?_
      have hrecord : run.record? a services h = some ⟨run.kernel.call c l source, seen⟩ :=
        KernelRun.record?_eq_some_iff.mpr ⟨c, l, journal', r, source, hstores, hseen, rfl⟩
      rw [List.filterMap_cons, hrecord]
      exact List.mem_cons_self
  | changed hbefore g hhere hmanifests ih => exact ih.kept hhere hmanifests

end CacheHistory

end ServiceGraph
