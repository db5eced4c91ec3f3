import ServiceGraph.Proofs.Config.Precedence
import ServiceGraph.Proofs.Grounded

/-!
# Includes that come back

A file that comes up again while it is being loaded is a cycle. A file that comes up again later, for
another file that includes it, is loaded again.

* `ConfigFiles.loadWhile_eq`: the loading as a row of steps that may fail;
* `ConfigFiles.loadMarking`: the same steps with one set of marks, which are set and taken off on the way;
  `ConfigFiles.loadMarking_restores`: this is the same, and no chain of includes is followed deeper than
  there are files;
* `ConfigFiles.Readable`: a file holds a configuration, and all that it names is there;
* `ConfigFiles.circular_of_error`, `ConfigFiles.not_circular_of_load`: where all files are readable the
  loading fails for a cycle only, and a file that is loaded leads into none;
* `ConfigFiles.Visits`: the files that loading a path visits, each after those that it includes;
* `ConfigFiles.load_exact`: loading ends, finds the cycles and lists its visits.
-/

namespace ServiceGraph

open Relation (ReflTransGen TransGen)

namespace ConfigFiles

variable {s : ConfigFiles} {opening marked : List String} {path file root : String} {c own : AppConfig}
  {e : LoadError}

/-! ## the steps of a loading -/

/-- what the file holds itself, or why it cannot be read -/
def reading (s : ConfigFiles) (file : String) : Except LoadError AppConfig :=
  match OrderedMap.get? s.contents file with
  | none => .error (.io file .isADirectory)
  | some (.error fault) => .error (.io file fault)
  | some (.ok text) => AppConfig.ofText file text

theorem loadWhile_eq (s : ConfigFiles) (opening : List String) (path : String) :
    s.loadWhile opening path = do
      let file ← (s.canonical path).mapError (LoadError.io path)
      if file ∈ opening then throw (.includeCycle file)
      else
        let own ← s.reading file
        let included ← own.includes.mapM fun pattern =>
          match s.matching? file pattern with
          | none => .error (.pattern pattern)
          | some paths => paths.mapM (s.loadWhile (file :: opening))
        return (AppConfig.empty.mergeAll included.flatten).merge
          { own with sources := own.sources ++ [file] } := by
  rw [loadWhile]
  cases s.canonical path with
  | error fault => rfl
  | ok file =>
    dsimp only [Except.mapError, bind, Except.bind]
    split
    · rfl
    · split
      next hnone => rw [show s.reading file = .error _ by rw [reading, hnone]]
      next fault hfault => rw [show s.reading file = .error _ by rw [reading, hfault]]
      next text htext =>
        have hreading : s.reading file = AppConfig.ofText file text := by rw [reading, htext]
        exact hreading ▸ rfl

theorem reading_of_own? (h : s.own? file = some own) :
    s.reading file = .ok own ∧ file ∈ s.contents.keys := by
  rw [own?] at h
  split at h
  next text htext =>
    refine ⟨?_, OrderedMap.mem_keys_of_get? htext⟩
    rw [reading, htext]
    dsimp only
    cases hparsed : AppConfig.ofText file text with
    | error e =>
      rw [hparsed] at h
      cases h
    | ok found =>
      rw [hparsed] at h
      rw [Option.some.inj h]
  next => cases h

/-! ## marks -/

/-- steps that set marks and take them off, and may fail; nothing comes of them when they go too deep -/
abbrev Marking (α : Type) : Type := StateT (List String) (ExceptT LoadError Option) α

namespace Marking

variable {α β : Type} {x : Marking α} {f : α → Marking β} {r : Except LoadError α}
  {g : α → Except LoadError β}

/-- a step that does not look at marks -/
def lift : Except LoadError α → Marking α
  | .ok a => pure a
  | .error e => throw e

def during (file : String) (x : Marking α) : Marking α := do
  modify (file :: ·)
  let a ← x
  modify (·.erase file)
  return a

/-- the steps come to this result, and unless it is an error the marks are as they were -/
def Restores (x : Marking α) (marked : List String) (r : Except LoadError α) : Prop :=
  x.run marked = (some (r.map (·, marked)) : Option (Except LoadError (α × List String)))

theorem restores_lift (r : Except LoadError α) : Restores (lift r) marked r := by
  cases r <;> rfl

theorem Restores.bind (hx : Restores x marked r) (hf : ∀ a, Restores (f a) marked (g a)) :
    Restores (x >>= f) marked (r >>= g) := by
  unfold Restores at hx hf ⊢
  rw [StateT.run_bind, hx]
  cases r with
  | error e => rfl
  | ok a => exact hf a

theorem Restores.mapM {γ : Type} {f : γ → Marking α} {g : γ → Except LoadError α} {l : List γ}
    (h : ∀ a, Restores (f a) marked (g a)) : Restores (l.mapM f) marked (l.mapM g) := by
  induction l with
  | nil =>
    rw [List.mapM_nil, List.mapM_nil]
    exact restores_lift (.ok [])
  | cons a l ih =>
    rw [List.mapM_cons, List.mapM_cons]
    exact (h a).bind fun b => ih.bind fun bs => restores_lift (.ok (b :: bs))

theorem Restores.during (h : Restores x (file :: marked) r) : Restores (during file x) marked r := by
  have hrun : (Marking.during file x).run marked = x.run (file :: marked) >>= fun p =>
      (pure (p.1, p.2.erase file) : ExceptT LoadError Option (α × List String)) := rfl
  unfold Restores at h ⊢
  rw [hrun, h]
  cases r with
  | error e => rfl
  | ok a =>
    show (some (.ok (a, (file :: marked).erase file)) : Option (Except LoadError (α × List String))) = _
    rw [List.erase_cons_head]
    rfl

/-- a file that is marked already is an error -/
theorem Restores.unlessMarked (h : file ∉ marked → Restores x marked r) :
    Restores (do if file ∈ (← get) then throw (.includeCycle file) else x) marked
      (if file ∈ marked then throw (.includeCycle file) else r) := by
  have hrun : (do if file ∈ (← get) then throw (.includeCycle file) else x : Marking α).run marked =
      (if file ∈ marked then throw (.includeCycle file) else x : Marking α).run marked := rfl
  rw [Restores, hrun]
  split
  · rfl
  next hnew => exact h hnew

end Marking

/-- load a file and what it includes, with the files that are being loaded as marks in the state. No
chain of includes is followed deeper than this. -/
def loadMarking (s : ConfigFiles) : (depth : Nat) → (path : String) → Marking AppConfig
  | 0, _ => fun _ => (none : Option (Except LoadError (AppConfig × List String)))
  | depth + 1, path => do
    let file ← Marking.lift ((s.canonical path).mapError (.io path))
    if file ∈ (← get) then throw (.includeCycle file)
    else Marking.during file do
      let own ← Marking.lift (s.reading file)
      let included ← own.includes.mapM fun pattern =>
        match s.matching? file pattern with
        | none => Marking.lift (.error (.pattern pattern))
        | some paths => paths.mapM (s.loadMarking depth)
      return (AppConfig.empty.mergeAll included.flatten).merge
        { own with sources := own.sources ++ [file] }

/-- **Marks are enough.** One set of marks that are taken off on the way out does what a set of its own
for each chain of includes does. -/
theorem loadMarking_restores {depth : Nat}
    (hdepth : (s.contents.keys.filter (· ∉ marked)).length < depth) (path : String) :
    Marking.Restores (s.loadMarking depth path) marked (s.loadWhile marked path) := by
  induction depth generalizing marked path with
  | zero => exact absurd hdepth (Nat.not_lt_zero _)
  | succ depth ih =>
    rw [loadWhile_eq, loadMarking]
    refine (Marking.restores_lift _).bind fun file => .unlessMarked fun hnew => .during ?_
    -- a file without text ends the steps, and any other is one file less that is not marked
    by_cases hkey : file ∈ s.contents.keys
    · have hfewer := length_filter_opening _ hkey hnew
      refine (Marking.restores_lift _).bind fun own => .bind (.mapM fun pattern => ?_) fun included =>
        Marking.restores_lift (.ok _)
      cases s.matching? file pattern with
      | none => exact Marking.restores_lift _
      | some paths => exact .mapM (ih (by omega))
    · have hnone : s.reading file = .error (.io file .isADirectory) := by
        rw [reading, OrderedMap.get?_eq_none_iff.mpr hkey]
      rw [hnone]
      rfl

/-! ## what can go wrong -/

/-- the file holds a configuration with well-formed patterns, and all that they name is there -/
def Readable (s : ConfigFiles) (file : String) : Prop :=
  ∃ own, s.own? file = some own ∧ ∀ pattern ∈ own.includes, ∃ paths,
    s.matching? file pattern = some paths ∧ ∀ p ∈ paths, ∃ other, s.canonical p = .ok other

/-- why a readable file is not loaded: it is being loaded, or something that it includes is not loaded -/
theorem loadWhile_eq_error (hcanonical : s.canonical path = .ok file) (hreadable : s.Readable file)
    (h : s.loadWhile opening path = .error e) :
    (file ∈ opening ∧ e = .includeCycle file) ∨
      file ∉ opening ∧ file ∈ s.contents.keys ∧ ∃ p other, s.canonical p = .ok other ∧
        s.Includes file other ∧ s.loadWhile (file :: opening) p = .error e := by
  obtain ⟨own, hown, hpatterns⟩ := hreadable
  obtain ⟨hreading, hkey⟩ := reading_of_own? hown
  rw [loadWhile_eq, hcanonical] at h
  dsimp only [Except.mapError, bind, Except.bind] at h
  split at h
  next hopening =>
    cases h
    exact .inl ⟨hopening, rfl⟩
  next hopening =>
    refine .inr ⟨hopening, hkey, ?_⟩
    simp only [hreading] at h
    split at h
    next failed hfailed =>
      cases h
      obtain ⟨pattern, hpattern, hfailed⟩ := Except.mapM_eq_error hfailed
      obtain ⟨paths, hpaths, hthere⟩ := hpatterns pattern hpattern
      rw [hpaths] at hfailed
      obtain ⟨p, hp, hfailed⟩ := Except.mapM_eq_error hfailed
      obtain ⟨other, hother⟩ := hthere p hp
      exact ⟨p, other, hother, ⟨own, pattern, paths, p, hown, hpattern, hpaths, hp, hother⟩, hfailed⟩
    next => cases h

/-- Where all that is reached is readable, the loading fails only for a file that is being loaded or that
leads back to itself. -/
theorem circular_of_error (hcanonical : s.canonical path = .ok file)
    (hreadable : ∀ x, ReflTransGen s.Includes file x → s.Readable x)
    (h : s.loadWhile opening path = .error e) :
    ∃ x, e = .includeCycle x ∧ ReflTransGen s.Includes file x ∧
      (x ∈ opening ∨ TransGen s.Includes x x) := by
  induction hn : (s.contents.keys.filter (· ∉ opening)).length using Nat.strongRecOn
    generalizing opening path file with
  | ind n ih =>
    rcases loadWhile_eq_error hcanonical (hreadable file .refl) h with
      ⟨hopening, rfl⟩ | ⟨hfresh, hkey, p, other, hother, hincludes, hfailed⟩
    · exact ⟨file, rfl, .refl, .inl hopening⟩
    · have hfewer := length_filter_opening _ hkey hfresh
      obtain ⟨x, rfl, hreach, hx⟩ := ih _ (hn ▸ hfewer) hother
        (fun y hy => hreadable y (.head hincludes hy)) hfailed rfl
      refine ⟨x, rfl, .head hincludes hreach, ?_⟩
      rcases hx with hmem | hcycle
      · rcases List.mem_cons.mp hmem with rfl | hopening
        · exact .inr (.head' hincludes hreach)
        · exact .inl hopening
      · exact .inr hcycle

/-- a file that is loaded leads into no cycle -/
theorem not_circular_of_load (hroot : s.canonical path = .ok root) (h : s.load path = .ok c) :
    ¬ Circular s.Includes root := by
  rintro ⟨x, hreach, hcycle⟩
  obtain ⟨first, own, children, hl⟩ := loadWhile_eq_ok h
  cases hroot.symm.trans hl.canonical
  have hvisited : x ∈ unwound c := by
    rw [hl.unwound]
    rcases Relation.reflTransGen_iff_eq_or_transGen.mp hreach with rfl | hbelow
    · exact List.mem_cons_self
    · exact List.mem_cons_of_mem _ (mem_after h hbelow (hl.unwound.trans (List.nil_append _).symm))
  -- behind the last place of the file it would have to come once more
  obtain ⟨after, before, hsplit, hlast⟩ := List.eq_append_cons_of_mem (List.mem_reverse.mpr hvisited)
  have hplace : unwound c = before.reverse ++ x :: after.reverse := by
    rw [← List.reverse_reverse (unwound c), hsplit, List.reverse_append, List.reverse_cons,
      List.append_assoc, List.singleton_append]
  exact hlast (List.mem_reverse.mp (mem_after h hcycle hplace))

/-! ## what is visited -/

/-- the files that loading a path visits: what loading each path visits that the file names, one after
the other, and then the file -/
inductive Visits (s : ConfigFiles) : (path : String) → (visited : List String) → Prop
  | file {path file : String} {own : AppConfig} {paths : List String} {visited : List (List String)}
      (canonical : s.canonical path = .ok file) (holds : s.own? file = some own)
      (included : s.included? file own.includes = some paths)
      (before : List.Forall₂ (Visits s) paths visited) : Visits s path (visited.flatten ++ [file])

theorem visits_of_load (h : s.loadWhile opening path = .ok c) : s.Visits path c.sources := by
  induction hn : c.sources.length using Nat.strongRecOn generalizing opening path c with
  | ind n ih =>
    obtain ⟨file, own, children, hl⟩ := loadWhile_eq_ok h
    obtain ⟨paths, hpaths, hincluded⟩ := hl.included
    have hshorter : ∀ child ∈ children, child.sources.length < n := by
      intro child hchild
      obtain ⟨before, after, rfl⟩ := List.append_of_mem hchild
      rw [← hn, hl.sources, List.flatMap_append, List.flatMap_cons]
      simp only [List.length_append, List.length_singleton]
      omega
    have hvisits : List.Forall₂ s.Visits paths (children.map AppConfig.sources) := by
      rw [List.forall₂_map_right_iff]
      clear hl hpaths
      induction hincluded with
      | nil => exact .nil
      | cons hfirst _ hrest =>
        obtain ⟨hchild, hothers⟩ := List.forall_mem_cons.mp hshorter
        exact .cons (ih _ hchild hfirst rfl) (hrest hothers)
    rw [hl.sources, List.flatMap_def]
    exact .file hl.canonical hl.own?_eq hpaths hvisits

/-! ## the whole loading -/

/-- **Loading ends, and it finds the cycles.** The steps end, whatever the files hold: no chain of
includes is followed deeper than there are files, and no mark is left. Let the root and all files that it
leads to be readable. Then they are loaded, or the error is a cycle, and it names a file on one. The
error comes when, and only when, a chain of includes from the root comes back to one of its files. The
sources list every visit after the visits that it makes, and the root last. -/
theorem load_exact (hroot : s.canonical path = .ok root)
    (hreadable : ∀ file, ReflTransGen s.Includes root file → s.Readable file) :
    Marking.Restores (s.loadMarking (s.contents.length + 1) path) [] (s.load path) ∧
      ((∃ c before, s.load path = .ok c ∧ s.Visits path c.sources ∧ c.sources = before ++ [root]) ∨
        ∃ file, s.load path = .error (.includeCycle file) ∧ ReflTransGen s.Includes root file ∧
          TransGen s.Includes file file) ∧
      ((∃ file, s.load path = .error (.includeCycle file)) ↔ Circular s.Includes root) := by
  have hdepth : (s.contents.keys.filter (· ∉ [])).length < s.contents.length + 1 := by
    have hle := List.length_filter_le (fun key => decide (key ∉ ([] : List String))) s.contents.keys
    rw [OrderedMap.keys, List.length_map] at hle
    exact Nat.lt_succ_of_le hle
  refine ⟨loadMarking_restores hdepth path, ?_⟩
  cases h : s.load path with
  | ok c =>
    obtain ⟨file, own, children, hl⟩ := loadWhile_eq_ok h
    cases hroot.symm.trans hl.canonical
    refine ⟨.inl ⟨c, _, rfl, visits_of_load h, hl.sources⟩, ?_, fun hcircular => ?_⟩
    · rintro ⟨file, hfailed⟩
      cases hfailed
    · exact absurd hcircular (not_circular_of_load hroot h)
  | error e =>
    obtain ⟨file, rfl, hreach, hcycle⟩ := circular_of_error hroot hreadable h
    have hcycle := hcycle.resolve_left List.not_mem_nil
    exact ⟨.inr ⟨file, rfl, hreach, hcycle⟩, fun _ => ⟨file, hreach, hcycle⟩, fun _ => ⟨file, rfl⟩⟩

/-- files that hold configurations and name each other only, so that nothing else is reached -/
theorem readable_of_closed {known : List String} (hroot : root ∈ known)
    (hknown : ∀ file ∈ known, ∃ own, s.own? file = some own ∧ ∀ pattern ∈ own.includes, ∃ paths,
      s.matching? file pattern = some paths ∧ ∀ p ∈ paths, ∃ other ∈ known, s.canonical p = .ok other)
    (hreach : ReflTransGen s.Includes root file) : s.Readable file := by
  have hmem : file ∈ known := by
    induction hreach with
    | refl => exact hroot
    | tail _ hincludes hbefore =>
      obtain ⟨own, pattern, paths, p, hown, hpattern, hpaths, hp, hother⟩ := hincludes
      obtain ⟨found, hfound, hnames⟩ := hknown _ hbefore
      cases hown.symm.trans hfound
      obtain ⟨named, hnamed, hthere⟩ := hnames pattern hpattern
      cases hpaths.symm.trans hnamed
      obtain ⟨other, hmem, hcanonical⟩ := hthere p hp
      cases hother.symm.trans hcanonical
      exact hmem
  obtain ⟨own, hown, hnames⟩ := hknown file hmem
  refine ⟨own, hown, fun pattern hpattern => ?_⟩
  obtain ⟨paths, hpaths, hthere⟩ := hnames pattern hpattern
  exact ⟨paths, hpaths, fun p hp => (hthere p hp).imp fun _ h => h.2⟩

/-- a file that two others include, of which the second is named by a pattern -/
def shared : ConfigFiles := ofTexts [
  ("root.yaml", "includes: [a.yaml, 'b*.yaml']"),
  ("a.yaml", "includes: [c.yaml]"),
  ("b.yaml", "includes: [c.yaml]"),
  ("c.yaml", "parameters:\n  k: c")]

def sharedFiles : List String := ["/root.yaml", "/a.yaml", "/b.yaml", "/c.yaml"]

theorem shared_closed : ∀ file ∈ sharedFiles, ∃ own, shared.own? file = some own ∧
    ∀ pattern ∈ own.includes, ∃ paths, shared.matching? file pattern = some paths ∧
      ∀ p ∈ paths, ∃ other ∈ sharedFiles, shared.canonical p = .ok other := by
  have hnames : ∀ {file pattern path}, shared.matching? file pattern = some [path] → path ∈ sharedFiles →
      shared.canonical path = .ok path → ∃ paths, shared.matching? file pattern = some paths ∧
        ∀ p ∈ paths, ∃ other ∈ sharedFiles, shared.canonical p = .ok other :=
    fun hpaths hmem hcanonical => ⟨_, hpaths, List.forall_mem_singleton.mpr ⟨_, hmem, hcanonical⟩⟩
  have ha : shared.canonical "/a.yaml" = .ok "/a.yaml" := by decide +kernel
  have hb : shared.canonical "/b.yaml" = .ok "/b.yaml" := by decide +kernel
  have hc : shared.canonical "/c.yaml" = .ok "/c.yaml" := by decide +kernel
  have hroot : ∀ pattern ∈ ["a.yaml", "b*.yaml"], ∃ paths,
      shared.matching? "/root.yaml" pattern = some paths ∧
        ∀ p ∈ paths, ∃ other ∈ sharedFiles, shared.canonical p = .ok other :=
    List.forall_mem_cons.mpr ⟨hnames (by decide +kernel) (by decide) ha,
      List.forall_mem_singleton.mpr (hnames (by decide +kernel) (by decide) hb)⟩
  simp only [sharedFiles, List.forall_mem_cons]
  refine ⟨⟨⟨[], ["a.yaml", "b*.yaml"], [], []⟩, by decide +kernel, hroot⟩,
    ⟨⟨[], ["c.yaml"], [], []⟩, by decide +kernel, ?_⟩,
    ⟨⟨[], ["c.yaml"], [], []⟩, by decide +kernel, ?_⟩,
    ⟨⟨[("k", .str "c")], [], [], []⟩, by decide +kernel, nofun⟩, nofun⟩
  · exact List.forall_mem_singleton.mpr (hnames (by decide +kernel) (by decide) hc)
  · exact List.forall_mem_singleton.mpr (hnames (by decide +kernel) (by decide) hc)

theorem shared_loaded :
    Marking.Restores (shared.loadMarking 5 "/root.yaml") [] (shared.load "/root.yaml") ∧
      ((∃ c before, shared.load "/root.yaml" = .ok c ∧ shared.Visits "/root.yaml" c.sources ∧
          c.sources = before ++ ["/root.yaml"]) ∨
        ∃ file, shared.load "/root.yaml" = .error (.includeCycle file) ∧
          ReflTransGen shared.Includes "/root.yaml" file ∧ TransGen shared.Includes file file) ∧
      ((∃ file, shared.load "/root.yaml" = .error (.includeCycle file)) ↔
        Circular shared.Includes "/root.yaml") :=
  load_exact (by decide +kernel) fun _ => readable_of_closed (by decide) shared_closed

end ConfigFiles
end ServiceGraph
