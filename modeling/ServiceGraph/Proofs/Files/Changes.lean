import ServiceGraph.Proofs.Files.Found

/-!
# What changes of files leave alone

No change of a file takes a directory away, so every path still leads where it led, and a file that is
not changed itself can still be read.

* `Files.read_eq_ok_iff`: what it takes to read a file; `Files.read_replace`: what is brought into being is
  read;
* `Files.Keeps`: the directories are still there, and the file at one place is as it was; then it reads
  as before (`Keeps.read`);
* `FileChange`: a file is written, brought into being with the directories around it, or removed;
* `FileChange.keeps`, `Files.keeps_changed`: one change, and a row of changes, none of them at a place.
-/

namespace ServiceGraph

namespace Files

variable {f g h : Files} {path : String} {p q r : Place} {content : List UInt8} {names : List String}

/-! ## reading -/

/-- reading goes along directories to a file, and the path does not ask for a directory -/
theorem read_eq_ok_iff : f.read path = .ok content ↔
    (Path.ofText path).names ≠ [] ∧ (Path.ofText path).closed = false ∧
      f.walk (f.start (Path.ofText path)) (Path.ofText path).names = .ok (f.placeOf (Path.ofText path)) ∧
      f.entry? (f.placeOf (Path.ofText path)) = some (.file content) := by
  constructor
  · intro hread
    have hfile := read_eq_ok hread
    rw [read, locate] at hread
    dsimp only at hread
    split at hread
    · cases hread
    next hnames =>
      cases hwalk : f.walk (f.start (Path.ofText path)) (Path.ofText path).names with
      | error e =>
        rw [hwalk] at hread
        cases hread
      | ok place =>
        obtain rfl : place = f.placeOf (Path.ofText path) := walk_eq_ok hwalk
        rw [hwalk] at hread
        simp only [bind, Except.bind, hfile] at hread
        refine ⟨fun hnil => ?_, ?_, rfl, hfile⟩
        · -- the root is no file
          have hroot : f.placeOf (Path.ofText path) = [] := by
            rw [placeOf, start, hnil]
            exact if_pos (by simpa [hnil] using hnames)
          rw [hroot] at hfile
          cases hfile
        · cases hclosed : (Path.ofText path).closed with
          | false => rfl
          | true =>
            rw [hclosed] at hread
            cases hread
  · rintro ⟨hnames, hclosed, hwalk, hfile⟩
    have hlocate : f.locate path = .ok (f.placeOf (Path.ofText path)) := by
      rw [locate]
      simp only [hnames, false_and, if_false, hwalk, bind, Except.bind, hfile, hclosed]
      rfl
    rw [read, hlocate]
    simp only [bind, Except.bind, hfile]
    rfl

/-! ## what is kept -/

/-- the directories are still there, and if a file was at a place it is still there -/
structure Keeps (f g : Files) (p : Place) : Prop where
  here : g.here = f.here
  directories : ∀ q, f.entry? q = some .directory → g.entry? q = some .directory
  file : ∀ content, f.entry? p = some (.file content) → g.entry? p = some (.file content)

theorem Keeps.refl (f : Files) (p : Place) : Keeps f f p := ⟨rfl, fun _ => id, fun _ => id⟩

theorem Keeps.trans (hfg : Keeps f g p) (hgh : Keeps g h p) : Keeps f h p where
  here := hgh.here.trans hfg.here
  directories q hq := hgh.directories q (hfg.directories q hq)
  file content hp := hgh.file content (hfg.file content hp)

theorem Grown.keeps (hgrown : Grown f g) (p : Place) : Keeps f g p :=
  ⟨hgrown.here, fun q => hgrown.kept q .directory, fun content => hgrown.kept p (.file content)⟩

theorem Keeps.walk (hkeeps : Keeps f g p) (hwalk : f.walk q names = .ok r) : g.walk q names = .ok r := by
  induction names generalizing q with
  | nil => exact hwalk
  | cons name rest ih =>
    rw [Files.walk] at hwalk ⊢
    cases hdir : f.expectDirectory q with
    | error e =>
      rw [hdir] at hwalk
      cases hwalk
    | ok u =>
      rw [hdir] at hwalk
      rw [expectDirectory_eq_ok_iff.mpr (hkeeps.directories q (expectDirectory_eq_ok_iff.mp hdir))]
      exact ih hwalk

/-- a file that is kept reads as before -/
theorem Keeps.read (hkeeps : Keeps f g (f.placeOf (Path.ofText path))) (hread : f.read path = .ok content) :
    g.read path = .ok content := by
  obtain ⟨hnames, hclosed, hwalk, hfile⟩ := read_eq_ok_iff.mp hread
  rw [read_eq_ok_iff, placeOf_eq_of_here hkeeps.here, start_eq_of_here hkeeps.here]
  exact ⟨hnames, hclosed, hkeeps.walk hwalk, hkeeps.file content hfile⟩

/-! ## files that come and go -/

theorem keeps_put (hq : q ≠ []) (hdir : f.entry? q ≠ some .directory) (hne : q ≠ p)
    (content : List UInt8) : Keeps f (f.put q (.file content)) p where
  here := rfl
  directories r hr := by
    rw [Files.entry?_put hq, if_neg]
    · exact hr
    · rintro rfl
      exact hdir hr
  file found hp := by
    rw [Files.entry?_put hq, if_neg (Ne.symm hne)]
    exact hp

theorem keeps_drop (hdir : f.entry? q ≠ some .directory) (hne : q ≠ p) : Keeps f (f.drop q) p where
  here := rfl
  directories r hr := by
    rw [Files.entry?_drop]
    · exact hr
    · rintro rfl
      exact hdir hr
  file found hp := by
    rw [Files.entry?_drop (Ne.symm hne)]
    exact hp

/-- a file is put where the path leads, and no directory was there -/
theorem write_eq_ok (hwrite : f.write path content = .ok g) :
    f.placeOf (Path.ofText path) ≠ [] ∧ f.entry? (f.placeOf (Path.ofText path)) ≠ some .directory ∧
      g = f.put (f.placeOf (Path.ofText path)) (.file content) := by
  rw [write] at hwrite
  cases hgoal : f.goal (Path.ofText path) with
  | error e =>
    simp only [hgoal] at hwrite
    cases hwrite
  | ok goal =>
    cases goal with
    | none =>
      simp only [hgoal] at hwrite
      cases hwrite
    | some place =>
      simp only [hgoal, bind, Except.bind] at hwrite
      split at hwrite
      · cases hwrite
      next hfree =>
        rw [not_or] at hfree
        rw [goal_eq_placeOf hgoal]
        exact ⟨goal_ne_nil hgoal, hfree.2, (Except.ok.inj hwrite).symm⟩

theorem remove_eq_ok (hremove : f.remove path = .ok g) :
    f.entry? (f.placeOf (Path.ofText path)) ≠ some .directory ∧
      g = f.drop (f.placeOf (Path.ofText path)) := by
  rw [remove] at hremove
  cases hlocate : f.locate path with
  | error e =>
    rw [hlocate] at hremove
    cases hremove
  | ok place =>
    rw [hlocate] at hremove
    simp only [bind, Except.bind] at hremove
    split at hremove
    · cases hremove
    next hdir =>
      rw [← locate_eq_ok hlocate]
      exact ⟨hdir, (Except.ok.inj hremove).symm⟩

/-- the names of a goal can be followed -/
theorem walk_of_goal {path : Path} (hgoal : f.goal path = .ok (some p)) :
    f.walk (f.start path) path.names = .ok p := by
  obtain ⟨around, last, place, hnames, hwalk, hdir, rfl, hdots⟩ := goal_cases hgoal
  rw [hnames, walk_append, hwalk]
  show f.walk place [last] = _
  rw [Files.walk, hdir]
  exact congrArg Except.ok (Place.step_proper hdots place)

/-- what was brought into being is read -/
theorem read_replace (hreplaced : f.replace path content = (.ok (), g)) : g.read path = .ok content := by
  obtain ⟨h, -, ⟨e, hfailed⟩ | ⟨p, hgoal, hopen, hdir, hput⟩⟩ := replace_cases f path content
  · cases hfailed.symm.trans hreplaced
  · cases hput.symm.trans hreplaced
    obtain ⟨around, last, hnames, -, -⟩ := goal_eq_some hgoal
    have hplace : (h.put p (.file content)).placeOf (Path.ofText path) = p :=
      (placeOf_eq_of_here (here_put h p _) _).trans (goal_eq_placeOf hgoal)
    -- the file is none of the directories on the way to it
    have hway : Keeps h (h.put p (.file content)) [] :=
      keeps_put (goal_ne_nil hgoal) hdir (goal_ne_nil hgoal) content
    refine read_eq_ok_iff.mpr ⟨?_, hopen, ?_, ?_⟩
    · rw [hnames]
      exact List.append_ne_nil_of_right_ne_nil _ (List.cons_ne_nil _ _)
    · rw [hplace]
      exact hway.walk (walk_of_goal hgoal)
    · rw [hplace, Files.entry?_put (goal_ne_nil hgoal), if_pos rfl]

theorem keeps_replace (hne : f.placeOf (Path.ofText path) ≠ p) :
    Keeps f (f.replace path content).2 p := by
  obtain ⟨g, hgrown, ⟨e, hfailed⟩ | ⟨q, hgoal, -, hdir, hput⟩⟩ := replace_cases f path content
  · rw [hfailed]
    exact hgrown.keeps p
  · rw [← placeOf_eq_of_here hgrown.here, goal_eq_placeOf hgoal] at hne
    rw [hput]
    exact (hgrown.keeps p).trans (keeps_put (goal_ne_nil hgoal) hdir hne content)

end Files

inductive FileChange where
  | write (path : String) (content : List UInt8)
  /-- brought into being at once, with the directories around it -/
  | replace (path : String) (content : List UInt8)
  | remove (path : String)
deriving DecidableEq

namespace FileChange

def path : FileChange → String
  | write path _ | replace path _ | remove path => path

/-- the tree after the change; one that fails leaves at most new directories behind -/
def apply (f : Files) : FileChange → Files
  | write path content => (f.write path content).toOption.getD f
  | replace path content => (f.replace path content).2
  | remove path => (f.remove path).toOption.getD f

variable {f : Files} {c : FileChange} {p : Place}

/-- a change of another file -/
theorem keeps (hne : f.placeOf (Path.ofText c.path) ≠ p) : Files.Keeps f (c.apply f) p := by
  cases c with
  | write path content =>
    rw [apply]
    cases hwrite : f.write path content with
    | error e => exact .refl f p
    | ok g =>
      obtain ⟨hroot, hdir, rfl⟩ := Files.write_eq_ok hwrite
      exact Files.keeps_put hroot hdir hne content
  | replace path content => exact Files.keeps_replace hne
  | remove path =>
    rw [apply]
    cases hremove : f.remove path with
    | error e => exact .refl f p
    | ok g =>
      obtain ⟨hdir, rfl⟩ := Files.remove_eq_ok hremove
      exact Files.keeps_drop hdir hne

end FileChange

def Files.changed (f : Files) (changes : List FileChange) : Files := changes.foldl FileChange.apply f

/-- changes of other files -/
theorem Files.keeps_changed {p : Place} (changes : List FileChange) (f : Files)
    (hne : ∀ c ∈ changes, f.placeOf (Path.ofText c.path) ≠ p) : Keeps f (f.changed changes) p := by
  induction changes generalizing f with
  | nil => exact .refl f p
  | cons c rest ih =>
    obtain ⟨hc, hrest⟩ := List.forall_mem_cons.mp hne
    have hfirst := FileChange.keeps hc
    refine hfirst.trans (ih (c.apply f) fun d hd => ?_)
    rw [placeOf_eq_of_here hfirst.here]
    exact hrest d hd

end ServiceGraph
