import Mathlib.Data.List.Basic
import ServiceGraph.Files.Tree

/-!
# Where paths lead, and what changes reach

* `Place.follow`: the place to which names lead. If a path can be followed at all it leads there,
  whatever the tree holds (`Files.walk_eq_ok`, `Files.locate_eq_ok`, `Files.goal_eq_some`);
* `Path.ofText_join`: a name below a path;
* `Files.entry?_put`, `Files.entry?_drop`: what is where, after something was put at a place or taken away;
* `Files.Grown`: directories may have come into being, and nothing else has changed;
* `Files.grown_makeDirectories`, `Files.replace_cases`: what making directories and bringing a file into
  being do.
-/

namespace ServiceGraph

/-! ## paths -/

namespace Path

/-- a name that can stand between two slashes -/
structure ProperName (name : String) : Prop where
  ne_empty : name ≠ ""
  no_slash : '/' ∉ name.toList

variable {base name : String}

theorem ProperName.head?_ne (h : ProperName name) : name.toList.head? ≠ some '/' := by
  intro hhead
  exact h.no_slash (List.mem_of_mem_head? hhead)

theorem ProperName.getLast?_ne (h : ProperName name) : name.toList.getLast? ≠ some '/' := by
  intro hlast
  exact h.no_slash (List.mem_of_getLast? hlast)

theorem ProperName.toList_ne_nil (h : ProperName name) : name.toList ≠ [] := by
  intro hnil
  exact h.ne_empty (String.toList_inj.mp hnil)

def namesIn (cs : List Char) : List String :=
  ((Text.parts '/' cs).filter (· ≠ [])).map String.ofList

theorem namesIn_append (cs ds : List Char) :
    namesIn (cs ++ '/' :: ds) = namesIn cs ++ namesIn ds := by
  rw [namesIn, Text.parts_append, List.filter_append, List.map_append, namesIn, namesIn]

theorem ProperName.namesIn (h : ProperName name) : namesIn name.toList = [name] := by
  rw [Path.namesIn, Text.parts_of_not_mem h.no_slash]
  simp [h.toList_ne_nil]

theorem ofText_eq (text : String) : ofText text =
    ⟨text.toList.head? = some '/', Path.namesIn text.toList, text.toList.getLast? = some '/'⟩ := rfl

/-- a name below a path -/
theorem ofText_join (h : ProperName name) (base : String) : ofText (join base name) =
    ⟨(ofText base).rooted, (ofText base).names ++ [name], false⟩ := by
  have hclosed : ∀ cs, decide ((cs ++ name.toList).getLast? = some '/') = false := by
    intro cs
    rw [List.getLast?_append_of_ne_nil _ h.toList_ne_nil]
    exact decide_eq_false h.getLast?_ne
  rw [join, if_neg h.head?_ne, ofText_eq base]
  by_cases hempty : base.toList = []
  · have hhead : decide (name.toList.head? = some '/') = false := decide_eq_false h.head?_ne
    rw [if_pos (.inl hempty), ofText_eq, String.toList_append, hclosed, hempty, List.nil_append,
      h.namesIn, hhead]
    rfl
  · by_cases hslash : base.toList.getLast? = some '/'
    · obtain ⟨cs, hcs⟩ := List.getLast?_eq_some_iff.mp hslash
      have htext : base.toList ++ name.toList = cs ++ '/' :: name.toList := by
        rw [hcs, List.append_assoc, List.singleton_append]
      rw [if_pos (.inr hslash), ofText_eq, String.toList_append, hclosed, htext, namesIn_append,
        h.namesIn, hcs, namesIn_append, List.append_assoc]
      cases cs <;> rfl
    · have htext : (base ++ "/" ++ name).toList = base.toList ++ '/' :: name.toList := by
        rw [String.toList_append, String.toList_append, List.append_assoc]
        rfl
      rw [if_neg (not_or.mpr ⟨hempty, hslash⟩), ofText_eq, htext, namesIn_append, h.namesIn]
      have hlast := hclosed (base.toList ++ ['/'])
      rw [List.append_assoc, List.singleton_append] at hlast
      rw [hlast, List.head?_append_of_ne_nil _ hempty]

end Path

/-! ## places -/

namespace Place

def step (p : Place) (name : String) : Place :=
  if name = "." then p else if name = ".." then p.tail else name :: p

def follow (p : Place) (names : List String) : Place := names.foldl step p

theorem follow_append (p : Place) (names more : List String) :
    p.follow (names ++ more) = (p.follow names).follow more := List.foldl_append ..

end Place

namespace Files

variable {f g : Files} {p q : Place} {e : Entry} {path : Path} {content : List UInt8}

theorem walk_eq_ok {names : List String} (h : f.walk p names = .ok q) : q = p.follow names := by
  induction names generalizing p with
  | nil => exact (Except.ok.inj h).symm
  | cons name rest ih =>
    rw [walk] at h
    cases hdir : f.expectDirectory p with
    | error e =>
      rw [hdir] at h
      cases h
    | ok u =>
      rw [hdir] at h
      exact ih h

def placeOf (f : Files) (path : Path) : Place := (f.start path).follow path.names

theorem start_eq_of_here (hhere : g.here = f.here) (path : Path) : g.start path = f.start path := by
  rw [start, start, hhere]

theorem placeOf_eq_of_here (hhere : g.here = f.here) (path : Path) : g.placeOf path = f.placeOf path := by
  rw [placeOf, placeOf, start_eq_of_here hhere]

/-- a path that is located leads where it says, and something is there -/
theorem locate_cases {text : String} (h : f.locate text = .ok p) :
    p = f.placeOf (Path.ofText text) ∧ ∃ e, f.entry? p = some e := by
  rw [locate] at h
  dsimp only at h
  split at h
  · cases h
  · cases hwalk : f.walk (f.start (Path.ofText text)) (Path.ofText text).names with
    | error e =>
      rw [hwalk] at h
      cases h
    | ok place =>
      rw [hwalk] at h
      have hsame : place = p ∧ ∃ e, f.entry? place = some e := by
        simp only [bind, Except.bind, pure, Except.pure] at h
        split at h
        · cases h
        next content hentry =>
          split at h
          · cases h
          · exact ⟨Except.ok.inj h, _, hentry⟩
        next hentry => exact ⟨Except.ok.inj h, _, hentry⟩
      obtain ⟨rfl, hentry⟩ := hsame
      exact ⟨walk_eq_ok hwalk, hentry⟩

theorem locate_eq_ok {text : String} (h : f.locate text = .ok p) : p = f.placeOf (Path.ofText text) :=
  (locate_cases h).1

theorem entry?_of_locate {text : String} (h : f.locate text = .ok p) : ∃ e, f.entry? p = some e :=
  (locate_cases h).2

/-- what is read stands where the path leads -/
theorem read_eq_ok {text : String} (h : f.read text = .ok content) :
    f.entry? (f.placeOf (Path.ofText text)) = some (.file content) := by
  rw [read] at h
  cases hplace : f.locate text with
  | error e =>
    rw [hplace] at h
    cases h
  | ok place =>
    rw [hplace] at h
    rw [← locate_eq_ok hplace]
    simp only [bind, Except.bind, pure, Except.pure] at h
    split at h
    next found hfound =>
      cases h
      exact hfound
    next => cases h

theorem mem_entries (hne : p ≠ []) (h : f.entry? p = some e) : (p, e) ∈ f.entries := by
  rw [Files.entry?, if_neg hne] at h
  obtain ⟨before, after, hsplit, -⟩ := List.lookup_eq_some_iff.mp h
  exact hsplit ▸ List.mem_append_right _ List.mem_cons_self

/-- the last name is put below a directory to which the others lead -/
theorem goal_cases (h : f.goal path = .ok (some p)) :
    ∃ around last place, path.names = around ++ [last] ∧ f.walk (f.start path) around = .ok place ∧
      f.expectDirectory place = .ok () ∧ p = last :: place ∧ ¬ Path.isDots last := by
  rw [goal] at h
  cases hlast : path.names.getLast? with
  | none =>
    rw [hlast] at h
    dsimp only at h
    split at h
    · cases h
    · cases h
  | some last =>
    obtain ⟨around, hnames⟩ := List.getLast?_eq_some_iff.mp hlast
    rw [hlast] at h
    simp only [hnames, List.dropLast_concat] at h
    cases hwalk : f.walk (f.start path) around with
    | error e =>
      rw [hwalk] at h
      cases h
    | ok place =>
      rw [hwalk] at h
      cases hdir : f.expectDirectory place with
      | error e =>
        simp only [bind, Except.bind, hdir] at h
        cases h
      | ok u =>
        simp only [bind, Except.bind, hdir, pure, Except.pure] at h
        split at h
        · cases h
        next hdots =>
          cases h
          exact ⟨around, last, place, hnames, hwalk, hdir, rfl, hdots⟩

theorem goal_eq_some (h : f.goal path = .ok (some p)) :
    ∃ around last, path.names = around ++ [last] ∧ p = last :: (f.start path).follow around ∧
      ¬ Path.isDots last := by
  obtain ⟨around, last, place, hnames, hwalk, -, rfl, hdots⟩ := goal_cases h
  exact ⟨around, last, hnames, by rw [walk_eq_ok hwalk], hdots⟩

theorem goal_eq_placeOf (h : f.goal path = .ok (some p)) : f.placeOf path = p := by
  obtain ⟨around, last, hnames, hp, hdots⟩ := goal_eq_some h
  simp only [Path.isDots, Bool.or_eq_true, decide_eq_true_eq, not_or] at hdots
  rw [placeOf, hnames, Place.follow_append, hp]
  show Place.step _ last = _
  rw [Place.step, if_neg hdots.1, if_neg hdots.2]

/-! ## changes -/

@[simp] theorem here_put (f : Files) (p : Place) (e : Entry) : (f.put p e).here = f.here := rfl

/-- what is taken away at one place is missed at no other -/
theorem lookup_filter_ne (hne : q ≠ p) (entries : List (Place × Entry)) :
    (entries.filter (·.1 ≠ p)).lookup q = entries.lookup q := by
  induction entries with
  | nil => rfl
  | cons x rest ih =>
    obtain ⟨r, found⟩ := x
    by_cases hr : r = p
    · have hq : (q == r) = false := beq_eq_false_iff_ne.mpr (hr ▸ hne)
      rw [List.filter_cons_of_neg (by simpa using hr), List.lookup_cons, hq, ih]
    · rw [List.filter_cons_of_pos (by simpa using hr), List.lookup_cons, List.lookup_cons, ih]

theorem entry?_put (hp : p ≠ []) (f : Files) (e : Entry) (q : Place) :
    Files.entry? (f.put p e) q = if q = p then some e else f.entry? q := by
  rw [Files.entry?, entry?, put]
  by_cases hq : q = p
  · subst hq
    simp [hp]
  · have hne : (q == p) = false := beq_eq_false_iff_ne.mpr hq
    rw [if_neg hq, List.lookup_cons, hne, lookup_filter_ne hq]

theorem entry?_drop (hne : q ≠ p) (f : Files) : Files.entry? (f.drop p) q = f.entry? q := by
  rw [Files.entry?, entry?, drop, lookup_filter_ne hne]

theorem goal_ne_nil (h : f.goal path = .ok (some p)) : p ≠ [] := by
  obtain ⟨around, last, -, rfl, -⟩ := goal_eq_some h
  exact List.cons_ne_nil _ _

/-- directories may have come into being, and nothing else has changed -/
structure Grown (f g : Files) : Prop where
  here : g.here = f.here
  kept : ∀ p e, f.entry? p = some e → g.entry? p = some e
  fresh : ∀ p e, g.entry? p = some e → f.entry? p = some e ∨ f.entry? p = none ∧ e = .directory

theorem Grown.refl (f : Files) : Grown f f := ⟨rfl, fun _ _ => id, fun _ _ => .inl⟩

theorem Grown.trans {h : Files} (hfg : Grown f g) (hgh : Grown g h) : Grown f h where
  here := hgh.here.trans hfg.here
  kept p e he := hgh.kept p e (hfg.kept p e he)
  fresh p e he := by
    rcases hgh.fresh p e he with hg | ⟨hnone, rfl⟩
    · exact hfg.fresh p e hg
    · refine .inr ⟨?_, rfl⟩
      cases hf : f.entry? p with
      | none => rfl
      | some e => cases hnone.symm.trans (hfg.kept p e hf)

theorem Grown.file_iff (h : Grown f g) :
    g.entry? p = some (.file content) ↔ f.entry? p = some (.file content) := by
  refine ⟨fun hg => ?_, h.kept p _⟩
  rcases h.fresh p _ hg with hf | ⟨-, hdir⟩
  · exact hf
  · cases hdir

theorem grown_makeDirectory (h : f.makeDirectory path = .ok g) : Grown f g := by
  rw [makeDirectory] at h
  cases hgoal : f.goal path with
  | error e =>
    rw [hgoal] at h
    cases h
  | ok goal? =>
    rw [hgoal] at h
    cases goal? with
    | none => cases h
    | some place =>
      simp only [bind, Except.bind, pure, Except.pure] at h
      split at h
      · cases h
      next hnone =>
        cases h
        have hplace := goal_ne_nil hgoal
        refine ⟨rfl, fun p e he => ?_, fun p e he => ?_⟩
        · rw [Files.entry?_put hplace, if_neg, he]
          rintro rfl
          rw [he] at hnone
          exact hnone rfl
        · rw [Files.entry?_put hplace] at he
          split at he
          next heq =>
            subst heq
            exact .inr ⟨by simpa using hnone, (Option.some.inj he).symm⟩
          next => exact .inl he

theorem grown_settle {r : Except FileFault Files} (h : ∀ g, r = .ok g → Grown f g) :
    Grown f (makeEach.settle f path r).2 := by
  cases r with
  | ok g => exact h g rfl
  | error e =>
    rw [makeEach.settle]
    split
    · split <;> exact Grown.refl f
    · exact Grown.refl f

theorem grown_makeEach (f : Files) (paths : List Path) : Grown f (f.makeEach paths).2 := by
  induction paths with
  | nil => exact Grown.refl f
  | cons path around ih =>
    rw [makeEach]
    split
    next g hok => exact grown_makeDirectory hok
    next hmissing =>
      split
      next g hmade =>
        have hbefore : Grown f g := by
          rw [hmade] at ih
          exact ih
        exact hbefore.trans (grown_settle fun _ => grown_makeDirectory)
      next e g hmade =>
        rw [hmade] at ih
        exact ih
    next e hother hfault => exact grown_settle nofun

theorem grown_makeDirectories (f : Files) (path : Path) : Grown f (f.makeDirectories path).2 := by
  rw [makeDirectories]
  split
  · exact Grown.refl f
  · exact grown_makeEach f _

/-- bringing a file into being: only directories are made, or the file is put where the path leads
after that, and no directory was there -/
theorem replace_cases (f : Files) (text : String) (content : List UInt8) :
    ∃ g, Grown f g ∧
      ((∃ e, f.replace text content = (.error e, g)) ∨
        ∃ p, g.goal (Path.ofText text) = .ok (some p) ∧ (Path.ofText text).closed = false ∧
          g.entry? p ≠ some .directory ∧
          f.replace text content = (.ok (), g.put p (.file content))) := by
  unfold replace
  extract_lets path
  split
  next result g hmade =>
    have hgrown : Grown f g := by
      split at hmade
      next around hparent =>
        have hdirectories := grown_makeDirectories f around
        rw [hmade] at hdirectories
        exact hdirectories
      next hparent =>
        cases hmade
        exact Grown.refl f
    refine ⟨g, hgrown, ?_⟩
    cases result with
    | error e => exact .inl ⟨e, rfl⟩
    | ok u =>
      dsimp only
      split
      next e hgoal => exact .inl ⟨e, rfl⟩
      next hgoal => exact .inl ⟨.busy, rfl⟩
      next p hgoal =>
        split
        · exact .inl ⟨_, rfl⟩
        next hopen =>
          split
          · exact .inl ⟨_, rfl⟩
          next hdir => exact .inr ⟨p, hgoal, by simpa using hopen, hdir, rfl⟩

end Files
end ServiceGraph
