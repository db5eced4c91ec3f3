import Mathlib.Data.List.Basic
import Mathlib.Data.List.Nodup
import ServiceGraph.Proofs.Files.Canonical
import ServiceGraph.Proofs.Outcomes

/-!
# Where the parts of a pattern lead

A search goes from directory to directory, one part of the pattern after the other. A part that does not
climb leads to something below.

* `PatternPart.Climbs`: a part that leads to the directory around; `PatternPart.Level`: one that does not;
* `PatternPart.slashless_of_ofPattern?`: no part of a pattern holds a slash;
* `Files.Leads`: where a path from the root on leads;
* `Files.find_literal`, `Files.find_wild`, `Files.find_deep`: the steps of a search;
* `Files.find_below`: a search that does not climb stays below the place where it starts.
-/

namespace ServiceGraph

theorem PatternToken.among_of_brackets? {s after : List Char} {t : PatternToken}
    (h : brackets? s = some (t, after)) : ∃ wanted ranges, t = among wanted ranges := by
  unfold brackets? at h
  split at h <;>
  · obtain ⟨⟨body, rest⟩, -, heq⟩ := Option.map_eq_some_iff.mp h
    cases heq
    exact ⟨_, _, rfl⟩

/-- a name in which every character stands for itself is that name -/
theorem PatternToken.literal?_ofName? {s cs : List Char} {tokens : List PatternToken}
    (h : ofName? s = some tokens) (hliteral : literal? tokens = some cs) : cs = s := by
  fun_induction ofName? s generalizing tokens cs with
  | case1 =>
    cases h
    exact (Option.some.inj hliteral).symm
  | case2 rest ih =>
    obtain ⟨tokens, -, rfl⟩ := Option.map_eq_some_iff.mp h
    cases hliteral
  | case3 => cases h
  | case4 rest _ ih =>
    obtain ⟨tokens, -, rfl⟩ := Option.map_eq_some_iff.mp h
    cases hliteral
  | case5 => cases h
  | case6 rest t after hbrackets _ ih =>
    obtain ⟨wanted, ranges, rfl⟩ := among_of_brackets? hbrackets
    obtain ⟨tokens, -, rfl⟩ := Option.map_eq_some_iff.mp h
    cases hliteral
  | case7 c rest _ _ _ _ ih =>
    obtain ⟨tokens, hrest, rfl⟩ := Option.map_eq_some_iff.mp h
    rw [literal?] at hliteral
    obtain ⟨cs, hcs, rfl⟩ := Option.map_eq_some_iff.mp hliteral
    rw [ih hrest hcs]

namespace PatternPart

/-- the part leads to the directory around -/
def Climbs : PatternPart → Prop
  | literal name => name = ".."
  | part => ".." ∈ part.dots

instance : DecidablePred Climbs
  | literal name => inferInstanceAs (Decidable (name = ".."))
  | wild tokens => inferInstanceAs (Decidable (".." ∈ (wild tokens).dots))
  | deep => inferInstanceAs (Decidable (".." ∈ deep.dots))

def Slashless : PatternPart → Prop
  | literal name => '/' ∉ name.toList
  | _ => True

/-- the part leads to something below -/
structure Level (part : PatternPart) : Prop where
  slashless : part.Slashless
  stays : ¬ part.Climbs

/-- the parts of a pattern, in the cases of a search -/
theorem searchCases {motive : List PatternPart → Prop} (nil : motive [])
    (literal : ∀ name rest, motive rest → motive (literal name :: rest))
    (wild : ∀ tokens rest, motive rest → motive (wild tokens :: rest))
    (deepLast : motive [deep])
    (deepAgain : ∀ rest, motive (deep :: rest) → motive (deep :: deep :: rest))
    (deepPart : ∀ part rest, part ≠ deep → motive rest → motive (deep :: part :: rest)) :
    ∀ parts, motive parts
  | [] => nil
  | .literal _ :: rest => literal _ rest (searchCases nil literal wild deepLast deepAgain deepPart rest)
  | .wild _ :: rest => wild _ rest (searchCases nil literal wild deepLast deepAgain deepPart rest)
  | [.deep] => deepLast
  | .deep :: .deep :: rest =>
    deepAgain rest (searchCases nil literal wild deepLast deepAgain deepPart (.deep :: rest))
  | .deep :: .literal _ :: rest =>
    deepPart _ rest nofun (searchCases nil literal wild deepLast deepAgain deepPart rest)
  | .deep :: .wild _ :: rest =>
    deepPart _ rest nofun (searchCases nil literal wild deepLast deepAgain deepPart rest)

theorem properName_of_dots {part : PatternPart} {name : String} (h : name ∈ part.dots) :
    (name = "." ∨ name = "..") ∧ Path.ProperName name := by
  have hdots : name = "." ∨ name = ".." := by
    rw [dots.eq_def] at h
    split at h
    next tokens =>
      have hmem := (List.mem_filter.mp h).1
      simpa using hmem
    next => cases h
  refine ⟨hdots, ?_⟩
  rcases hdots with rfl | rfl
  · exact ⟨by decide, by decide⟩
  · exact ⟨by decide, by decide⟩

theorem dots_of_level {tokens : List PatternToken} (h : (wild tokens).Level) :
    ∀ name ∈ (wild tokens).dots, name = "." := by
  intro name hname
  rcases (properName_of_dots hname).1 with rfl | rfl
  · rfl
  · exact absurd hname h.stays

theorem ofName?_eq_literal {cs : List Char} {name : String} (h : ofName? cs = some (literal name)) :
    name.toList = cs := by
  rw [ofName?] at h
  split at h
  · cases h
  · rw [Option.map_eq_some_iff] at h
    obtain ⟨tokens, htokens, h⟩ := h
    cases hliteral : PatternToken.literal? tokens with
    | none =>
      rw [hliteral] at h
      cases h
    | some found =>
      rw [hliteral] at h
      cases h
      rw [String.toList_ofList]
      exact PatternToken.literal?_ofName? htokens hliteral

/-- the parts of a pattern stand between slashes -/
theorem slashless_of_ofPattern? {pattern : String} {parts : List PatternPart}
    (h : ofPattern? pattern = some parts) : ∀ part ∈ parts, part.Slashless := by
  intro part hpart
  obtain ⟨cs, hcs, hname⟩ := exists_mem_of_forall₂ (Option.mapM_eq_some_iff.mp h) part hpart
  have hslash : '/' ∉ cs := by
    refine Text.not_mem_of_mem_parts (s := pattern.toList.tail) ?_
    split at hcs
    · exact List.dropLast_subset _ hcs
    · exact hcs
  cases part with
  | literal name =>
    rw [Slashless, ofName?_eq_literal hname]
    exact hslash
  | wild tokens | deep => trivial

end PatternPart

namespace Place

/-- where a name of a pattern leads; an empty one only asks for a directory -/
def next (p : Place) (name : String) : Place := if name = "" then p else p.step name

theorem suffix_next (p : Place) {name : String} (hname : name ≠ "..") : p <:+ p.next name := by
  rw [next, step, if_neg hname]
  split
  · exact List.suffix_refl p
  · split
    · exact List.suffix_refl p
    · exact List.suffix_cons name p

end Place

namespace Files

variable {f : Files} {path name : String} {p q : Place} {names : List String}
  {parts rest : List PatternPart}

/-! ## where paths lead -/

theorem walk_append (f : Files) (p : Place) (names more : List String) :
    f.walk p (names ++ more) = (f.walk p names).bind fun q => f.walk q more := by
  induction names generalizing p with
  | nil => rfl
  | cons name rest ih =>
    rw [List.cons_append, walk, walk]
    cases f.expectDirectory p with
    | error e => rfl
    | ok u => exact ih _

theorem expectDirectory_eq_ok_iff : f.expectDirectory p = .ok () ↔ f.entry? p = some .directory := by
  rw [expectDirectory]
  split
  next h => simp [h]
  next content h => simp [h]
  next h => simp [h]

/-- a path from the root on leads to a place; whether something is there is not looked at -/
structure Leads (f : Files) (path : String) (p : Place) : Prop where
  rooted : (Path.ofText path).rooted = true
  walk : f.walk [] (Path.ofText path).names = .ok p

theorem leads_root (f : Files) : f.Leads "/" [] := ⟨rfl, rfl⟩

theorem locate_of_leads (h : f.Leads path p) : f.locate path =
    match f.entry? p with
    | none => .error .notFound
    | some (.file _) => if (Path.ofText path).closed then .error .notADirectory else .ok p
    | some .directory => .ok p := by
  rw [locate]
  simp only [h.rooted, start, if_true, not_true_eq_false, and_false, if_false, h.walk]
  rfl

/-- a path is located where it leads -/
theorem Leads.unique (h : f.Leads path p) (hlocate : f.locate path = .ok q) : q = p := by
  rw [locate_of_leads h] at hlocate
  split at hlocate
  · cases hlocate
  · split at hlocate
    · cases hlocate
    · exact (Except.ok.inj hlocate).symm
  · exact (Except.ok.inj hlocate).symm

theorem isDirectory_of_leads (h : f.Leads path p) :
    f.isDirectory path = true ↔ f.entry? p = some .directory := by
  rw [isDirectory, locate_of_leads h]
  cases hentry : f.entry? p with
  | none => simp
  | some e =>
    cases e with
    | file content => cases (Path.ofText path).closed <;> simp [hentry]
    | directory => simp [hentry]

theorem Leads.step (h : f.Leads path p) (hdir : f.entry? p = some .directory)
    (hname : Path.ProperName name) : f.Leads (Path.join path name) (p.step name) where
  rooted := by
    rw [Path.ofText_join hname]
    exact h.rooted
  walk := by
    rw [Path.ofText_join hname, walk_append, h.walk]
    show f.walk p [name] = _
    rw [Files.walk, expectDirectory_eq_ok_iff.mpr hdir]
    rfl

theorem Leads.join (h : f.Leads path p) (hdir : f.entry? p = some .directory)
    (hname : Path.ProperName name) (hdots : ¬ Path.isDots name) :
    f.Leads (Path.join path name) (name :: p) := by
  rw [← Place.step_proper hdots p]
  exact h.step hdir hname

theorem ofText_join_empty (h : (Path.ofText path).rooted = true) :
    Path.ofText (Path.join path "") = ⟨true, (Path.ofText path).names, true⟩ := by
  have hne : path.toList ≠ [] := by
    intro hnil
    rw [Path.ofText_eq, hnil] at h
    cases h
  have hrooted : decide (path.toList.head? = some '/') = true := h
  have hhead : ("" : String).toList.head? ≠ some '/' := by decide
  rw [Path.join, if_neg hhead]
  by_cases hslash : path.toList.getLast? = some '/'
  · rw [if_pos (.inr hslash), String.append_empty, Path.ofText_eq, hrooted, hslash]
    rfl
  · have htext : (path ++ "/" ++ "").toList = path.toList ++ '/' :: [] := by
      rw [String.append_empty, String.toList_append]
      rfl
    rw [if_neg (not_or.mpr ⟨hne, hslash⟩), Path.ofText_eq, htext, Path.namesIn_append,
      List.head?_append_of_ne_nil _ hne, hrooted, List.getLast?_concat]
    simp [Path.ofText_eq, Path.namesIn, Text.parts]

theorem Leads.join_empty (h : f.Leads path p) : f.Leads (Path.join path "") p where
  rooted := by rw [ofText_join_empty h.rooted]
  walk := by
    rw [ofText_join_empty h.rooted]
    exact h.walk

theorem exists?_join_empty (h : f.Leads path p) :
    f.exists? (Path.join path "") = true ↔ f.entry? p = some .directory := by
  rw [exists?, locate_of_leads h.join_empty, ofText_join_empty h.rooted]
  cases f.entry? p with
  | none => simp [Except.isOk, Except.toBool]
  | some e => cases e <;> simp [Except.isOk, Except.toBool]

theorem exists?_join (h : f.Leads path p) (hname : Path.ProperName name) (hdots : ¬ Path.isDots name) :
    f.exists? (Path.join path name) = true ↔
      f.entry? p = some .directory ∧ (f.entry? (name :: p)).isSome = true := by
  by_cases hdir : f.entry? p = some .directory
  · rw [exists?, locate_of_leads (h.join hdir hname hdots), Path.ofText_join hname]
    cases f.entry? (name :: p) with
    | none => simp [Except.isOk, Except.toBool]
    | some e => cases e <;> simp [Except.isOk, Except.toBool, hdir]
  · refine ⟨fun hexists => absurd ?_ hdir, fun hboth => absurd hboth.1 hdir⟩
    cases hexpect : f.expectDirectory p with
    | ok u => exact expectDirectory_eq_ok_iff.mp hexpect
    | error e =>
      have hwalk : f.walk [] ((Path.ofText path).names ++ [name]) = .error e := by
        rw [walk_append, h.walk]
        show f.walk p [name] = _
        rw [walk, hexpect]
        rfl
      rw [exists?, locate] at hexists
      simp only [Path.ofText_join hname, start, h.rooted, if_true, hwalk] at hexists
      split at hexists <;> cases hexists

/-! ## what is below -/

theorem mem_below_iff {e : Entry} : (names, e) ∈ f.below p ↔
    names ≠ [] ∧ (names.reverse ++ p, e) ∈ f.entries := by
  rw [below, List.mem_filterMap]
  constructor
  · rintro ⟨⟨q, e'⟩, hmem, hq⟩
    dsimp only at hq
    split at hq
    next hcond =>
      cases hq
      have hsplit := List.take_append_drop (q.length - p.length) q
      rw [hcond.2] at hsplit
      rw [List.reverse_reverse, hsplit]
      refine ⟨fun hnil => ?_, hmem⟩
      have hlength := congrArg List.length hnil
      rw [List.length_reverse, List.length_take, List.length_nil] at hlength
      omega
    next => cases hq
  · rintro ⟨hne, hmem⟩
    refine ⟨_, hmem, ?_⟩
    have hlength : (names.reverse ++ p).length - p.length = names.reverse.length := by
      rw [List.length_append]
      omega
    have hpos : 0 < names.reverse.length := by
      rw [List.length_reverse]
      exact List.length_pos_iff.mpr hne
    dsimp only
    rw [hlength, List.drop_left, List.take_left, List.reverse_reverse, if_pos]
    rw [List.length_append]
    exact ⟨by omega, rfl⟩

theorem nodup_below (hf : f.Tidy) (p : Place) : ((f.below p).map Prod.fst).Nodup := by
  have hsub : ((f.below p).map fun x => x.1.reverse ++ p).Sublist (f.entries.map Prod.fst) := by
    rw [below]
    induction f.entries with
    | nil => exact .slnil
    | cons x rest ih =>
      obtain ⟨q, e⟩ := x
      rw [List.filterMap_cons, List.map_cons]
      dsimp only
      split
      next => exact ih.cons _
      next y hy =>
        split at hy
        next hcond =>
          cases hy
          have hsplit := List.take_append_drop (q.length - p.length) q
          rw [hcond.2] at hsplit
          rw [List.map_cons, List.reverse_reverse, hsplit]
          exact ih.cons_cons _
        next => cases hy
  refine List.Nodup.of_map (fun names => names.reverse ++ p) ?_
  rw [List.map_map]
  exact hf.nodup.sublist hsub

/-- the names on the way to everything below a place -/
def belowNames (f : Files) (path : String) : List (List String) := (f.belowPath path).map Prod.fst

theorem belowPath_of_leads (h : f.Leads path p) :
    f.belowPath path = if f.entry? p = some .directory then f.below p else [] := by
  rw [belowPath, locate_of_leads h]
  cases hentry : f.entry? p with
  | none => simp
  | some e =>
    cases e with
    | file content => cases (Path.ofText path).closed <;> simp [hentry]
    | directory => simp [hentry]

theorem mem_belowNames (h : f.Leads path p) (hmem : names ∈ f.belowNames path) :
    f.entry? p = some .directory ∧ names ≠ [] ∧ ∃ e, (names.reverse ++ p, e) ∈ f.entries := by
  rw [belowNames, belowPath_of_leads h] at hmem
  split at hmem
  next hdir =>
    obtain ⟨⟨names, e⟩, hbelow, rfl⟩ := List.mem_map.mp hmem
    obtain ⟨hne, hentry⟩ := mem_below_iff.mp hbelow
    exact ⟨hdir, hne, e, hentry⟩
  next => cases hmem

theorem Tidy.mem_belowNames_iff (hf : f.Tidy) (h : f.Leads path p) : names ∈ f.belowNames path ↔
    names ≠ [] ∧ (f.entry? (names.reverse ++ p)).isSome = true := by
  constructor
  · intro hmem
    obtain ⟨-, hne, e, hentry⟩ := mem_belowNames h hmem
    refine ⟨hne, ?_⟩
    rw [Files.entry?, if_neg (hf.proper _ hentry).1, hf.lookup hentry]
    rfl
  · rintro ⟨hne, hsome⟩
    obtain ⟨e, he⟩ := Option.isSome_iff_exists.mp hsome
    have hplace : names.reverse ++ p ≠ [] := by simp [hne]
    have hother : p ≠ names.reverse ++ p := by
      intro hsame
      have hlength := congrArg List.length hsame
      rw [List.length_append, List.length_reverse] at hlength
      have hpos := List.length_pos_iff.mpr hne
      omega
    have hdir := hf.directory_of_suffix he (List.suffix_append _ _) hother
    rw [belowNames, belowPath_of_leads h, if_pos hdir]
    exact List.mem_map.mpr ⟨(names, e), mem_below_iff.mpr ⟨hne, mem_entries hplace he⟩, rfl⟩

theorem Tidy.nodup_belowNames (hf : f.Tidy) (h : f.Leads path p) : (f.belowNames path).Nodup := by
  rw [belowNames, belowPath_of_leads h]
  split
  · exact nodup_below hf p
  · exact .nil

/-- the path to something below a place -/
theorem Tidy.leads_below (hf : f.Tidy) (h : f.Leads path p)
    (hsome : (f.entry? (names.reverse ++ p)).isSome = true) :
    f.Leads (names.foldl Path.join path) (names.reverse ++ p) := by
  induction names generalizing path p with
  | nil => exact h
  | cons name names ih =>
    rw [List.reverse_cons, List.append_assoc, List.singleton_append] at hsome ⊢
    obtain ⟨e, he⟩ := Option.isSome_iff_exists.mp hsome
    have hname := hf.proper_of_entry? he name (List.mem_append_right _ List.mem_cons_self)
    have hsuffix : p <:+ names.reverse ++ name :: p :=
      (List.suffix_cons name p).trans (List.suffix_append _ _)
    have hother : p ≠ names.reverse ++ name :: p := by
      intro hsame
      have hlength := congrArg List.length hsame
      rw [List.length_append, List.length_cons] at hlength
      omega
    exact ih (h.join (hf.directory_of_suffix he hsuffix hother) hname.proper hname.no_dots) hsome

/-! ## searches -/

/-- the search that goes on below a place, where the names on the way are accepted -/
def findBelow (f : Files) (accepts : List String → Bool) (rest : List PatternPart) (path : String) :
    List String :=
  (f.belowNames path).flatMap fun names =>
    if accepts names then f.find rest (names.foldl Path.join path) else []

theorem find_deep {part : PatternPart} (hpart : part ≠ .deep) (rest : List PatternPart) (path : String) :
    f.find (.deep :: part :: rest) path =
      f.findBelow (fun names => (names.getLast?.map part.accepts).getD false) rest path := by
  rw [find.eq_5 f path part rest hpart, findBelow, belowNames, List.flatMap_map]

def single (part : PatternPart) : List String → Bool
  | [name] => part.accepts name
  | _ => false

theorem find_wild (tokens : List PatternToken) (rest : List PatternPart) (path : String) :
    f.find (.wild tokens :: rest) path = f.findBelow (single (.wild tokens)) rest path ++
      (if f.isDirectory path then (PatternPart.wild tokens).dots else []).flatMap
        fun name => f.find rest (Path.join path name) := by
  rw [find.eq_6 f path (.wild tokens) rest nofun nofun nofun nofun, List.flatMap_append, findBelow,
    belowNames, List.flatMap_map]
  congr 1
  induction f.belowPath path with
  | nil => rfl
  | cons x xs ih =>
    obtain ⟨names, e⟩ := x
    rw [List.filterMap_cons, List.flatMap_cons, ← ih]
    match names with
    | [] => rfl
    | [name] =>
      rw [single]
      dsimp only
      by_cases haccepts : (PatternPart.wild tokens).accepts name = true
      · rw [if_pos haccepts, if_pos haccepts]
        rfl
      · rw [if_neg haccepts, if_neg haccepts]
        rfl
    | _ :: _ :: _ => rfl

theorem Tidy.isSome_tail (hf : f.Tidy) {e : Entry} (hp : f.entry? p = some e) :
    (f.entry? p.tail).isSome = true := by
  cases p with
  | nil => rfl
  | cons name around =>
    have hdir : f.entry? around = some .directory := hf.around _ (mem_entries (List.cons_ne_nil _ _) hp)
    rw [List.tail_cons, hdir]
    rfl

theorem find_literal (hf : f.Tidy) (hname : '/' ∉ name.toList) (h : f.Leads path p) :
    f.find (.literal name :: rest) path =
      if f.entry? p = some .directory ∧ (f.entry? (p.next name)).isSome = true then
        f.find rest (Path.join path name)
      else [] := by
  have hcond : (if Path.isDots name then f.isDirectory path else f.exists? (Path.join path name)) = true ↔
      f.entry? p = some .directory ∧ (f.entry? (p.next name)).isSome = true := by
    by_cases hdots : Path.isDots name = true
    · rw [if_pos hdots, isDirectory_of_leads h]
      refine ⟨fun hdir => ⟨hdir, ?_⟩, And.left⟩
      -- where a directory is, the dots lead to one
      simp only [Path.isDots, Bool.or_eq_true, decide_eq_true_eq] at hdots
      rcases hdots with rfl | rfl
      · show (f.entry? p).isSome = true
        rw [hdir]
        rfl
      · exact hf.isSome_tail hdir
    · rw [if_neg hdots]
      by_cases hempty : name = ""
      · subst hempty
        rw [Place.next, if_pos rfl, exists?_join_empty h]
        exact ⟨fun hdir => ⟨hdir, by rw [hdir]; rfl⟩, And.left⟩
      · rw [Place.next, if_neg hempty, Place.step_proper hdots]
        exact exists?_join h ⟨hempty, hname⟩ hdots
  rw [find]
  exact if_congr hcond rfl rfl

theorem Leads.next (h : f.Leads path p) (hname : '/' ∉ name.toList) (hdir : f.entry? p = some .directory) :
    f.Leads (Path.join path name) (p.next name) := by
  rw [Place.next]
  split
  next hempty =>
    rw [hempty]
    exact h.join_empty
  next hempty => exact h.step hdir ⟨hempty, hname⟩

theorem findBelow_below {accepts : List String → Bool} (hf : f.Tidy) (h : f.Leads path p)
    (hrest : ∀ path p, f.Leads path p → ∀ r ∈ f.find rest path, ∃ q, f.Leads r q ∧ p <:+ q) :
    ∀ r ∈ f.findBelow accepts rest path, ∃ q, f.Leads r q ∧ p <:+ q := by
  intro r hr
  obtain ⟨names, hnames, hr⟩ := List.mem_flatMap.mp hr
  split at hr
  next =>
    have hleads := hf.leads_below h ((hf.mem_belowNames_iff h).mp hnames).2
    obtain ⟨q, hq, hsuffix⟩ := hrest _ _ hleads r hr
    exact ⟨q, hq, (List.suffix_append _ _).trans hsuffix⟩
  next => cases hr

theorem find_last_below (hf : f.Tidy) (h : f.Leads path p) :
    ∀ r ∈ f.find [.deep] path, ∃ q, f.Leads r q ∧ p <:+ q ∧ f.entry? q = some .directory := by
  intro r hr
  rw [find, belowPath_of_leads h, List.mem_filterMap] at hr
  obtain ⟨⟨names, e⟩, hmem, hr⟩ := hr
  dsimp only at hr
  split at hr
  next hdir =>
    cases hr
    subst hdir
    split at hmem
    next =>
      obtain ⟨hne, hentry⟩ := mem_below_iff.mp hmem
      have hfound : f.entry? (names.reverse ++ p) = some .directory := by
        rw [Files.entry?, if_neg (hf.proper _ hentry).1, hf.lookup hentry]
      exact ⟨_, hf.leads_below h (by rw [hfound]; rfl), List.suffix_append _ _, hfound⟩
    next => cases hmem
  next => cases hr

/-- a search that does not climb stays below the place where it starts -/
theorem find_below (hf : f.Tidy) (hlevel : ∀ part ∈ parts, part.Level) (h : f.Leads path p) :
    ∀ r ∈ f.find parts path, ∃ q, f.Leads r q ∧ p <:+ q := by
  induction parts using PatternPart.searchCases generalizing path p with
  | nil =>
    intro r hr
    cases List.mem_singleton.mp hr
    exact ⟨p, h, List.suffix_refl p⟩
  | literal name rest ih =>
    obtain ⟨⟨hslash, hname⟩, hrest⟩ := List.forall_mem_cons.mp hlevel
    intro r hr
    rw [find_literal hf hslash h] at hr
    split at hr
    next hnext =>
      obtain ⟨q, hq, hsuffix⟩ := ih hrest (h.next hslash hnext.1) r hr
      exact ⟨q, hq, (p.suffix_next hname).trans hsuffix⟩
    next => cases hr
  | wild tokens rest ih =>
    obtain ⟨hpart, hrest⟩ := List.forall_mem_cons.mp hlevel
    intro r hr
    rw [find_wild, List.mem_append] at hr
    rcases hr with hbelow | hdots
    · exact findBelow_below hf h (fun path p hlead => ih hrest hlead) r hbelow
    · obtain ⟨name, hname, hr⟩ := List.mem_flatMap.mp hdots
      split at hname
      next hdir =>
        cases PatternPart.dots_of_level hpart name hname
        have hstep : f.Leads (Path.join path ".") (p.step ".") :=
          h.step ((isDirectory_of_leads h).mp hdir) ⟨by decide, by decide⟩
        exact ih hrest hstep r hr
      next => cases hname
  | deepLast =>
    intro r hr
    obtain ⟨q, hq, hsuffix, -⟩ := find_last_below hf h r hr
    exact ⟨q, hq, hsuffix⟩
  | deepAgain rest ih => exact ih (fun part hpart => hlevel part (List.mem_cons_of_mem _ hpart)) h
  | deepPart part rest hpart ih =>
    rw [find_deep hpart]
    have hrest : ∀ part ∈ rest, part.Level := fun x hx =>
      hlevel x (List.mem_cons_of_mem _ (List.mem_cons_of_mem _ hx))
    exact findBelow_below hf h fun path p hlead => ih hrest hlead

end Files
end ServiceGraph
