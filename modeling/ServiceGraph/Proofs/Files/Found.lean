import Mathlib.Algebra.GroupWithZero.Nat
import Mathlib.Data.List.Count
import ServiceGraph.Proofs.Files.Search

/-!
# What a pattern finds depends on what there is to be found

Whether a pattern finds a file, and how often, depends on nothing but the directories around this file, as
long as nothing climbs. It may climb, too, where both trees are known to have a directory: around files
that stand in both. So if everything that it finds in two trees is such a file, it finds the same number of
paths.

* `Place.OnWay`: a place on the way to something known; `PatternPart.Descends`: a search that climbs only
  there;
* `PatternPart.descends_of_stays`, `PatternPart.descends_of_leading`: a pattern that does not climb, and one
  that climbs at first only;
* `Files.countP_find_eq`: how often a file is found;
* `Files.length_matching?_eq`: a pattern that finds known files finds the same number of paths.
-/

namespace ServiceGraph

variable {known : Place → Prop} {p q t : Place} {parts rest : List PatternPart}

/-! ## searches that descend -/

/-- the place of something known, or that of a directory around it -/
def Place.OnWay (known : Place → Prop) (p : Place) : Prop := ∃ t, known t ∧ p <:+ t

theorem Place.OnWay.suffix (h : q.OnWay known) (hp : p <:+ q) : p.OnWay known := by
  obtain ⟨t, ht, hq⟩ := h
  exact ⟨t, ht, hp.trans hq⟩

namespace PatternPart

/-- a search with these parts from this place climbs only where it is on the way to something known -/
def Descends (known : Place → Prop) : List PatternPart → Place → Prop
  | [], _ => True
  | .literal name :: rest, p => (name = ".." → p.OnWay known) ∧ Descends known rest (p.next name)
  | part :: rest, p => (part.Climbs → p.OnWay known) ∧ ∀ other ∈ rest, ¬ other.Climbs

theorem descends_of_stays (h : ∀ part ∈ parts, ¬ part.Climbs) (p : Place) : Descends known parts p := by
  induction parts generalizing p with
  | nil => trivial
  | cons part rest ih =>
    obtain ⟨hpart, hrest⟩ := List.forall_mem_cons.mp h
    cases part with
    | literal name => exact ⟨fun hname => absurd hname hpart, ih hrest _⟩
    | wild _ | deep => exact ⟨fun hclimbs => absurd hclimbs hpart, hrest⟩

/-- what is on no way to anything known stays so, and nothing climbs -/
theorem stays_of_descends (h : Descends known parts p) (hoff : ¬ p.OnWay known) :
    ∀ part ∈ parts, ¬ part.Climbs := by
  induction parts generalizing p with
  | nil => exact nofun
  | cons part rest ih =>
    obtain ⟨hpart, hrest⟩ : (part.Climbs → p.OnWay known) ∧ ∀ other ∈ rest, ¬ other.Climbs := by
      cases part with
      | literal name =>
        obtain ⟨hname, hrest⟩ := h
        have hbelow := p.suffix_next fun heq => hoff (hname heq)
        exact ⟨hname, ih hrest fun hnext => hoff (hnext.suffix hbelow)⟩
      | wild _ | deep => exact h
    exact List.forall_mem_cons.mpr ⟨fun hclimbs => hoff (hpart hclimbs), hrest⟩

theorem descends_map_literal {names : List String} (hnames : ∀ name ∈ names, Place.ProperStep name)
    (h : Descends known rest (p.follow names)) : Descends known (names.map literal ++ rest) p := by
  induction names generalizing p with
  | nil => exact h
  | cons name names ih =>
    obtain ⟨hname, hrest⟩ := List.forall_mem_cons.mp hnames
    refine ⟨fun hclimbs => absurd ?_ hname.no_dots, ih hrest ?_⟩
    · rw [hclimbs]
      rfl
    · rw [Place.next, if_neg hname.proper.ne_empty]
      exact h

theorem descends_replicate (hp : p.OnWay known) (hrest : ∀ part ∈ rest, ¬ part.Climbs) (n : Nat) :
    Descends known (List.replicate n (literal "..") ++ rest) p := by
  induction n generalizing p with
  | zero => exact descends_of_stays hrest p
  | succ n ih => exact ⟨fun _ => hp, ih (hp.suffix (List.tail_suffix p))⟩

/-- **A pattern may climb at first.** From a directory on the way to something known it may go to any
directory around, if nothing climbs after that. -/
theorem descends_of_leading (hproper : p.Proper) (hp : p.OnWay known)
    (hrest : ∀ part ∈ rest, ¬ part.Climbs) (n : Nat) :
    Descends known (p.reverse.map literal ++ (List.replicate n (literal "..") ++ rest)) [] := by
  refine descends_map_literal (fun name hname => hproper name (List.mem_reverse.mp hname)) ?_
  rw [hproper.follow_reverse]
  exact descends_replicate hp hrest n

end PatternPart

namespace Files

variable {f g : Files} {path name r : String} {names : List String}

/-! ## how often a file is found -/

/-- a path leads to this place, and something is there -/
def reaches (f : Files) (t : Place) (r : String) : Bool := decide ((f.locate r).toOption = some t)

theorem reaches_of_leads {content : List UInt8} (ht : f.entry? t = some (.file content))
    (h : f.Leads r q) : f.reaches t r = true ↔ q = t ∧ (Path.ofText r).closed = false := by
  rw [reaches, decide_eq_true_eq]
  constructor
  · intro hreaches
    cases hlocate : f.locate r with
    | error e =>
      rw [hlocate] at hreaches
      cases hreaches
    | ok place =>
      rw [hlocate] at hreaches
      obtain rfl : place = t := Option.some.inj hreaches
      obtain rfl := h.unique hlocate
      rw [locate_of_leads h, ht] at hlocate
      dsimp only at hlocate
      split at hlocate
      next => cases hlocate
      next hopen => exact ⟨rfl, Bool.not_eq_true _ ▸ hopen⟩
  · rintro ⟨rfl, hopen⟩
    rw [locate_of_leads h, ht, hopen]
    rfl

/-- what does not lie on the way to a file does not lead there -/
theorem countP_eq_zero {content : List UInt8} (ht : f.entry? t = some (.file content)) {found : List String}
    (hfound : ∀ r ∈ found, ∃ q, f.Leads r q ∧ p <:+ q) (hp : ¬ p <:+ t) :
    found.countP (f.reaches t) = 0 := by
  rw [List.countP_eq_zero]
  intro r hr hreaches
  obtain ⟨q, hq, hsuffix⟩ := hfound r hr
  obtain ⟨rfl, -⟩ := (reaches_of_leads ht hq).mp hreaches
  exact hp hsuffix

/-- on the way to a file there are directories, up to the file -/
theorem Tidy.directory_iff (hf : f.Tidy) {content : List UInt8} (ht : f.entry? t = some (.file content))
    (hp : p <:+ t) : f.entry? p = some .directory ↔ p ≠ t := by
  refine ⟨?_, hf.directory_of_suffix ht hp⟩
  rintro hdir rfl
  cases hdir.symm.trans ht

theorem Tidy.isSome_of_suffix (hf : f.Tidy) {content : List UInt8}
    (ht : f.entry? t = some (.file content)) (hp : p <:+ t) : (f.entry? p).isSome = true := by
  by_cases hsame : p = t
  · rw [hsame, ht]
    rfl
  · rw [hf.directory_of_suffix ht hp hsame]
    rfl

/-- the known places are those of files in both trees -/
def Share (f g : Files) (known : Place → Prop) : Prop :=
  ∀ t, known t → (∃ content, f.entry? t = some (.file content)) ∧
    ∃ content, g.entry? t = some (.file content)

theorem Share.isSome (hshare : Share f g known) (hf : f.Tidy) (hg : g.Tidy) (hp : p.OnWay known) :
    (f.entry? p).isSome = true ∧ (g.entry? p).isSome = true := by
  obtain ⟨t, ht, hsuffix⟩ := hp
  obtain ⟨⟨content, hft⟩, content', hgt⟩ := hshare t ht
  exact ⟨hf.isSome_of_suffix hft hsuffix, hg.isSome_of_suffix hgt hsuffix⟩

theorem Share.directory_iff (hshare : Share f g known) (hf : f.Tidy) (hg : g.Tidy) (hp : p.OnWay known) :
    f.entry? p = some .directory ↔ g.entry? p = some .directory := by
  obtain ⟨t, ht, hsuffix⟩ := hp
  obtain ⟨⟨content, hft⟩, content', hgt⟩ := hshare t ht
  exact (hf.directory_iff hft hsuffix).trans (hg.directory_iff hgt hsuffix).symm

/-- two sums agree when they do so on what counts in both -/
theorem sum_map_eq {α : Type} {l l' : List α} {c c' : α → Nat} {P : α → Bool} (hl : l.Nodup)
    (hl' : l'.Nodup) (hmem : ∀ x, P x = true → (x ∈ l ↔ x ∈ l'))
    (hc : ∀ x ∈ l, P x = false → c x = 0) (hc' : ∀ x ∈ l', P x = false → c' x = 0)
    (heq : ∀ x ∈ l, P x = true → c x = c' x) : (l.map c).sum = (l'.map c').sum := by
  have hfilter : ∀ (l : List α) (c : α → Nat), (∀ x ∈ l, P x = false → c x = 0) →
      (l.map c).sum = ((l.filter P).map c).sum := by
    intro l c hzero
    induction l with
    | nil => rfl
    | cons x l ih =>
      obtain ⟨hx, hrest⟩ := List.forall_mem_cons.mp hzero
      rw [List.map_cons, List.sum_cons, ih hrest]
      by_cases hP : P x = true
      · rw [List.filter_cons_of_pos hP, List.map_cons, List.sum_cons]
      · rw [List.filter_cons_of_neg hP, hx (Bool.not_eq_true _ ▸ hP), Nat.zero_add]
  have hperm : (l.filter P).Perm (l'.filter P) := by
    rw [List.perm_ext_iff_of_nodup (hl.filter P) (hl'.filter P)]
    intro x
    rw [List.mem_filter, List.mem_filter]
    exact ⟨fun ⟨hx, hP⟩ => ⟨(hmem x hP).mp hx, hP⟩, fun ⟨hx, hP⟩ => ⟨(hmem x hP).mpr hx, hP⟩⟩
  rw [hfilter l c hc, hfilter l' c' hc', ← (hperm.map c').sum_nat]
  congr 1
  refine List.map_congr_left fun x hx => ?_
  obtain ⟨hx, hP⟩ := List.mem_filter.mp hx
  exact heq x hx hP

section

variable {content content' : List UInt8}

theorem countP_findBelow_eq (hf : f.Tidy) (hg : g.Tidy) (hft : f.entry? t = some (.file content))
    (hgt : g.entry? t = some (.file content')) (hlevel : ∀ part ∈ rest, part.Level)
    (ih : ∀ path p, f.Leads path p → g.Leads path p →
      (f.find rest path).countP (f.reaches t) = (g.find rest path).countP (g.reaches t))
    (accepts : List String → Bool) (h : f.Leads path p) (h' : g.Leads path p) :
    (f.findBelow accepts rest path).countP (f.reaches t) =
      (g.findBelow accepts rest path).countP (g.reaches t) := by
  have hzero : ∀ {f : Files} {content : List UInt8}, f.Tidy → f.entry? t = some (.file content) →
      f.Leads path p → ∀ names ∈ f.belowNames path, decide (names.reverse ++ p <:+ t) = false →
      (if accepts names then f.find rest (names.foldl Path.join path) else []).countP (f.reaches t) = 0 := by
    intro f content hf hft h names hnames hoff
    split
    next =>
      have hleads := hf.leads_below h ((hf.mem_belowNames_iff h).mp hnames).2
      exact countP_eq_zero hft (find_below hf hlevel hleads) (of_decide_eq_false hoff)
    next => rfl
  rw [findBelow, findBelow, List.countP_flatMap, List.countP_flatMap]
  refine sum_map_eq (P := fun names => decide (names.reverse ++ p <:+ t)) (hf.nodup_belowNames h)
    (hg.nodup_belowNames h') (fun names hon => ?_) (hzero hf hft h) (hzero hg hgt h')
    fun names hnames hon => ?_
  · have hsuffix := of_decide_eq_true hon
    rw [hf.mem_belowNames_iff h, hg.mem_belowNames_iff h', hf.isSome_of_suffix hft hsuffix,
      hg.isSome_of_suffix hgt hsuffix]
  · have hsuffix := of_decide_eq_true hon
    dsimp only [Function.comp]
    split
    next =>
      exact ih _ _ (hf.leads_below h (hf.isSome_of_suffix hft hsuffix))
        (hg.leads_below h' (hg.isSome_of_suffix hgt hsuffix))
    next => rfl

theorem countP_find_literal (hf : f.Tidy) (hft : f.entry? t = some (.file content))
    (hname : '/' ∉ name.toList) (hlevel : ∀ part ∈ rest, part.Level) (h : f.Leads path p)
    (hnext : ¬ p.next name <:+ t) : (f.find (.literal name :: rest) path).countP (f.reaches t) = 0 := by
  rw [find_literal hf hname h]
  split
  next hcond => exact countP_eq_zero hft (find_below hf hlevel (h.next hname hcond.1)) hnext
  next => rfl

theorem countP_find_last (hf : f.Tidy) (hft : f.entry? t = some (.file content)) (h : f.Leads path p) :
    (f.find [.deep] path).countP (f.reaches t) = 0 := by
  rw [List.countP_eq_zero]
  intro r hr hreaches
  obtain ⟨q, hq, -, hdir⟩ := find_last_below hf h r hr
  obtain ⟨rfl, -⟩ := (reaches_of_leads hft hq).mp hreaches
  cases hdir.symm.trans hft

/-- **A file is found equally often** in two trees in which it stands, whatever else there is, if the
search climbs only on the way to files that stand in both. -/
theorem countP_find_eq (hf : f.Tidy) (hg : g.Tidy) (hshare : Share f g known) (ht : known t)
    (hslash : ∀ part ∈ parts, part.Slashless) (hdescends : PatternPart.Descends known parts p)
    (h : f.Leads path p) (h' : g.Leads path p) :
    (f.find parts path).countP (f.reaches t) = (g.find parts path).countP (g.reaches t) := by
  obtain ⟨⟨content, hft⟩, content', hgt⟩ := hshare t ht
  induction parts using PatternPart.searchCases generalizing path p with
  | nil =>
    refine List.countP_congr fun r hr => ?_
    cases List.mem_singleton.mp hr
    exact (reaches_of_leads hft h).trans (reaches_of_leads hgt h').symm
  | literal name rest ih =>
    obtain ⟨hname, hrest⟩ := List.forall_mem_cons.mp hslash
    obtain ⟨hclimbs, hdescends⟩ := hdescends
    by_cases hnext : (p.next name).OnWay known
    · have hway : p.OnWay known := by
        by_cases hup : name = ".."
        · exact hclimbs hup
        · exact hnext.suffix (p.suffix_next hup)
      have hsome := hshare.isSome hf hg hnext
      rw [find_literal hf hname h, find_literal hg hname h']
      by_cases hdir : f.entry? p = some .directory
      · have hdir' := (hshare.directory_iff hf hg hway).mp hdir
        rw [if_pos ⟨hdir, hsome.1⟩, if_pos ⟨hdir', hsome.2⟩]
        exact ih hrest hdescends (h.next hname hdir) (h'.next hname hdir')
      · have hdir' := mt (hshare.directory_iff hf hg hway).mpr hdir
        rw [if_neg fun hboth => hdir hboth.1, if_neg fun hboth => hdir' hboth.1]
        rfl
    · have hstays := PatternPart.stays_of_descends hdescends hnext
      have hlevel : ∀ part ∈ rest, part.Level := fun part hmem => ⟨hrest part hmem, hstays part hmem⟩
      have hoff : ¬ p.next name <:+ t := fun hsuffix => hnext ⟨t, ht, hsuffix⟩
      rw [countP_find_literal hf hft hname hlevel h hoff, countP_find_literal hg hgt hname hlevel h' hoff]
  | wild tokens rest ih =>
    obtain ⟨-, hrest⟩ := List.forall_mem_cons.mp hslash
    by_cases hway : p.OnWay known
    · obtain ⟨-, hstays⟩ := hdescends
      have hlevel : ∀ part ∈ rest, part.Level := fun part hmem => ⟨hrest part hmem, hstays part hmem⟩
      have hbelow : ∀ path p, f.Leads path p → g.Leads path p →
          (f.find rest path).countP (f.reaches t) = (g.find rest path).countP (g.reaches t) :=
        fun path p => ih hrest (PatternPart.descends_of_stays hstays p)
      rw [find_wild, find_wild, List.countP_append, List.countP_append,
        countP_findBelow_eq hf hg hft hgt hlevel hbelow _ h h']
      congr 1
      -- dots are found where a directory is, in both trees or in neither
      by_cases hdir : f.entry? p = some .directory
      · have hdir' := (hshare.directory_iff hf hg hway).mp hdir
        rw [(isDirectory_of_leads h).mpr hdir, (isDirectory_of_leads h').mpr hdir', List.countP_flatMap,
          List.countP_flatMap]
        congr 1
        refine List.map_congr_left fun name hname => ?_
        have hproper := (PatternPart.properName_of_dots hname).2
        exact hbelow _ _ (h.step hdir hproper) (h'.step hdir' hproper)
      · have hdir' := mt (hshare.directory_iff hf hg hway).mpr hdir
        rw [if_neg (mt (isDirectory_of_leads h).mp hdir), if_neg (mt (isDirectory_of_leads h').mp hdir')]
        rfl
    · have hstays := PatternPart.stays_of_descends hdescends hway
      have hlevel : ∀ part ∈ .wild tokens :: rest, part.Level := fun part hmem =>
        ⟨hslash part hmem, hstays part hmem⟩
      have hoff : ¬ p <:+ t := fun hsuffix => hway ⟨t, ht, hsuffix⟩
      rw [countP_eq_zero hft (find_below hf hlevel h) hoff, countP_eq_zero hgt (find_below hg hlevel h') hoff]
  | deepLast => rw [countP_find_last hf hft h, countP_find_last hg hgt h']
  | deepAgain rest ih =>
    obtain ⟨-, hrest⟩ := List.forall_mem_cons.mp hslash
    exact ih hrest (PatternPart.descends_of_stays hdescends.2 p) h h'
  | deepPart part rest hpart ih =>
    obtain ⟨-, hrest⟩ := List.forall_mem_cons.mp hslash
    obtain ⟨-, hrest⟩ := List.forall_mem_cons.mp hrest
    obtain ⟨-, hstays⟩ := List.forall_mem_cons.mp hdescends.2
    have hlevel : ∀ part ∈ rest, part.Level := fun part hmem => ⟨hrest part hmem, hstays part hmem⟩
    rw [find_deep hpart, find_deep hpart]
    exact countP_findBelow_eq hf hg hft hgt hlevel
      (fun path p => ih hrest (PatternPart.descends_of_stays hstays p)) _ h h'

theorem count_located (f : Files) (t : Place) (found : List String) :
    (found.map fun r => (f.locate r).toOption).count (some t) = found.countP (f.reaches t) := by
  rw [List.count, List.countP_map]
  refine List.countP_congr fun r _ => ?_
  rw [reaches, decide_eq_true_eq, Function.comp, beq_iff_eq]

/-- equally many are found if nothing else is found than files that stand in both trees -/
theorem length_find_eq (hf : f.Tidy) (hg : g.Tidy) (hshare : Share f g known)
    (hslash : ∀ part ∈ parts, part.Slashless) (hdescends : PatternPart.Descends known parts [])
    (h : ∀ r ∈ f.find parts "/", ∃ t, known t ∧ f.locate r = .ok t)
    (h' : ∀ r ∈ g.find parts "/", ∃ t, known t ∧ g.locate r = .ok t) :
    (g.find parts "/").length = (f.find parts "/").length := by
  have hother : ∀ (f : Files) (found : List String) (a : Option Place),
      (∀ r ∈ found, ∃ t, known t ∧ f.locate r = .ok t) → (¬ ∃ t, known t ∧ a = some t) →
      (found.map fun r => (f.locate r).toOption).count a = 0 := by
    intro f found a hfound ha
    refine List.count_eq_zero.mpr fun hmem => ha ?_
    obtain ⟨r, hr, rfl⟩ := List.mem_map.mp hmem
    obtain ⟨t, ht, hlocate⟩ := hfound r hr
    exact ⟨t, ht, by rw [hlocate]; rfl⟩
  have hperm : ((g.find parts "/").map fun r => (g.locate r).toOption).Perm
      ((f.find parts "/").map fun r => (f.locate r).toOption) := by
    rw [List.perm_iff_count]
    intro a
    by_cases ha : ∃ t, known t ∧ a = some t
    · obtain ⟨t, ht, rfl⟩ := ha
      rw [count_located, count_located]
      exact (countP_find_eq hf hg hshare ht hslash hdescends (leads_root f) (leads_root g)).symm
    · rw [hother g _ a h' ha, hother f _ a h ha]
  have hlength := hperm.length_eq
  rwa [List.length_map, List.length_map] at hlength

theorem matching?_eq_some {pattern : String} {paths : List String} (h : f.matching? pattern = some paths) :
    ∃ parts, PatternPart.ofPattern? pattern = some parts ∧
      paths.Perm (if (Path.ofText pattern).closed then
        (if parts = [] then [] else f.find parts "/").filter f.isDirectory
      else if parts = [] then [] else f.find parts "/") := by
  rw [matching?] at h
  cases hparts : PatternPart.ofPattern? pattern with
  | none =>
    rw [hparts] at h
    cases h
  | some parts =>
    rw [hparts] at h
    cases h
    exact ⟨parts, rfl, List.mergeSort_perm _ _⟩

/-- **A pattern that descends** names equally many paths in two trees, if it names nothing but files that
stand in both of them. -/
theorem length_matching?_eq {pattern : String} {paths paths' : List String} (hf : f.Tidy) (hg : g.Tidy)
    (hshare : Share f g known)
    (hdescends : ∀ parts, PatternPart.ofPattern? pattern = some parts → PatternPart.Descends known parts [])
    (h : f.matching? pattern = some paths) (hpaths : ∀ r ∈ paths, ∃ t, known t ∧ f.locate r = .ok t)
    (h' : g.matching? pattern = some paths') (hpaths' : ∀ r ∈ paths', ∃ t, known t ∧ g.locate r = .ok t) :
    paths'.length = paths.length := by
  obtain ⟨parts, hparts, hperm⟩ := matching?_eq_some h
  obtain ⟨parts', hparts', hperm'⟩ := matching?_eq_some h'
  obtain rfl : parts' = parts := Option.some.inj (hparts'.symm.trans hparts)
  have hfound := fun r hr => hpaths r (hperm.mem_iff.mpr hr)
  have hfound' := fun r hr => hpaths' r (hperm'.mem_iff.mpr hr)
  rw [hperm.length_eq, hperm'.length_eq]
  by_cases hclosed : (Path.ofText pattern).closed = true
  · -- what a closed pattern names are directories, and no directory is known
    have hnone : ∀ (f : Files) (found : List String),
        (∀ t, known t → ∃ content, f.entry? t = some (.file content)) →
        (∀ r ∈ found.filter f.isDirectory, ∃ t, known t ∧ f.locate r = .ok t) →
        found.filter f.isDirectory = [] := by
      intro f found hfiles hfound
      refine List.eq_nil_iff_forall_not_mem.mpr fun r hr => ?_
      obtain ⟨t, ht, hlocate⟩ := hfound r hr
      obtain ⟨content, hcontent⟩ := hfiles t ht
      have hdir := (List.mem_filter.mp hr).2
      simp only [isDirectory, hlocate, hcontent] at hdir
      simp at hdir
    rw [if_pos hclosed] at hfound hfound' ⊢
    rw [if_pos hclosed, hnone f _ (fun t ht => (hshare t ht).1) hfound,
      hnone g _ (fun t ht => (hshare t ht).2) hfound']
  · rw [if_neg hclosed] at hfound hfound' ⊢
    rw [if_neg hclosed]
    by_cases hnil : parts' = []
    · rw [if_pos hnil, if_pos hnil]
    · rw [if_neg hnil] at hfound hfound' ⊢
      rw [if_neg hnil]
      exact length_find_eq hf hg hshare (PatternPart.slashless_of_ofPattern? hparts)
        (hdescends parts' hparts) hfound hfound'

end

end Files
end ServiceGraph
