import ServiceGraph.Config.Include
import ServiceGraph.Proofs.Files.Places

/-!
# The path that stands for a file

Where places have proper names, the path of a place leads to that place from everywhere, so two places
have two paths.

* `Place.Proper`: names that files can have: not empty, not made of dots, without slash and NUL;
* `Files.Tidy`: a tree of files with such names;
* `Place.ofText_path`, `Files.placeOf_path`, `Place.path_inj`: the path of a place, and where it leads;
* `Path.absolute?_path`: it is its own path from the root on;
* `Files.Tidy.locate`: what is located has such names;
* `ConfigFiles.entry?_of_contents`: the text by which the loading knows a file is that of the file.
-/

namespace ServiceGraph

namespace Place

variable {p q : Place} {name : String} {names : List String}

structure ProperStep (name : String) : Prop where
  proper : Path.ProperName name
  no_dots : ¬ Path.isDots name
  no_nul : '\x00' ∉ name.toList

instance decidableProperStep (name : String) : Decidable (ProperStep name) :=
  decidable_of_iff ((name ≠ "" ∧ '/' ∉ name.toList) ∧ ¬ Path.isDots name ∧ '\x00' ∉ name.toList)
    ⟨fun h => ⟨⟨h.1.1, h.1.2⟩, h.2.1, h.2.2⟩,
      fun h => ⟨⟨h.proper.ne_empty, h.proper.no_slash⟩, h.no_dots, h.no_nul⟩⟩

def Proper (p : Place) : Prop := ∀ name ∈ p, ProperStep name

instance decidableProper (p : Place) : Decidable p.Proper := List.decidableBAll ProperStep p

theorem Proper.of_cons (h : Proper (name :: p)) : ProperStep name ∧ Proper p :=
  List.forall_mem_cons.mp h

theorem step_proper (h : ¬ Path.isDots name) (p : Place) : p.step name = name :: p := by
  simp only [Path.isDots, Bool.or_eq_true, decide_eq_true_eq, not_or] at h
  rw [step, if_neg h.1, if_neg h.2]

theorem Proper.follow_reverse (h : p.Proper) : Place.follow [] p.reverse = p := by
  induction p with
  | nil => rfl
  | cons name p ih =>
    obtain ⟨hname, hp⟩ := h.of_cons
    rw [List.reverse_cons, follow_append, ih hp]
    exact step_proper hname.no_dots p

theorem path_cons (hname : Path.ProperName name)
    (hp : Path.ofText p.path = ⟨true, p.reverse, p = []⟩) : path (name :: p) = Path.join p.path name := by
  rw [Path.join, if_neg hname.head?_ne]
  by_cases hnil : p = []
  · subst hnil
    rw [if_pos (.inr rfl), path, path, List.reverse_singleton, String.intercalate_singleton]
    rfl
  · have hclosed : decide (p.path.toList.getLast? = some '/') = decide (p = []) :=
      congrArg Path.closed hp
    have hopen : p.path.toList.getLast? ≠ some '/' := by
      rw [decide_eq_false hnil] at hclosed
      exact of_decide_eq_false hclosed
    have hfull : p.path.toList ≠ [] := by
      rw [path, String.toList_append]
      exact List.append_ne_nil_of_left_ne_nil (by decide) _
    rw [if_neg (not_or.mpr ⟨hfull, hopen⟩), path, List.reverse_cons,
      String.intercalate_append_of_ne_nil (by simpa using hnil) (List.cons_ne_nil _ _),
      String.intercalate_singleton, path, String.append_assoc, String.append_assoc,
      String.append_assoc]

/-- the path of a place, taken apart -/
theorem ofText_path (h : p.Proper) : Path.ofText p.path = ⟨true, p.reverse, p = []⟩ := by
  induction p with
  | nil => rfl
  | cons name p ih =>
    obtain ⟨⟨hname, -, -⟩, hp⟩ := h.of_cons
    rw [path_cons hname (ih hp), Path.ofText_join hname, ih hp, List.reverse_cons]
    rfl

theorem path_inj (hp : p.Proper) (hq : q.Proper) (h : p.path = q.path) : p = q := by
  have hnames := congrArg (fun text => (Path.ofText text).names) h
  simp only [ofText_path hp, ofText_path hq] at hnames
  exact List.reverse_inj.mp hnames

theorem join_all (h : p.Proper) : p.reverse.foldl Path.join "/" = p.path := by
  induction p with
  | nil => rfl
  | cons name p ih =>
    obtain ⟨⟨hname, -, -⟩, hp⟩ := h.of_cons
    rw [List.reverse_cons, List.foldl_append, ih hp, path_cons hname (ofText_path hp)]
    rfl

/-- one slash is at the start of the path -/
theorem path_start (h : p.Proper) (hne : p ≠ []) :
    ∃ c cs, p.path.toList = '/' :: c :: cs ∧ c ≠ '/' := by
  induction p with
  | nil => exact absurd rfl hne
  | cons name p ih =>
    obtain ⟨⟨hname, -, -⟩, hp⟩ := h.of_cons
    by_cases hnil : p = []
    · subst hnil
      obtain ⟨c, cs, hcs⟩ := List.exists_cons_of_ne_nil hname.toList_ne_nil
      refine ⟨c, cs, ?_, ?_⟩
      · rw [path, List.reverse_singleton, String.intercalate_singleton, String.toList_append, hcs]
        rfl
      · rintro rfl
        exact hname.no_slash (hcs ▸ List.mem_cons_self)
    · obtain ⟨c, cs, hcs, hc⟩ := ih hp hnil
      refine ⟨c, cs ++ '/' :: name.toList, ?_, hc⟩
      rw [path, List.reverse_cons, String.intercalate_append_of_ne_nil (by simpa using hnil)
        (List.cons_ne_nil _ _), String.intercalate_singleton, ← String.append_assoc,
        ← String.append_assoc, ← path, String.toList_append, String.toList_append, hcs]
      simp

end Place

theorem Path.absolute?_path {p : Place} (h : p.Proper) (hne : p ≠ []) (here : String) :
    absolute? here p.path = some p.path := by
  obtain ⟨c, cs, hcs, hc⟩ := Place.path_start h hne
  have hfilter : p.reverse.filter (· ≠ ".") = p.reverse := by
    rw [List.filter_eq_self]
    intro name hname
    have hdots := (h name (List.mem_reverse.mp hname)).no_dots
    simp only [isDots, Bool.or_eq_true, decide_eq_true_eq, not_or] at hdots
    simpa using hdots.1
  have hfull : p.path ≠ "" := by
    intro hempty
    rw [hempty] at hcs
    cases hcs
  rw [absolute?]
  simp only [Place.ofText_path h, hfilter, if_true]
  rw [if_neg hfull, decide_eq_false hne, if_neg Bool.false_ne_true, hcs]
  split
  · rw [Place.join_all h]
  next heq => exact absurd (List.cons.inj (List.cons.inj heq).2).1 hc
  · rw [Place.join_all h]

namespace Files

variable {f : Files} {p : Place} {text : String} {content : List UInt8}

/-- a tree whose files and directories have proper names, one thing at each place, and directories
around it -/
structure Tidy (f : Files) : Prop where
  proper : ∀ x ∈ f.entries, x.1 ≠ [] ∧ x.1.Proper
  nodup : (f.entries.map Prod.fst).Nodup
  around : ∀ x ∈ f.entries, f.entry? x.1.tail = some .directory

instance decidableTidy (f : Files) : Decidable f.Tidy :=
  decidable_of_iff ((∀ x ∈ f.entries, x.1 ≠ [] ∧ x.1.Proper) ∧ (f.entries.map Prod.fst).Nodup ∧
      ∀ x ∈ f.entries, f.entry? x.1.tail = some .directory)
    ⟨fun h => ⟨h.1, h.2.1, h.2.2⟩, fun h => ⟨h.proper, h.nodup, h.around⟩⟩

theorem Tidy.lookup (h : f.Tidy) {e : Entry} (hmem : (p, e) ∈ f.entries) :
    f.entries.lookup p = some e := by
  obtain ⟨before, after, hsplit⟩ := List.append_of_mem hmem
  refine List.lookup_eq_some_iff.mpr ⟨before, after, hsplit, fun x hx => ?_⟩
  have hnodup := h.nodup
  rw [hsplit, List.map_append, List.map_cons] at hnodup
  have hapart := (List.nodup_append.mp hnodup).2.2
  rw [bne_iff_ne]
  exact (hapart _ (List.mem_map.mpr ⟨x, hx, rfl⟩) _ List.mem_cons_self).symm

/-- the places around something are those of directories -/
theorem Tidy.directory_of_suffix (h : f.Tidy) {q : Place} {e : Entry} (hq : f.entry? q = some e)
    (hsuffix : p <:+ q) (hne : p ≠ q) : f.entry? p = some .directory := by
  induction q generalizing e with
  | nil => exact absurd (List.suffix_nil.mp hsuffix) hne
  | cons name q ih =>
    have haround := h.around _ (mem_entries (List.cons_ne_nil _ _) hq)
    rcases List.suffix_cons_iff.mp hsuffix with hsame | hsuffix
    · exact absurd hsame hne
    · by_cases hp : p = q
      · rw [hp]
        exact haround
      · exact ih haround hsuffix hp

theorem placeOf_path (h : p.Proper) (f : Files) : f.placeOf (Path.ofText p.path) = p := by
  rw [Place.ofText_path h, placeOf, start, if_pos rfl]
  exact h.follow_reverse

theorem Tidy.proper_of_entry? (h : f.Tidy) {e : Entry} (hentry : f.entry? p = some e) : p.Proper := by
  by_cases hroot : p = []
  · exact hroot ▸ fun _ hx => absurd hx List.not_mem_nil
  · exact (h.proper (p, e) (mem_entries hroot hentry)).2

theorem Tidy.locate (h : f.Tidy) (hplace : f.locate text = .ok p) : p.Proper := by
  obtain ⟨e, he⟩ := entry?_of_locate hplace
  exact h.proper_of_entry? he

end Files

namespace ConfigFiles

variable {f : Files} {p : Place} {text file : String} {x : Except FileFault String}

theorem canonical_eq_ok (hf : f.Tidy) (h : (ofFiles f).canonical text = .ok file) :
    ∃ p : Place, p.Proper ∧ file = p.path := by
  change (f.locate text).map Place.path = .ok file at h
  cases hplace : f.locate text with
  | error e =>
    rw [hplace] at h
    cases h
  | ok p =>
    rw [hplace] at h
    exact ⟨p, hf.locate hplace, (Except.ok.inj h).symm⟩

/-- the loading knows a file by its own text -/
theorem entry?_of_contents (hf : f.Tidy) (hp : p.Proper)
    (h : OrderedMap.get? (ofFiles f).contents p.path = some x) :
    p ≠ [] ∧ ∃ content, f.entry? p = some (.file content) ∧ x = Files.textOf content := by
  obtain ⟨⟨place, entry⟩, hmem, hentry⟩ := List.mem_filterMap.mp (OrderedMap.mem_of_get? h)
  cases entry with
  | directory => cases hentry
  | file content =>
    have hpair := Option.some.inj hentry
    obtain ⟨hne, hproper⟩ := hf.proper _ hmem
    obtain rfl : place = p := Place.path_inj hproper hp (congrArg Prod.fst hpair)
    refine ⟨hne, content, ?_, (congrArg Prod.snd hpair).symm⟩
    rw [Files.entry?, if_neg hne]
    exact hf.lookup hmem

end ConfigFiles
end ServiceGraph
