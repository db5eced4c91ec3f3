import ServiceGraph.Proofs.Source.Names

/-!
# Choosing the names of methods

An id whose name is taken gets a number behind its name, counted from two until the name is free. The
count has no bound of its own.

* `Compile.Chooses`: a run of that loop;
* `Compile.Naming`: the runs for one id after the other;
* `Compile.chooses_freshName`, `naming_namesFor`: the loop comes to its end, with the names that the
  compiler gives.
-/

namespace ServiceGraph.Compile

variable {taken : List String} {base : String}

/-! ## one id -/

/-- the loop holds a name and the number that it would try next; it goes on while the name is taken -/
inductive Chooses (taken : List String) (base : String) : String → Nat → String → Prop
  | free {name : String} {n : Nat} (h : name ∉ taken) : Chooses taken base name n name
  | next {name result : String} {n : Nat} (h : name ∈ taken)
      (rest : Chooses taken base (base ++ "_" ++ toString n) (n + 1) result) :
      Chooses taken base name n result

/-- the loop has one outcome -/
theorem Chooses.unique {name result result' : String} {n : Nat}
    (h : Chooses taken base name n result) (h' : Chooses taken base name n result') :
    result = result' := by
  induction h with
  | free hfree =>
    cases h' with
    | free _ => rfl
    | next htaken _ => exact absurd htaken hfree
  | next htaken _ ih =>
    cases h' with
    | free hfree => exact absurd htaken hfree
    | next _ rest' => exact ih rest'

/-- what a search of the numbered names finds first is where the loop ends -/
theorem chooses_of_find? {name found : String} {n : Nat} (count : Nat)
    (h : (name :: (List.range' n count).map fun k => base ++ "_" ++ toString (k + 2)).find?
      (!taken.contains ·) = some found) : Chooses taken base name (n + 2) found := by
  induction count generalizing name n with
  | zero =>
    obtain rfl : found = name := List.mem_singleton.mp (List.mem_of_find?_eq_some h)
    exact .free (by simpa using List.find?_some h)
  | succ count ih =>
    rw [List.find?_cons] at h
    split at h
    · next hname =>
      cases h
      exact .free (by simpa using hname)
    · next hname =>
      exact .next (by simpa using hname) (ih h)

/-- the loop ends, with the name that the compiler gives -/
theorem chooses_freshName (taken : List String) (base : String) :
    Chooses taken base base 2 (freshName taken base) := by
  refine chooses_of_find? (n := 0) taken.length ?_
  rw [← List.range_eq_range']
  obtain ⟨name, hname, hfree⟩ := exists_candidate taken base
  obtain ⟨found, hfound⟩ := Option.isSome_iff_exists.mp
    (List.find?_isSome.mpr ⟨name, hname, by simpa using hfree⟩ :
      ((candidates base taken.length).find? (!taken.contains ·)).isSome = true)
  rw [freshName, hfound]
  exact hfound

/-! ## all ids -/

/-- the names for ids in order, each chosen when those before it are taken -/
inductive Naming : List String → List String → List String → Prop
  | done {taken : List String} : Naming taken [] []
  | next {taken ids names : List String} {id name : String}
      (h : Chooses taken (baseName id) (baseName id) 2 name) (rest : Naming (name :: taken) ids names) :
      Naming taken (id :: ids) (name :: names)

theorem Naming.unique {ids names names' : List String} (h : Naming taken ids names)
    (h' : Naming taken ids names') : names = names' := by
  induction h generalizing names' with
  | done =>
    cases h'
    rfl
  | next hname _ ih =>
    cases h' with
    | next hname' rest' =>
      cases hname.unique hname'
      rw [ih rest']

/-- choosing ends for all ids, with the names that the compiler gives -/
theorem naming_namesFor (taken ids : List String) : Naming taken ids (namesFor taken ids) := by
  induction ids generalizing taken with
  | nil => exact .done
  | cons id ids ih => exact .next (chooses_freshName taken (baseName id)) (ih _)

end ServiceGraph.Compile
