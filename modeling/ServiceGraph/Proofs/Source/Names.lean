import ServiceGraph.Proofs.Decimal.Digits
import ServiceGraph.Source.Compile
import Mathlib.Data.List.Nodup
import Mathlib.Data.List.Perm.Subperm

/-!
# The names of methods

Every id has a method, no two ids have the same one, and a method's name is `service_` with letters,
digits and underscores after it.

* `Compile.freshName_not_mem`: one candidate more than there are taken names is enough;
* `Compile.namesFor_nodup`: no name is given twice;
* `Compile.methodNames_isSome`, `methodNames_inj`: the table of names;
* `Compile.MethodName`, `ServiceName`: the shape of a name, and the narrower one that is given.
-/

namespace ServiceGraph.Compile

/-! ## fresh names -/

theorem candidates_nodup (base : String) (count : Nat) : (candidates base count).Nodup := by
  refine List.nodup_cons.mpr ⟨fun h => ?_, ?_⟩
  · obtain ⟨n, -, hn⟩ := List.mem_map.mp h
    have hlen := congrArg (fun s => s.toList.length) hn
    simp only [String.toList_append, List.length_append] at hlen
    have hdash : "_".toList.length = 1 := rfl
    omega
  · refine List.Nodup.map (fun m n hmn => ?_) List.nodup_range
    have hlist := congrArg String.toList hmn
    simp only [String.toList_append, List.append_assoc, List.append_cancel_left_eq] at hlist
    have hrepr : (m + 2).repr = (n + 2).repr := String.toList_inj.mp hlist
    have hnum := congrArg (fun s => Nat.ofDigitChars 10 s.toList 0) hrepr
    simp only [Nat.toList_repr, Nat.ofDigitChars_ten_toDigits] at hnum
    omega

theorem candidates_length (base : String) (count : Nat) :
    (candidates base count).length = count + 1 := by
  rw [candidates, List.length_cons, List.length_map, List.length_range]

/-- among the candidates there is one that is not taken -/
theorem exists_candidate (taken : List String) (base : String) :
    ∃ name ∈ candidates base taken.length, name ∉ taken := by
  by_contra hall
  push Not at hall
  have hle := (List.subperm_of_subset (candidates_nodup base taken.length) hall).length_le
  rw [candidates_length] at hle
  omega

theorem freshName_spec (taken : List String) (base : String) :
    freshName taken base ∈ candidates base taken.length ∧ freshName taken base ∉ taken := by
  obtain ⟨name, hname, hfree⟩ := exists_candidate taken base
  unfold freshName
  cases hfind : (candidates base taken.length).find? (!taken.contains ·) with
  | none =>
    have := List.find?_eq_none.mp hfind name hname
    simp [hfree] at this
  | some found =>
    have hfound := List.find?_some hfind
    exact ⟨List.mem_of_find?_eq_some hfind, by simpa using hfound⟩

theorem freshName_not_mem (taken : List String) (base : String) :
    freshName taken base ∉ taken := (freshName_spec taken base).2

/-! ## names for ids -/

theorem namesFor_length (taken ids : List String) :
    (namesFor taken ids).length = ids.length := by
  induction ids generalizing taken with
  | nil => rfl
  | cons id ids ih =>
    rw [namesFor, List.length_cons, List.length_cons, ih]

theorem namesFor_fresh (taken ids : List String) {name : String}
    (h : name ∈ namesFor taken ids) : name ∉ taken := by
  induction ids generalizing taken with
  | nil => cases h
  | cons id ids ih =>
    rw [namesFor] at h
    rcases List.mem_cons.mp h with rfl | h
    · exact freshName_not_mem taken (baseName id)
    · exact fun hmem => ih _ h (List.mem_cons_of_mem _ hmem)

theorem namesFor_nodup (taken ids : List String) : (namesFor taken ids).Nodup := by
  induction ids generalizing taken with
  | nil => exact List.nodup_nil
  | cons id ids ih =>
    rw [namesFor]
    exact List.nodup_cons.mpr
      ⟨fun h => namesFor_fresh _ ids h (List.mem_cons_self ..), ih _⟩

/-! ## the table of names -/

theorem get?_zip_isSome {ids names : List String} (hlen : names.length = ids.length)
    (id : String) : ((OrderedMap.get? (ids.zip names) id).isSome = true) ↔ id ∈ ids := by
  induction ids generalizing names with
  | nil => simp
  | cons i ids ih =>
    cases names with
    | nil => cases hlen
    | cons name names =>
      rw [List.zip_cons_cons, OrderedMap.get?, List.mem_cons]
      by_cases hi : i = id
      · simp [hi]
      · rw [if_neg hi, ih (by simpa using hlen)]
        simp [Ne.symm hi]

theorem get?_zip_mem {ids names : List String} {id name : String}
    (h : OrderedMap.get? (ids.zip names) id = some name) : name ∈ names := by
  induction ids generalizing names with
  | nil => cases h
  | cons i ids ih =>
    cases names with
    | nil => cases h
    | cons n names =>
      rw [List.zip_cons_cons, OrderedMap.get?] at h
      split at h
      · cases h
        exact List.mem_cons_self ..
      · exact List.mem_cons_of_mem _ (ih h)

theorem get?_zip_inj {ids names : List String} (hnames : names.Nodup) {id id' name : String}
    (h : OrderedMap.get? (ids.zip names) id = some name)
    (h' : OrderedMap.get? (ids.zip names) id' = some name) : id = id' := by
  induction ids generalizing names with
  | nil => cases h
  | cons i ids ih =>
    cases names with
    | nil => cases h
    | cons n names =>
      obtain ⟨hn, hnames⟩ := List.nodup_cons.mp hnames
      rw [List.zip_cons_cons, OrderedMap.get?] at h h'
      split at h
      · next hi =>
        split at h'
        · next hi' => rw [← hi, ← hi']
        · cases h
          exact absurd (get?_zip_mem h') hn
      · split at h'
        · cases h'
          exact absurd (get?_zip_mem h) hn
        · exact ih hnames h h'

theorem methodNames_isSome (ids : List String) (id : String) :
    ((methodNames ids).get? id).isSome = true ↔ id ∈ ids :=
  get?_zip_isSome (namesFor_length [] ids) id

/-- two ids with one method are one id -/
theorem methodNames_inj {ids : List String} {id id' name : String}
    (h : (methodNames ids).get? id = some name) (h' : (methodNames ids).get? id' = some name) :
    id = id' := get?_zip_inj (namesFor_nodup [] ids) h h'

/-! ## the shape of a name -/

/-- a character of a method's name -/
def nameLetter (c : Char) : Bool := c.isAlphanum || c == '_'

/-- a name as methods have it -/
def MethodName (name : String) : Prop :=
  ∃ rest : List Char, name.toList = "service_".toList ++ rest ∧ rest.all nameLetter = true

theorem MethodName.forall_nameLetter {name : String} (h : MethodName name) :
    ∀ c ∈ name.toList, nameLetter c = true := by
  obtain ⟨rest, hrest, hall⟩ := h
  intro c hc
  rw [hrest, List.mem_append] at hc
  rcases hc with hc | hc
  · exact (by decide : ∀ c ∈ "service_".toList, nameLetter c = true) c hc
  · exact List.all_eq_true.mp hall c hc

/-- an upper-case letter has a lower-case one -/
theorem isLower_toLower {c : Char} (h : c.val ≥ 'A'.val ∧ c.val ≤ 'Z'.val) :
    c.toLower.isLower = true := by
  have hlow : ('a'.val ≤ c.val + ('a'.val - 'A'.val)) ∧
      c.val + ('a'.val - 'A'.val) ≤ 'z'.val := by
    simp only [UInt32.le_iff_toNat_le, ge_iff_le, UInt32.toNat_add] at h ⊢
    have : 'A'.val.toNat = 65 := rfl
    have : 'Z'.val.toNat = 90 := rfl
    have : 'a'.val.toNat = 97 := rfl
    have : 'z'.val.toNat = 122 := rfl
    have : ('a'.val - 'A'.val).toNat = 32 := rfl
    omega
  unfold Char.toLower
  rw [dif_pos h]
  exact Bool.and_eq_true_iff.mpr ⟨decide_eq_true hlow.1, decide_eq_true hlow.2⟩

/-- a lower-case letter, a digit or an underscore -/
def serviceLetter (c : Char) : Bool := c.isLower || c.isDigit || c == '_'

/-- `service_` with lower-case letters, digits and underscores behind it -/
def ServiceName (name : String) : Prop :=
  ∃ rest : List Char, name.toList = "service_".toList ++ rest ∧ rest.all serviceLetter = true

theorem ServiceName.methodName {name : String} (h : ServiceName name) : MethodName name := by
  obtain ⟨rest, hrest, hall⟩ := h
  refine ⟨rest, hrest, List.all_eq_true.mpr fun c hc => ?_⟩
  have hletter := List.all_eq_true.mp hall c hc
  unfold serviceLetter at hletter
  show (((c.isUpper || c.isLower) || c.isDigit) || c == '_') = true
  rw [Bool.or_assoc, Bool.or_assoc, ← Bool.or_assoc c.isLower, hletter, Bool.or_true]

theorem serviceLetter_nameChar (c : Char) : serviceLetter (nameChar c) = true := by
  unfold nameChar serviceLetter
  split
  · next hc =>
    by_cases hup : c.val ≥ 'A'.val ∧ c.val ≤ 'Z'.val
    · rw [isLower_toLower hup, Bool.true_or, Bool.true_or]
    · have hnot : c.isUpper = false := by
        unfold Char.isUpper
        exact Bool.eq_false_iff.mpr fun h => hup (by simpa using h)
      have hlower : c.toLower = c := by
        unfold Char.toLower
        exact dif_neg hup
      have hc : ((c.isUpper || c.isLower) || c.isDigit) = true := hc
      rw [hnot, Bool.false_or] at hc
      rw [hlower, hc, Bool.true_or]
  · rfl

theorem serviceName_baseName (id : String) : ServiceName (baseName id) := by
  refine ⟨id.toList.map nameChar, ?_, ?_⟩
  · rw [baseName, String.toList_append]
    exact congrArg _ String.toList_ofList
  · rw [List.all_map]
    exact List.all_eq_true.mpr fun c _ => serviceLetter_nameChar c

theorem ServiceName.numbered {base : String} (h : ServiceName base) (n : Nat) :
    ServiceName (base ++ "_" ++ toString n) := by
  obtain ⟨rest, hrest, hall⟩ := h
  refine ⟨rest ++ '_' :: (toString n).toList, ?_, ?_⟩
  · rw [String.toList_append, String.toList_append, hrest, List.append_assoc, List.append_assoc]
    rfl
  · rw [List.all_append, hall, List.all_cons]
    refine List.all_eq_true.mpr fun c hc => ?_
    have hdigit : c.isDigit = true :=
      Nat.isDigit_of_mem_toDigits (b := 10) (by decide) (by decide) (Nat.toList_repr ▸ hc)
    rw [serviceLetter, hdigit, Bool.or_true, Bool.true_or]

theorem serviceName_of_mem_candidates {base : String} (hbase : ServiceName base) {count : Nat}
    {name : String} (h : name ∈ candidates base count) : ServiceName name := by
  rcases List.mem_cons.mp h with rfl | h
  · exact hbase
  · obtain ⟨n, -, rfl⟩ := List.mem_map.mp h
    exact hbase.numbered (n + 2)

theorem serviceName_of_mem_namesFor {taken ids : List String} {name : String}
    (h : name ∈ namesFor taken ids) : ServiceName name := by
  induction ids generalizing taken with
  | nil => cases h
  | cons id ids ih =>
    rw [namesFor] at h
    rcases List.mem_cons.mp h with rfl | h
    · exact serviceName_of_mem_candidates (serviceName_baseName id) (freshName_spec _ _).1
    · exact ih h

theorem methodName_of_get? {ids : List String} {id name : String}
    (h : (methodNames ids).get? id = some name) : MethodName name :=
  (serviceName_of_mem_namesFor (get?_zip_mem h)).methodName

end ServiceGraph.Compile
