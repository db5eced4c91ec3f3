import ServiceGraph.Decimal.Numeral

/-!
# The characters of numerals

* `forallMemDecidable`: what holds of all characters of a text is decided by going through it;
* `forall_mem_toDigits`: what holds of the digits of a base holds of everything written with them;
* `NumeralStyle.forall_mem_layout`: the same for decimals, whatever their notation;
* `toList_toString_int`: an integer is written as its digits, with a sign in front of them if it is
  negative.
-/

namespace ServiceGraph

/-- what holds of every character of a text is decided on the text, not on all characters -/
instance (priority := high) forallMemDecidable {P : Char → Prop} [DecidablePred P]
    (cs : List Char) : Decidable (∀ c ∈ cs, P c) :=
  List.decidableBAll P cs

/-- what holds of the digits of a base holds of every digit that is written -/
theorem forall_mem_toDigits {b : Nat} (hb : 1 < b) {P : Char → Prop}
    (hP : ∀ d < b, P (Nat.digitChar d)) (n : Nat) : ∀ c ∈ Nat.toDigits b n, P c := by
  induction n using Nat.strongRecOn with
  | ind n ih =>
    intro c hc
    rw [Nat.toDigits_eq_if hb] at hc
    split at hc
    · next h =>
      rw [List.mem_singleton.mp hc]
      exact hP n h
    · next h =>
      rcases List.mem_append.mp hc with hc | hc
      · exact ih (n / b) (Nat.div_lt_self (by omega) hb) c hc
      · rw [List.mem_singleton.mp hc]
        exact hP _ (Nat.mod_lt _ (by omega))

theorem toList_toString_nat (n : Nat) : (toString n).toList = Nat.toDigits 10 n :=
  Nat.toList_repr

/-- an integer is written as its digits, after a sign if it is negative -/
theorem toList_toString_int (n : Int) :
    (toString n).toList =
      if 0 ≤ n then Nat.toDigits 10 n.toNat else '-' :: Nat.toDigits 10 (-n).toNat := by
  cases n with
  | ofNat n => exact toList_toString_nat n
  | negSucc n =>
    rw [if_neg (by omega)]
    show ("-" ++ Nat.repr (n + 1)).toList = _
    rw [String.toList_append, Nat.toList_repr]
    rfl

theorem forall_mem_toString_int {P : Char → Prop} (hP : ∀ d < 10, P (Nat.digitChar d))
    (hminus : P '-') (n : Int) : ∀ c ∈ (toString n).toList, P c := by
  intro c hc
  rw [toList_toString_int] at hc
  split at hc
  · exact forall_mem_toDigits (by decide) hP _ c hc
  · rcases List.mem_cons.mp hc with rfl | hc
    · exact hminus
    · exact forall_mem_toDigits (by decide) hP _ c hc

/-! ## decimals -/

namespace NumeralStyle

variable {P : Char → Prop}

theorem forall_mem_positionalText (hzero : P '0') (hpoint : P '.') {digits : List Char}
    (hdigits : ∀ c ∈ digits, P c) (point : Int) (keepsPoint : Bool) :
    ∀ c ∈ positionalText digits point keepsPoint, P c := by
  intro c hc
  have htail : c ∈ (if keepsPoint = true then ['.', '0'] else []) → P c := by
    intro hc
    split at hc
    · rcases List.mem_cons.mp hc with rfl | hc
      · exact hpoint
      · rw [List.mem_singleton.mp hc]
        exact hzero
    · cases hc
  unfold positionalText at hc
  dsimp only at hc
  by_cases hlow : point ≤ 0
  · rw [if_pos hlow, List.mem_append, List.mem_append] at hc
    rcases hc with (hc | hc) | hc
    · rcases List.mem_cons.mp hc with rfl | hc
      · exact hzero
      · rw [List.mem_singleton.mp hc]
        exact hpoint
    · rw [(List.mem_replicate.mp hc).2]
      exact hzero
    · exact hdigits c hc
  · rw [if_neg hlow] at hc
    by_cases hhigh : (digits.length : Int) ≤ point
    · rw [if_pos hhigh, List.mem_append, List.mem_append] at hc
      rcases hc with (hc | hc) | hc
      · exact hdigits c hc
      · rw [(List.mem_replicate.mp hc).2]
        exact hzero
      · exact htail hc
    · rw [if_neg hhigh, List.mem_append, List.mem_cons] at hc
      rcases hc with hc | rfl | hc
      · exact hdigits c (List.mem_of_mem_take hc)
      · exact hpoint
      · exact hdigits c (List.mem_of_mem_drop hc)

theorem forall_mem_exponentText (hP : ∀ d < 10, P (Nat.digitChar d)) (hpoint : P '.')
    (he : P 'e') (hminus : P '-') {digits : List Char} (hdigits : ∀ c ∈ digits, P c)
    (exponent : Int) : ∀ c ∈ exponentText digits exponent, P c := by
  intro c hc
  unfold exponentText at hc
  rw [List.mem_append, List.mem_cons] at hc
  rcases hc with hc | rfl | hc
  · split at hc
    · next d e rest =>
      rcases List.mem_cons.mp hc with rfl | hc
      · exact hdigits _ (List.mem_cons_self ..)
      · rcases List.mem_cons.mp hc with rfl | hc
        · exact hpoint
        · exact hdigits c (List.mem_cons_of_mem _ hc)
    · exact hdigits c hc
  · exact he
  · exact forall_mem_toString_int hP hminus exponent c hc

theorem forall_mem_layout (hP : ∀ d < 10, P (Nat.digitChar d)) (hpoint : P '.') (he : P 'e')
    (hminus : P '-') (n : NumeralStyle) (d : Decimal) : ∀ c ∈ n.layout d, P c := by
  intro c hc
  have hzero : P '0' := hP 0 (by decide)
  have hdigits : ∀ c ∈ (toString d.coefficient).toList, P c := by
    rw [toList_toString_nat]
    exact forall_mem_toDigits (by decide) hP _
  unfold layout at hc
  split at hc
  · exact forall_mem_positionalText hzero hpoint hdigits _ _ c hc
  · simp only at hc
    split at hc
    · exact forall_mem_positionalText hzero hpoint hdigits _ _ c hc
    · exact forall_mem_exponentText hP hpoint he hminus hdigits _ c hc

end NumeralStyle

end ServiceGraph
