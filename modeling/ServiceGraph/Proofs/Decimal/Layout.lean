import ServiceGraph.Decimal.Nearest
import ServiceGraph.Proofs.Decimal.Digits
import ServiceGraph.Proofs.Decimal.Shortest

/-!
# What is written reads back

The layout of a decimal is a numeral in the grammar that is read, and what is read is the number
that was written. So a number is told by its text.

* `Decimal.ofChars?_layout`: reading a layout gives a decimal of the same value;
* `Binary64.eq_of_render_eq`: a number is told by its text, whatever the notation.
-/

set_option linter.unusedSectionVars false

namespace ServiceGraph

namespace Decimal

/-! ## reading digits -/

def Digits (ds : List Char) : Prop := ∀ c ∈ ds, c.isDigit = true

theorem digits_toDigits (n : Nat) : Digits (Nat.toDigits 10 n) :=
  forall_mem_toDigits (by decide) (P := fun c => c.isDigit = true) (by decide) n

theorem digits_replicate_zero (n : Nat) : Digits (List.replicate n '0') := by
  intro c hc
  rw [(List.mem_replicate.mp hc).2]
  decide

theorem Digits.append {ds es : List Char} (hds : Digits ds) (hes : Digits es) :
    Digits (ds ++ es) := by
  intro c hc
  rcases List.mem_append.mp hc with hc | hc
  · exact hds c hc
  · exact hes c hc

theorem digitsValue_eq_ofDigitChars (n : Nat) (ds : List Char) :
    digitsValue n ds = Nat.ofDigitChars 10 ds n := by
  unfold digitsValue
  rw [Nat.ofDigitChars_eq_foldl]
  simp only [Nat.mul_comm]

theorem digitsValue_append (n : Nat) (ds es : List Char) :
    digitsValue n (ds ++ es) = digitsValue (digitsValue n ds) es :=
  List.foldl_append

theorem digitsValue_toDigits (n : Nat) : digitsValue 0 (Nat.toDigits 10 n) = n := by
  rw [digitsValue_eq_ofDigitChars, Nat.ofDigitChars_toDigits (by decide) (by decide)]

theorem digitsValue_replicate_zero (n k : Nat) :
    digitsValue n (List.replicate k '0') = 10 ^ k * n := by
  rw [digitsValue_eq_ofDigitChars, Nat.ofDigitChars_replicate_zero]

/-- a text that goes on with something else than a digit -/
def Ended (rest : List Char) : Prop := ∀ c ∈ rest.head?, c.isDigit = false

theorem takeWhile_digits {ds rest : List Char} (hds : Digits ds) (hrest : Ended rest) :
    (ds ++ rest).takeWhile Char.isDigit = ds := by
  rw [List.takeWhile_append_of_pos hds]
  cases rest with
  | nil => exact List.append_nil ds
  | cons c rest =>
    rw [List.takeWhile_cons, hrest c rfl]
    exact List.append_nil ds

theorem dropWhile_digits {ds rest : List Char} (hds : Digits ds) (hrest : Ended rest) :
    (ds ++ rest).dropWhile Char.isDigit = rest := by
  rw [List.dropWhile_append_of_pos hds]
  cases rest with
  | nil => rfl
  | cons c rest =>
    rw [List.dropWhile_cons, hrest c rfl]
    rfl

/-! ## reading an exponent -/

def exponentSuffix : Option Int → List Char
  | none => []
  | some e => 'e' :: (toString e).toList

theorem ended_exponentSuffix (e : Option Int) : Ended (exponentSuffix e) := by
  intro c hc
  cases e with
  | none => cases hc
  | some e =>
    cases hc
    decide

theorem exponentOf?_toString (e : Int) : exponentOf? (toString e).toList = some e := by
  have hread : ∀ n : Nat, Nat.toDigits 10 n ≠ [] ∧ (Nat.toDigits 10 n).all Char.isDigit := fun n =>
    ⟨Nat.toDigits_ne_nil, List.all_eq_true.mpr (digits_toDigits n)⟩
  rw [toList_toString_int]
  split
  · next he =>
    have hdigits := digits_toDigits e.toNat
    have hvalue := digitsValue_toDigits e.toNat
    have hall := hread e.toNat
    generalize Nat.toDigits 10 e.toNat = ds at *
    unfold exponentOf?
    split
    · exact absurd (hdigits '-' (List.mem_cons_self ..)) (by decide)
    · exact absurd (hdigits '+' (List.mem_cons_self ..)) (by decide)
    · dsimp only
      rw [if_pos hall, Option.map_some, hvalue]
      exact congrArg some (Int.toNat_of_nonneg he)
  · next he =>
    have hvalue := digitsValue_toDigits (-e).toNat
    have hall := hread (-e).toNat
    generalize Nat.toDigits 10 (-e).toNat = ds at *
    have hdigits : (if ds ≠ [] ∧ ds.all Char.isDigit then some (digitsValue 0 ds) else none) =
        some (-e).toNat := by
      rw [if_pos hall, hvalue]
    unfold exponentOf?
    simp only [hdigits]
    show some (-((-e).toNat : Int)) = some e
    exact congrArg some (by omega)

/-! ## reading a numeral -/

theorem ofChars?_whole {whole : List Char} (hne : whole ≠ []) (hwhole : Digits whole)
    (e : Option Int) :
    ofChars? (whole ++ exponentSuffix e) = some ⟨digitsValue 0 whole, e.getD 0⟩ := by
  unfold ofChars?
  rw [takeWhile_digits hwhole (ended_exponentSuffix e),
    dropWhile_digits hwhole (ended_exponentSuffix e)]
  cases e with
  | none =>
    show (if _ then _ else _) = _
    rw [if_neg (fun h => hne h.1)]
    rfl
  | some e =>
    show (if _ then _ else _) = _
    rw [if_neg (fun h => hne h.1)]
    show (exponentOf? (toString e).toList).map _ = _
    rw [exponentOf?_toString]
    show some (Decimal.mk _ (e + -((0 : Nat) : Int))) = _
    rw [Int.natCast_zero, Int.neg_zero, Int.add_zero]
    rfl

theorem ofChars?_point (whole fraction : List Char) (hne : whole ≠ []) (hwhole : Digits whole)
    (hfraction : Digits fraction) (e : Option Int) :
    ofChars? (whole ++ '.' :: (fraction ++ exponentSuffix e)) =
      some ⟨digitsValue 0 (whole ++ fraction), e.getD 0 - fraction.length⟩ := by
  have hpoint : Ended ('.' :: (fraction ++ exponentSuffix e)) := by
    intro c hc
    cases hc
    decide
  unfold ofChars?
  rw [takeWhile_digits hwhole hpoint, dropWhile_digits hwhole hpoint]
  simp only
  rw [takeWhile_digits hfraction (ended_exponentSuffix e),
    dropWhile_digits hfraction (ended_exponentSuffix e), if_neg (fun h => hne h.1),
    ← digitsValue_append]
  cases e with
  | none =>
    show some (Decimal.mk _ (-(fraction.length : Int))) = _
    rw [Option.getD_none, Int.zero_sub]
  | some e =>
    show (exponentOf? (toString e).toList).map _ = _
    rw [exponentOf?_toString]
    rfl

/-! ## reading a layout -/

theorem value_mul_pow (c k : Nat) (e : Int) :
    (Decimal.mk (10 ^ k * c) (e - k)).value = (Decimal.mk c e).value := by
  unfold value
  show ((10 ^ k * c : ℕ) : ℚ) * 10 ^ (e - k) = c * 10 ^ e
  rw [zpow_sub₀ (by norm_num), zpow_natCast]
  push_cast
  field_simp

section
variable {ds : List Char} {c : Nat} (hne : ds ≠ []) (hdigits : Digits ds)
  (hvalue : digitsValue 0 ds = c)
include hne hdigits hvalue

/-- digits after the point, with zeros in front of them -/
theorem ofChars?_small {e : Int} (he : (ds.length : Int) + e ≤ 0) :
    ∃ d, ofChars? (['0', '.'] ++ List.replicate (-((ds.length : Int) + e)).toNat '0' ++ ds) =
      some d ∧ d.value = (Decimal.mk c e).value := by
  have hread := ofChars?_point ['0'] _ (by decide) (by unfold Digits; decide)
    ((digits_replicate_zero (-((ds.length : Int) + e)).toNat).append hdigits) none
  refine ⟨_, (congrArg ofChars? ?_).trans hread, ?_⟩
  · simp only [exponentSuffix, List.cons_append, List.nil_append, List.append_nil]
  · have hzeros : digitsValue 0 ['0'] = 0 := by decide
    rw [digitsValue_append, digitsValue_append, digitsValue_replicate_zero, hzeros,
      Nat.mul_zero, hvalue, List.length_append, List.length_replicate]
    congr 2
    push_cast
    simp only [Option.getD_none]
    omega

/-- digits before the point, with zeros behind them -/
theorem ofChars?_large (k : Nat) (keepsPoint : Bool) :
    ∃ d, ofChars? (ds ++ List.replicate k '0' ++ if keepsPoint then ['.', '0'] else []) =
      some d ∧ d.value = (Decimal.mk c k).value := by
  have hwhole := hdigits.append (digits_replicate_zero k)
  have hwholeNe : ds ++ List.replicate k '0' ≠ [] :=
    List.append_ne_nil_of_left_ne_nil hne _
  have hwholeValue : digitsValue 0 (ds ++ List.replicate k '0') = 10 ^ k * c := by
    rw [digitsValue_append, hvalue, digitsValue_replicate_zero]
  cases keepsPoint with
  | false =>
    refine ⟨_, ofChars?_whole hwholeNe hwhole none, ?_⟩
    rw [hwholeValue, ← value_mul_pow c k k]
    congr 2
    simp only [Option.getD_none]
    omega
  | true =>
    refine ⟨_, ofChars?_point _ ['0'] hwholeNe hwhole (by unfold Digits; decide) none, ?_⟩
    have hone : digitsValue (10 ^ k * c) ['0'] = 10 ^ (k + 1) * c := by
      rw [Nat.pow_succ', Nat.mul_assoc, Nat.mul_comm 10 (10 ^ k * c)]
      rfl
    rw [digitsValue_append, hwholeValue, hone, ← value_mul_pow c (k + 1) k]
    congr 2
    simp only [Option.getD_none, List.length_singleton]
    omega

/-- digits on both sides of the point -/
theorem ofChars?_between {k : Nat} (hk : k ≠ 0) {e : Int} (hneg : e ≤ 0)
    (he : (ds.length : Int) + e = k) :
    ∃ d, ofChars? (ds.take k ++ '.' :: ds.drop k) = some d ∧
      d.value = (Decimal.mk c e).value := by
  have htake : ds.take k ≠ [] := by
    intro h
    rcases List.take_eq_nil_iff.mp h with h | h
    · exact hk h
    · exact hne h
  have hread := ofChars?_point (ds.take k) (ds.drop k) htake
    (fun a ha => hdigits a (List.mem_of_mem_take ha))
    (fun a ha => hdigits a (List.mem_of_mem_drop ha)) none
  refine ⟨_, (congrArg ofChars? ?_).trans hread, ?_⟩
  · show _ = ds.take k ++ '.' :: (ds.drop k ++ [])
    rw [List.append_nil]
  · rw [List.take_append_drop, hvalue, List.length_drop]
    congr 2
    simp only [Option.getD_none]
    omega

end

/-- a positional layout reads back as the number -/
theorem ofChars?_positionalText (c : Nat) (e : Int) (keepsPoint : Bool) :
    ∃ d, ofChars? (NumeralStyle.positionalText (Nat.toDigits 10 c)
      ((Nat.toDigits 10 c).length + e) keepsPoint) = some d ∧ d.value = (Decimal.mk c e).value := by
  have hne : Nat.toDigits 10 c ≠ [] := Nat.toDigits_ne_nil
  have hdigits := digits_toDigits c
  have hvalue := digitsValue_toDigits c
  generalize Nat.toDigits 10 c = ds at *
  unfold NumeralStyle.positionalText
  dsimp only
  by_cases hlow : (ds.length : Int) + e ≤ 0
  · rw [if_pos hlow]
    exact ofChars?_small hne hdigits hvalue hlow
  · rw [if_neg hlow]
    by_cases hhigh : (ds.length : Int) ≤ ds.length + e
    · rw [if_pos hhigh]
      obtain ⟨k, rfl⟩ : ∃ k : Nat, e = k := ⟨e.toNat, by omega⟩
      have hk : ((ds.length : Int) + k - ds.length).toNat = k := by omega
      rw [hk]
      exact ofChars?_large hne hdigits hvalue k keepsPoint
    · rw [if_neg hhigh]
      obtain ⟨k, hk⟩ : ∃ k : Nat, (ds.length : Int) + e = k :=
        ⟨((ds.length : Int) + e).toNat, by omega⟩
      rw [hk, Int.toNat_natCast]
      exact ofChars?_between hne hdigits hvalue (by omega) (by omega) hk

theorem ofChars?_exponentText (c : Nat) (e : Int) :
    ∃ d, ofChars? (NumeralStyle.exponentText (Nat.toDigits 10 c)
      ((Nat.toDigits 10 c).length + e - 1)) = some d ∧ d.value = (Decimal.mk c e).value := by
  have hne : Nat.toDigits 10 c ≠ [] := Nat.toDigits_ne_nil
  have hdigits := digits_toDigits c
  have hvalue := digitsValue_toDigits c
  generalize Nat.toDigits 10 c = ds at *
  unfold NumeralStyle.exponentText
  dsimp only
  match ds, hne with
  | [a], _ =>
    refine ⟨_, ofChars?_whole (List.cons_ne_nil a []) hdigits (some _), ?_⟩
    rw [hvalue]
    congr 2
    simp only [Option.getD_some, List.length_singleton]
    omega
  | a :: b :: rest, _ =>
    have hread := ofChars?_point [a] (b :: rest) (List.cons_ne_nil a [])
      (fun x hx => hdigits x (List.mem_of_mem_take (i := 1) hx))
      (fun x hx => hdigits x (List.mem_cons_of_mem a hx))
      (some ((a :: b :: rest).length + e - 1))
    refine ⟨_, hread, ?_⟩
    rw [List.singleton_append, hvalue]
    congr 2
    simp only [Option.getD_some, List.length_cons]
    omega

/-- a layout reads back as the number that was laid out -/
theorem ofChars?_layout (n : NumeralStyle) (d : Decimal) :
    ∃ d', ofChars? (n.layout d) = some d' ∧ d'.value = d.value := by
  unfold NumeralStyle.layout
  rw [toList_toString_nat]
  split
  · exact ofChars?_positionalText d.coefficient d.exponent n.keepsPoint
  · dsimp only
    split
    · exact ofChars?_positionalText d.coefficient d.exponent n.keepsPoint
    · exact ofChars?_exponentText d.coefficient d.exponent

/-- decimals with one layout are one number -/
theorem value_eq_of_layout_eq {n : NumeralStyle} {d d' : Decimal}
    (h : n.layout d = n.layout d') : d.value = d'.value := by
  obtain ⟨r, hr, hvalue⟩ := ofChars?_layout n d
  obtain ⟨r', hr', hvalue'⟩ := ofChars?_layout n d'
  rw [h, hr'] at hr
  rw [← hvalue, ← hvalue', Option.some.inj hr]

end Decimal

/-! ## a number is told by its text -/

namespace Binary64

/-- the text of a number without its sign -/
def unsignedText (n : NumeralStyle) (x : Binary64) : List Char :=
  if x.isInfinite then "inf".toList else n.layout (x.shortest n.tie)

theorem render_eq {x : Binary64} (hx : x.isNaN = false) (n : NumeralStyle) :
    (x.render n).toList =
      if x.negative then '-' :: x.unsignedText n else x.unsignedText n := by
  unfold render
  rw [if_neg (by rw [hx]; decide)]
  exact String.toList_ofList

theorem eq_of_infinite {x y : Binary64} (hx : x.isInfinite = true) (hy : y.isInfinite = true)
    (hsign : x.negative = y.negative) : x = y := by
  obtain ⟨hxfield, hxfraction⟩ := Bool.and_eq_true_iff.mp hx
  obtain ⟨hyfield, hyfraction⟩ := Bool.and_eq_true_iff.mp hy
  have hfield : x.exponentField = y.exponentField :=
    (beq_iff_eq.mp hxfield).trans (beq_iff_eq.mp hyfield).symm
  have hfraction : x.fraction = y.fraction :=
    (beq_iff_eq.mp hxfraction).trans (beq_iff_eq.mp hyfraction).symm
  refine eq_of_parts hsign ?_ ?_
  · unfold significand
    rw [hfield, hfraction]
  · unfold exponent
    rw [hfield]

theorem eq_of_unsignedText_eq {n : NumeralStyle} {x y : Binary64}
    (hsign : x.negative = y.negative) (h : x.unsignedText n = y.unsignedText n) : x = y := by
  have hinf : ∀ d : Decimal, n.layout d ≠ "inf".toList := by
    intro d heq
    obtain ⟨r, hr, -⟩ := Decimal.ofChars?_layout n d
    rw [heq] at hr
    cases hr
  unfold unsignedText at h
  by_cases hx : x.isInfinite = true
  · by_cases hy : y.isInfinite = true
    · exact eq_of_infinite hx hy hsign
    · rw [if_pos hx, if_neg hy] at h
      exact absurd h.symm (hinf _)
  · by_cases hy : y.isInfinite = true
    · rw [if_neg hx, if_pos hy] at h
      exact absurd h (hinf _)
    · rw [if_neg hx, if_neg hy] at h
      exact eq_of_shortest_value_eq n.tie hsign (Decimal.value_eq_of_layout_eq h)

theorem unsignedText_ne_minus (n : NumeralStyle) (x : Binary64) (cs : List Char) :
    x.unsignedText n ≠ '-' :: cs := by
  intro h
  unfold unsignedText at h
  split at h
  · cases h
  · obtain ⟨r, hr, -⟩ := Decimal.ofChars?_layout n (x.shortest n.tie)
    rw [h] at hr
    cases hr

/-- numbers with one text are the same, down to the sign of zero -/
theorem eq_of_render_eq {n : NumeralStyle} {x y : Binary64} (hx : x.isNaN = false)
    (hy : y.isNaN = false) (h : x.render n = y.render n) : x = y := by
  have h := congrArg String.toList h
  rw [render_eq hx, render_eq hy] at h
  cases hxsign : x.negative with
  | false =>
    cases hysign : y.negative with
    | false =>
      rw [hxsign, hysign] at h
      exact eq_of_unsignedText_eq (hxsign.trans hysign.symm) h
    | true =>
      rw [hxsign, hysign] at h
      exact absurd h (unsignedText_ne_minus n x _)
  | true =>
    cases hysign : y.negative with
    | false =>
      rw [hxsign, hysign] at h
      exact absurd h.symm (unsignedText_ne_minus n y _)
    | true =>
      rw [hxsign, hysign] at h
      exact eq_of_unsignedText_eq (hxsign.trans hysign.symm) (List.cons.inj h).2

end Binary64

end ServiceGraph
