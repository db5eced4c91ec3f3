import Mathlib.Algebra.Order.Field.Power
import Mathlib.Data.Rat.Cast.Order
import Mathlib.Tactic.FieldSimp
import Mathlib.Tactic.Linarith
import Mathlib.Tactic.NormNum
import Mathlib.Tactic.Positivity
import Mathlib.Tactic.Ring
import ServiceGraph.Decimal.Shortest

/-!
# The shortest decimal stays in the interval

The real numbers that round to a binary number form an interval that is wider than the finest of
the seventeen grids, so one of them has a point in it. The intervals of two binary numbers share
no point, so a shortest decimal belongs to one number only.

* `Interval.contains_coarsest`: the decimal that is found lies in the interval;
* `Binary64.contains_shortest`: the shortest decimal of a finite number rounds to the number;
* `Interval.eq_of_contains`: no real rounds to two numbers;
* `Binary64.eq_of_shortest_value_eq`: a finite number is told by its sign and its shortest decimal.
-/

namespace ServiceGraph

def Decimal.value (d : Decimal) : ℚ := d.coefficient * (10 : ℚ) ^ d.exponent

theorem Decimal.value_trim (fuel : Nat) (d : Decimal) : (d.trim fuel).value = d.value := by
  induction fuel generalizing d with
  | zero => rfl
  | succ fuel ih =>
    unfold trim
    split
    · next h =>
      have hten : d.coefficient / 10 * 10 = d.coefficient :=
        Nat.div_mul_cancel (Nat.dvd_of_mod_eq_zero h.2)
      rw [ih]
      unfold value
      show ((d.coefficient / 10 : ℕ) : ℚ) * 10 ^ (d.exponent + 1) = _
      rw [zpow_add_one₀ (by norm_num)]
      calc ((d.coefficient / 10 : ℕ) : ℚ) * (10 ^ d.exponent * 10)
          = ((d.coefficient / 10 * 10 : ℕ) : ℚ) * 10 ^ d.exponent := by push_cast; ring
        _ = d.coefficient * 10 ^ d.exponent := by rw [hten]
    · rfl

/-- a power with an integer exponent, as the natural powers that stand above and below the line -/
theorem zpow_eq_pow_toNat_div {b : Nat} (hb : b ≠ 0) (s : Int) :
    (b : ℚ) ^ s = ((Nat.pow b s.toNat : ℕ) : ℚ) / ((Nat.pow b (-s).toNat : ℕ) : ℚ) := by
  have hbq : (b : ℚ) ≠ 0 := Nat.cast_ne_zero.mpr hb
  show _ = ((b ^ s.toNat : ℕ) : ℚ) / ((b ^ (-s).toNat : ℕ) : ℚ)
  push_cast
  rcases le_total 0 s with hs | hs
  · obtain ⟨n, rfl⟩ := Int.eq_ofNat_of_zero_le hs
    rw [Int.toNat_natCast, Int.toNat_of_nonpos (by omega), pow_zero, div_one, zpow_natCast]
  · obtain ⟨n, hn⟩ := Int.eq_ofNat_of_zero_le (by omega : 0 ≤ -s)
    obtain rfl : s = -(n : Int) := by omega
    rw [neg_neg, Int.toNat_natCast, Int.toNat_of_nonpos (by omega), pow_zero, zpow_neg,
      zpow_natCast, one_div]

namespace Interval

def Contains (i : Interval) (y : ℚ) : Prop :=
  if i.closed then (i.low : ℚ) ≤ y * i.den ∧ y * i.den ≤ i.high
  else (i.low : ℚ) < y * i.den ∧ y * i.den < i.high

theorem holds_iff (i : Interval) (c num : Nat) {den : Nat} (hden : 0 < den) :
    i.holds c num den = true ↔ i.Contains (c * (num / den)) := by
  have hdenq : (0 : ℚ) < den := Nat.cast_pos.mpr hden
  have hpoint : (c * (num / den) : ℚ) * i.den = (c * num * i.den) / den := by ring
  unfold holds Contains
  rw [hpoint]
  simp only
  cases i.closed with
  | true =>
    rw [if_pos rfl, if_pos rfl, Bool.and_eq_true, decide_eq_true_eq, decide_eq_true_eq,
      le_div_iff₀ hdenq, div_le_iff₀ hdenq]
    norm_cast
  | false =>
    rw [if_neg Bool.false_ne_true, if_neg Bool.false_ne_true, Bool.and_eq_true,
      decide_eq_true_eq, decide_eq_true_eq, lt_div_iff₀ hdenq, div_lt_iff₀ hdenq]
    norm_cast

/-! ## points of a grid -/

/-- the point of the grid below the number -/
def floorOn (i : Interval) (step : Int) : Nat :=
  i.mid * Nat.pow 10 (-step).toNat / (i.den * Nat.pow 10 step.toNat)

theorem holds_grid_iff (i : Interval) (c : Nat) (step : Int) :
    i.holds c (Nat.pow 10 step.toNat) (Nat.pow 10 (-step).toNat) = true ↔
      i.Contains (c * (10 : ℚ) ^ step) := by
  have hden : 0 < Nat.pow 10 (-step).toNat := Nat.pow_pos (by decide)
  rw [holds_iff i c _ hden, ← zpow_eq_pow_toNat_div (by decide : 10 ≠ 0) step]
  rfl

/-- the point that is found on a grid lies in the interval -/
theorem contains_of_onGrid {i : Interval} {tie : Tie} {step : Int} {k : Nat}
    (h : i.onGrid tie step = some k) : i.Contains (k * (10 : ℚ) ^ step) := by
  rw [← holds_grid_iff]
  unfold onGrid at h
  simp only at h
  split at h
  · next hboth =>
    obtain ⟨hlower, hupper⟩ := Bool.and_eq_true_iff.mp hboth
    split at h
    · rw [← Option.some.inj h]
      exact hlower
    · split at h
      · rw [← Option.some.inj h]
        exact hupper
      · cases tie with
        | up =>
          rw [← Option.some.inj h]
          exact hupper
        | even =>
          rw [← Option.some.inj h]
          split
          · exact hlower
          · exact hupper
  · split at h
    · next hlower =>
      rw [← Option.some.inj h]
      exact hlower
    · split at h
      · next hupper =>
        rw [← Option.some.inj h]
        exact hupper
      · cases h

/-- a grid without a point in the interval misses it on both sides of the number -/
theorem not_contains_of_onGrid {i : Interval} {tie : Tie} {step : Int}
    (h : i.onGrid tie step = none) :
    ¬ i.Contains (i.floorOn step * (10 : ℚ) ^ step) ∧
      ¬ i.Contains ((i.floorOn step + 1 : ℕ) * (10 : ℚ) ^ step) := by
  rw [← holds_grid_iff, ← holds_grid_iff]
  unfold onGrid at h
  simp only at h
  split at h
  · next hboth =>
    split at h
    · cases h
    · split at h
      · cases h
      · cases tie with
        | up => cases h
        | even => cases h
  · split at h
    · cases h
    · next hlower =>
      split at h
      · cases h
      · next hupper => exact ⟨hlower, hupper⟩

/-- the number lies between the two points of the grid next to it -/
theorem floorOn_bounds {i : Interval} (hden : 0 < i.den) (step : Int) :
    (i.floorOn step : ℚ) * 10 ^ step ≤ i.mid / i.den ∧
      (i.mid / i.den : ℚ) < (i.floorOn step + 1 : ℕ) * 10 ^ step := by
  have hnum : 0 < Nat.pow 10 step.toNat := Nat.pow_pos (by decide)
  have hscale : 0 < Nat.pow 10 (-step).toNat := Nat.pow_pos (by decide)
  have hnumq : (0 : ℚ) < (Nat.pow 10 step.toNat : ℕ) := Nat.cast_pos.mpr hnum
  have hscaleq : (0 : ℚ) < (Nat.pow 10 (-step).toNat : ℕ) := Nat.cast_pos.mpr hscale
  have hdenq : (0 : ℚ) < i.den := Nat.cast_pos.mpr hden
  have hten : (10 : ℚ) ^ step =
      ((Nat.pow 10 step.toNat : ℕ) : ℚ) / ((Nat.pow 10 (-step).toNat : ℕ) : ℚ) :=
    zpow_eq_pow_toNat_div (by decide : 10 ≠ 0) step
  rw [hten]
  generalize hn : Nat.pow 10 step.toNat = num at *
  generalize hs : Nat.pow 10 (-step).toNat = scale at *
  have hfloor : i.floorOn step = i.mid * scale / (i.den * num) := by
    unfold floorOn
    rw [hn, hs]
  constructor
  · rw [mul_div_assoc', div_le_div_iff₀ hscaleq hdenq]
    have := Nat.div_mul_le_self (i.mid * scale) (i.den * num)
    rw [← hfloor] at this
    have hcast : (i.floorOn step * (i.den * num) : ℚ) ≤ i.mid * scale := by exact_mod_cast this
    linarith
  · rw [mul_div_assoc', div_lt_div_iff₀ hdenq hscaleq]
    have := Nat.lt_mul_div_succ (i.mid * scale) (Nat.mul_pos hden hnum)
    rw [← hfloor] at this
    have hcast : (i.mid * scale : ℚ) < i.den * num * ((i.floorOn step + 1 : ℕ) : ℚ) := by
      exact_mod_cast this
    linarith

/-! ## the first grid with a point -/

/-- a decimal is found in the interval if one of the grids that are tried has a point there -/
theorem contains_coarsest {i : Interval} {tie : Tie} (last : Int)
    (hlast : i.onGrid tie last ≠ none) (digits : Nat) (step : Int) (hdigits : last ≤ step)
    (hstep : step < last + digits) : i.Contains (i.coarsest tie digits step).value := by
  induction digits generalizing step with
  | zero => omega
  | succ digits ih =>
    unfold coarsest
    split
    · next k hk =>
      rw [Decimal.value_trim]
      exact contains_of_onGrid hk
    · next hnone =>
      have hne : step ≠ last := fun h => hlast (h ▸ hnone)
      exact ih (step - 1) (by omega) (by omega)

theorem pow_digitCount_le (fuel : Nat) {n : Nat} (hn : 0 < n) :
    10 ^ (digitCount fuel n - 1) ≤ n := by
  induction fuel generalizing n with
  | zero => exact hn
  | succ fuel ih =>
    unfold digitCount
    split
    · exact hn
    · next hten =>
      have hquot : 0 < n / 10 := by omega
      have hle := ih hquot
      cases hcount : digitCount fuel (n / 10) with
      | zero =>
        show 10 ^ 0 ≤ n
        omega
      | succ k =>
        rw [hcount] at hle
        calc 10 ^ (k + 1) = 10 ^ k * 10 := Nat.pow_succ ..
          _ ≤ n / 10 * 10 := Nat.mul_le_mul_right _ hle
          _ ≤ n := Nat.div_mul_le_self ..

theorem le_mul_pow_leadingZeros (fuel : Nat) {num den : Nat} (h : den ≤ num * 10 ^ fuel) :
    den ≤ num * 10 ^ leadingZeros fuel num den := by
  induction fuel generalizing num with
  | zero => exact h
  | succ fuel ih =>
    unfold leadingZeros
    split
    · next hle =>
      rw [Nat.pow_zero, Nat.mul_one]
      exact hle
    · have hmul : ∀ k, num * 10 * 10 ^ k = num * 10 ^ (k + 1) := fun k => by
        rw [Nat.pow_succ, Nat.mul_assoc, Nat.mul_comm 10]
      rw [← hmul] at h ⊢
      exact ih h

/-- the magnitude is not too large -/
theorem zpow_magnitude_le {i : Interval} (hden : 0 < i.den)
    (hmid : i.den ≤ i.mid * 10 ^ 400) : (10 : ℚ) ^ (i.magnitude - 1) ≤ i.mid / i.den := by
  have hdenq : (0 : ℚ) < i.den := Nat.cast_pos.mpr hden
  rw [le_div_iff₀ hdenq]
  unfold magnitude
  split
  · next hle =>
    have hquot : 0 < i.mid / i.den := Nat.div_pos hle hden
    have hcount := pow_digitCount_le 400 hquot
    generalize digitCount 400 (i.mid / i.den) = count at hcount
    have hpow : (10 : ℚ) ^ ((count : Int) - 1) ≤ 10 ^ (count - 1) := by
      rw [← zpow_natCast]
      exact zpow_le_zpow_right₀ (by norm_num) (by omega)
    have hle : (10 ^ (count - 1) : ℕ) * i.den ≤ i.mid :=
      (Nat.mul_le_mul_right _ hcount).trans (Nat.div_mul_le_self ..)
    calc (10 : ℚ) ^ ((count : Int) - 1) * i.den ≤ 10 ^ (count - 1) * i.den := by gcongr
      _ ≤ i.mid := by exact_mod_cast hle
  · have hzeros := le_mul_pow_leadingZeros 400 hmid
    generalize leadingZeros 400 i.mid i.den = zeros at hzeros
    have hexp : (1 - (zeros : Int) - 1) = -(zeros : Int) := by omega
    rw [hexp, zpow_neg, zpow_natCast, inv_mul_le_iff₀ (by positivity), mul_comm]
    exact_mod_cast hzeros

/-! ## the interval of a binary number -/

/-- how far down the interval goes, in quarters of the last place -/
def below (m : Nat) (e : Int) : Nat :=
  if m = Nat.pow 2 52 ∧ -1074 < e then 1 else 2

theorem below_le (m : Nat) (e : Int) : below m e ≤ 2 := by
  unfold below
  split <;> omega

theorem den_ofParts_pos (m : Nat) (e : Int) : 0 < (ofParts m e).den :=
  Nat.mul_pos (by decide) (Nat.pow_pos (by decide))

theorem ofParts_scale (e : Int) :
    ((Nat.pow 2 e.toNat : ℕ) : ℚ) = 2 ^ e * ((Nat.pow 2 (-e).toNat : ℕ) : ℚ) := by
  have hden : ((Nat.pow 2 (-e).toNat : ℕ) : ℚ) ≠ 0 :=
    Nat.cast_ne_zero.mpr (Nat.pow_pos (by decide)).ne'
  have hpow : ((2 : ℕ) : ℚ) ^ e = _ := zpow_eq_pow_toNat_div (by decide) e
  rw [show (2 : ℚ) = ((2 : ℕ) : ℚ) from rfl, hpow, div_mul_cancel₀ _ hden]

theorem mid_div_den_ofParts (m : Nat) (e : Int) :
    ((ofParts m e).mid / (ofParts m e).den : ℚ) = m * 2 ^ e := by
  have hden : (0 : ℚ) < (ofParts m e).den := Nat.cast_pos.mpr (den_ofParts_pos m e)
  rw [div_eq_iff hden.ne']
  show ((4 * m * Nat.pow 2 e.toNat : ℕ) : ℚ) = m * 2 ^ e * ((4 * Nat.pow 2 (-e).toNat : ℕ) : ℚ)
  rw [Nat.cast_mul, Nat.cast_mul, Nat.cast_mul, ofParts_scale]
  push_cast
  ring

/-- the interval reaches from `below` quarters of the last place under the number to two above -/
theorem contains_ofParts_iff {m : Nat} (hm : 0 < m) (e : Int) (y : ℚ) :
    (ofParts m e).Contains y ↔
      if m % 2 = 0 then (4 * m - below m e) * 2 ^ e ≤ 4 * y ∧ 4 * y ≤ (4 * m + 2) * 2 ^ e
      else (4 * m - below m e) * 2 ^ e < 4 * y ∧ 4 * y < (4 * m + 2) * 2 ^ e := by
  have hscale : (0 : ℚ) < ((Nat.pow 2 (-e).toNat : ℕ) : ℚ) :=
    Nat.cast_pos.mpr (Nat.pow_pos (by decide))
  have hbelow : below m e ≤ 4 * m := (below_le m e).trans (by omega)
  have hlow : ((ofParts m e).low : ℚ) =
      ((4 * m - below m e) * 2 ^ e) * ((Nat.pow 2 (-e).toNat : ℕ) : ℚ) := by
    show (((4 * m - below m e) * Nat.pow 2 e.toNat : ℕ) : ℚ) = _
    rw [Nat.cast_mul, Nat.cast_sub hbelow, ofParts_scale]
    push_cast
    ring
  have hhigh : ((ofParts m e).high : ℚ) =
      ((4 * m + 2) * 2 ^ e) * ((Nat.pow 2 (-e).toNat : ℕ) : ℚ) := by
    show (((4 * m + 2) * Nat.pow 2 e.toNat : ℕ) : ℚ) = _
    rw [Nat.cast_mul, ofParts_scale]
    push_cast
    ring
  have hpoint : y * ((ofParts m e).den : ℚ) = 4 * y * ((Nat.pow 2 (-e).toNat : ℕ) : ℚ) := by
    show y * ((4 * Nat.pow 2 (-e).toNat : ℕ) : ℚ) = _
    rw [Nat.cast_mul]
    push_cast
    ring
  unfold Contains
  rw [hlow, hhigh, hpoint]
  show (if decide (m % 2 = 0) = true then _ else _) ↔ _
  rw [mul_le_mul_iff_left₀ hscale, mul_le_mul_iff_left₀ hscale, mul_lt_mul_iff_left₀ hscale,
    mul_lt_mul_iff_left₀ hscale]
  by_cases heven : m % 2 = 0
  · rw [if_pos (decide_eq_true heven), if_pos heven]
  · rw [if_neg (by rw [decide_eq_false heven]; decide), if_neg heven]

/-- the points beside the interval are as far apart as the interval is wide -/
theorem width_le_of_not_contains {m : Nat} (hm : 0 < m) {e : Int} {x y : ℚ}
    (hx : x ≤ m * 2 ^ e) (hy : m * 2 ^ e ≤ y) (hnx : ¬ (ofParts m e).Contains x)
    (hny : ¬ (ofParts m e).Contains y) : (below m e + 2) * 2 ^ e ≤ 4 * (y - x) := by
  have hunit : (0 : ℚ) < 2 ^ e := by positivity
  rw [contains_ofParts_iff hm] at hnx hny
  have hbelow : (0 : ℚ) < below m e := by
    unfold below
    split <;> norm_num
  have hbelowUnit := mul_pos hbelow hunit
  -- neither end of the interval is on the other side of the number
  have hxlow : 4 * x ≤ (4 * m - below m e) * 2 ^ e := by
    split at hnx
    · by_contra hlow
      exact hnx ⟨(not_le.mp hlow).le, by linarith⟩
    · by_contra hlow
      exact hnx ⟨not_le.mp hlow, by linarith⟩
  have hyhigh : (4 * m + 2) * 2 ^ e ≤ 4 * y := by
    split at hny
    · by_contra hhigh
      exact hny ⟨by linarith, (not_le.mp hhigh).le⟩
    · by_contra hhigh
      exact hny ⟨by linarith, not_le.mp hhigh⟩
  linarith

/-- seventeen digits are enough: a grid as fine as that has a point in the interval -/
theorem onGrid_ne_none {m : Nat} (hm : 0 < m) (hm53 : m < Nat.pow 2 53) {e : Int} (tie : Tie)
    {step : Int} (hstep : (10 : ℚ) ^ step * 10 ^ 16 ≤ m * 2 ^ e) :
    (ofParts m e).onGrid tie step ≠ none := by
  intro hnone
  have hunit : (0 : ℚ) < 2 ^ e := by positivity
  obtain ⟨hlower, hupper⟩ := not_contains_of_onGrid hnone
  obtain ⟨hle, hlt⟩ := floorOn_bounds (den_ofParts_pos m e) step
  rw [mid_div_den_ofParts] at hle hlt
  have hwidth := width_le_of_not_contains hm hle hlt.le hlower hupper
  have hspacing : ((floorOn (ofParts m e) step + 1 : ℕ) : ℚ) * 10 ^ step -
      floorOn (ofParts m e) step * 10 ^ step = 10 ^ step := by
    push_cast
    ring
  rw [hspacing] at hwidth
  -- the interval is wider than a part in 10 ^ 16 of the number
  have hparts : (below m e + 2) * 10 ^ 16 * (2 : ℚ) ^ e ≤ 4 * m * 2 ^ e := by linarith
  have hnat : (below m e + 2) * 10 ^ 16 ≤ 4 * m := by
    exact_mod_cast le_of_mul_le_mul_right hparts hunit
  unfold below at hnat
  split at hnat
  · next h =>
    rw [h.1] at hnat
    exact absurd hnat (by decide)
  · have h53 : Nat.pow 2 53 = 9007199254740992 := by decide
    omega

/-! ## no real is in two intervals -/

/-- a significand with an exponent, as a positive binary number has them -/
structure Canonical (m : Nat) (e : Int) : Prop where
  pos : 0 < m
  lt : m < Nat.pow 2 53
  le : -1074 ≤ e
  normal : -1074 < e → Nat.pow 2 52 ≤ m

/-- a real in two intervals: the upper one begins below the end of the lower one, and at the end
only if both are closed -/
theorem ends_of_contains {m m' : Nat} {e e' : Int} (hm : 0 < m) (hm' : 0 < m') {y : ℚ}
    (hy : (ofParts m e).Contains y) (hy' : (ofParts m' e').Contains y) :
    (4 * m' - below m' e') * (2 : ℚ) ^ e' ≤ (4 * m + 2) * 2 ^ e ∧
      (¬ (m % 2 = 0 ∧ m' % 2 = 0) →
        (4 * m' - below m' e') * (2 : ℚ) ^ e' < (4 * m + 2) * 2 ^ e) := by
  rw [contains_ofParts_iff hm] at hy
  rw [contains_ofParts_iff hm'] at hy'
  split at hy
  · next heven =>
    split at hy'
    · next heven' => exact ⟨by linarith [hy.2, hy'.1], fun h => absurd ⟨heven, heven'⟩ h⟩
    · have hlt := hy'.1.trans_le hy.2
      exact ⟨hlt.le, fun _ => hlt⟩
  · split at hy'
    · have hlt := hy'.1.trans_lt hy.2
      exact ⟨hlt.le, fun _ => hlt⟩
    · have hlt := hy'.1.trans hy.2
      exact ⟨hlt.le, fun _ => hlt⟩

/-- with one exponent, an interval ends at the latest where the next one begins -/
theorem not_contains_of_significand_lt {m m' : Nat} {e : Int} (h : Canonical m e)
    (h' : Canonical m' e) (hlt : m < m') {y : ℚ} (hy : (ofParts m e).Contains y) :
    ¬ (ofParts m' e).Contains y := by
  intro hy'
  have hunit : (0 : ℚ) < 2 ^ e := by positivity
  have htwo : below m' e = 2 := by
    refine if_neg fun hpower => ?_
    have := h.normal hpower.2
    omega
  obtain ⟨hle, hodd⟩ := ends_of_contains h.pos h'.pos hy hy'
  rw [htwo] at hle hodd
  push_cast at hle hodd
  have hnat : 4 * m' ≤ 4 * m + 4 := by
    have hparts : (4 * m' - 2 : ℚ) ≤ 4 * m + 2 := le_of_mul_le_mul_right hle hunit
    have : (4 * m' : ℚ) ≤ 4 * m + 4 := by linarith
    exact_mod_cast this
  -- neighbours are not both even, so the common end belongs to one of them at most
  have hstrict : 4 * m' < 4 * m + 4 := by
    have hparts : (4 * m' - 2 : ℚ) < 4 * m + 2 :=
      lt_of_mul_lt_mul_right (hodd (by omega)) hunit.le
    have : (4 * m' : ℚ) < 4 * m + 4 := by linarith
    exact_mod_cast this
  omega

/-- an interval ends at the latest where the one of the next power of two begins -/
theorem not_contains_of_exponent_lt {m m' : Nat} {e e' : Int} (h : Canonical m e)
    (h' : Canonical m' e') (hlt : e < e') {y : ℚ} (hy : (ofParts m e).Contains y) :
    ¬ (ofParts m' e').Contains y := by
  intro hy'
  have hunit : (0 : ℚ) < 2 ^ e := by positivity
  have h52 : Nat.pow 2 52 = 4503599627370496 := by decide
  have h53 : Nat.pow 2 53 = 9007199254740992 := by decide
  have hnormal : -1074 < e' := h.le.trans_lt hlt
  have hm' := h'.normal hnormal
  have hbelow := below_le m' e'
  obtain ⟨hle, hodd⟩ := ends_of_contains h.pos h'.pos hy hy'
  -- the upper interval in units of the lower one
  have hscaled : 2 * (4 * m' - below m' e') * (2 : ℚ) ^ e ≤
      (4 * m' - below m' e') * 2 ^ e' := by
    have hlow : (0 : ℚ) ≤ 4 * m' - below m' e' := by
      have hcast : (below m' e' : ℚ) ≤ 4 * m' := by
        exact_mod_cast hbelow.trans (by omega)
      linarith
    have htwice : (2 : ℚ) * 2 ^ e ≤ 2 ^ e' := by
      rw [mul_comm, ← zpow_add_one₀ (by norm_num)]
      exact zpow_le_zpow_right₀ (by norm_num) (by omega)
    linarith [mul_le_mul_of_nonneg_left htwice hlow]
  have hnat : 2 * (4 * m') ≤ 4 * m + 2 + 2 * below m' e' := by
    have hparts : (2 * (4 * m' - below m' e') : ℚ) ≤ 4 * m + 2 :=
      le_of_mul_le_mul_right (hscaled.trans hle) hunit
    have : (2 * (4 * m') : ℚ) ≤ 4 * m + 2 + 2 * below m' e' := by linarith
    exact_mod_cast this
  have hstrict : ¬ (m % 2 = 0 ∧ m' % 2 = 0) → 2 * (4 * m') < 4 * m + 2 + 2 * below m' e' := by
    intro hne
    have hparts : (2 * (4 * m' - below m' e') : ℚ) < 4 * m + 2 :=
      lt_of_mul_lt_mul_right (hscaled.trans_lt (hodd hne)) hunit.le
    have : (2 * (4 * m') : ℚ) < 4 * m + 2 + 2 * below m' e' := by linarith
    exact_mod_cast this
  have hm := h.lt
  by_cases hpower : m' = Nat.pow 2 52
  · have hone : below m' e' = 1 := if_pos ⟨hpower, hnormal⟩
    omega
  · omega

/-- no real rounds to two numbers -/
theorem eq_of_contains {m m' : Nat} {e e' : Int} (h : Canonical m e) (h' : Canonical m' e')
    {y : ℚ} (hy : (ofParts m e).Contains y) (hy' : (ofParts m' e').Contains y) :
    m = m' ∧ e = e' := by
  rcases lt_trichotomy e e' with hlt | rfl | hlt
  · exact absurd hy' (not_contains_of_exponent_lt h h' hlt hy)
  · rcases lt_trichotomy m m' with hlt | rfl | hlt
    · exact absurd hy' (not_contains_of_significand_lt h h' hlt hy)
    · exact ⟨rfl, rfl⟩
    · exact absurd hy (not_contains_of_significand_lt h' h hlt hy')
  · exact absurd hy (not_contains_of_exponent_lt h' h hlt hy')

/-- zero rounds to no positive number -/
theorem not_contains_zero {m : Nat} (hm : 0 < m) (e : Int) : ¬ (ofParts m e).Contains 0 := by
  have hunit : (0 : ℚ) < 2 ^ e := by positivity
  have hbelow : below m e < 4 * m := lt_of_le_of_lt (below_le m e) (by omega)
  have hcast : (below m e : ℚ) < 4 * m := by exact_mod_cast hbelow
  have hlow : (0 : ℚ) < (4 * m - below m e) * 2 ^ e := mul_pos (by linarith) hunit
  rw [contains_ofParts_iff hm]
  split
  · intro h
    linarith [h.1]
  · intro h
    linarith [h.1]

end Interval

/-! ## finite numbers -/

namespace Binary64

theorem fraction_lt (x : Binary64) : x.fraction < Nat.pow 2 52 :=
  Nat.mod_lt _ (by decide)

theorem canonical {x : Binary64} (hx : x.significand ≠ 0) :
    Interval.Canonical x.significand x.exponent := by
  have hfraction := x.fraction_lt
  have h52 : Nat.pow 2 52 = 4503599627370496 := by decide
  have h53 : Nat.pow 2 53 = 9007199254740992 := by decide
  refine ⟨Nat.pos_of_ne_zero hx, ?_, ?_, ?_⟩
  · unfold significand
    split <;> omega
  · unfold exponent
    split <;> omega
  · unfold significand exponent
    split <;> omega

theorem two_pow_le_ten_pow {k n : Nat} (h : k ≤ 3 * n) : 2 ^ k ≤ 10 ^ n := by
  calc 2 ^ k ≤ 2 ^ (3 * n) := Nat.pow_le_pow_right (by decide) h
    _ = (2 ^ 3) ^ n := Nat.pow_mul 2 3 n
    _ ≤ 10 ^ n := Nat.pow_le_pow_left (by decide) n

/-- a number is at least the least positive one -/
theorem den_le_mid_mul {x : Binary64} (hx : x.significand ≠ 0) :
    (Interval.ofParts x.significand x.exponent).den ≤
      (Interval.ofParts x.significand x.exponent).mid * 10 ^ 400 := by
  have hcanonical := canonical hx
  have hden : 2 ^ (-x.exponent).toNat ≤ 10 ^ 400 := by
    have := hcanonical.le
    exact two_pow_le_ten_pow (by omega)
  have hscale : 0 < Nat.pow 2 x.exponent.toNat := Nat.pow_pos (by decide)
  have hmid : 4 ≤ 4 * x.significand * Nat.pow 2 x.exponent.toNat := by
    calc 4 = 4 * 1 * 1 := rfl
      _ ≤ 4 * x.significand * Nat.pow 2 x.exponent.toNat :=
        Nat.mul_le_mul (Nat.mul_le_mul_left 4 hcanonical.pos) hscale
  show 4 * Nat.pow 2 (-x.exponent).toNat ≤
    4 * x.significand * Nat.pow 2 x.exponent.toNat * 10 ^ 400
  calc 4 * Nat.pow 2 (-x.exponent).toNat ≤ 4 * 10 ^ 400 := Nat.mul_le_mul_left 4 hden
    _ ≤ _ := Nat.mul_le_mul_right _ hmid

/-- the shortest decimal of a number that is not zero rounds to it -/
theorem contains_shortest {x : Binary64} (hx : x.significand ≠ 0) (tie : Tie) :
    (Interval.ofParts x.significand x.exponent).Contains (x.shortest tie).value := by
  have hcanonical := canonical hx
  unfold shortest
  rw [if_neg hx]
  have hmagnitude := Interval.zpow_magnitude_le
    (Interval.den_ofParts_pos x.significand x.exponent) (den_le_mid_mul hx)
  rw [Interval.mid_div_den_ofParts] at hmagnitude
  refine Interval.contains_coarsest
    ((Interval.ofParts x.significand x.exponent).magnitude - 1 - 16)
    (Interval.onGrid_ne_none hcanonical.pos hcanonical.lt tie ?_) 17 _ (by omega) (by omega)
  calc (10 : ℚ) ^ ((Interval.ofParts x.significand x.exponent).magnitude - 1 - 16) * 10 ^ 16
      = 10 ^ ((Interval.ofParts x.significand x.exponent).magnitude - 1) := by
        rw [← zpow_natCast (10 : ℚ) 16, ← zpow_add₀ (by norm_num)]
        congr 1
        omega
    _ ≤ _ := hmagnitude

theorem shortest_of_zero {x : Binary64} (hx : x.significand = 0) (tie : Tie) :
    (x.shortest tie).value = 0 := by
  unfold shortest
  rw [if_pos hx]
  exact zero_mul _

/-- a number is its sign, its significand and its exponent -/
theorem eq_of_parts {x y : Binary64} (hsign : x.negative = y.negative)
    (hsignificand : x.significand = y.significand) (hexponent : x.exponent = y.exponent) :
    x = y := by
  have hxfraction := x.fraction_lt
  have hyfraction := y.fraction_lt
  -- only the leading bit of the significand tells a subnormal number from a normal one
  have hfields : x.exponentField = y.exponentField ∧ x.fraction = y.fraction := by
    unfold significand at hsignificand
    unfold exponent at hexponent
    by_cases hx : x.exponentField = 0
    · by_cases hy : y.exponentField = 0
      · rw [if_pos hx, if_pos hy] at hsignificand
        exact ⟨hx.trans hy.symm, hsignificand⟩
      · rw [if_pos hx, if_neg hy] at hsignificand
        omega
    · by_cases hy : y.exponentField = 0
      · rw [if_neg hx, if_pos hy] at hsignificand
        omega
      · rw [if_neg hx, if_neg hy] at hsignificand hexponent
        omega
  have hbits : x.bits.toNat = y.bits.toNat := by
    obtain ⟨hfield, hfraction⟩ := hfields
    have h11 : Nat.pow 2 11 = 2048 := by decide
    have h52 : Nat.pow 2 52 = 4503599627370496 := by decide
    have h63 : Nat.pow 2 63 = 9223372036854775808 := by decide
    have hxbits := x.bits.toNat_lt
    have hybits := y.bits.toNat_lt
    have hsign := decide_eq_decide.mp hsign
    unfold exponentField at hfield
    unfold fraction at hfraction
    rw [h52, h11] at hfield
    rw [h52] at hfraction
    rw [h63] at hsign
    omega
  cases x
  cases y
  exact congrArg Binary64.mk (UInt64.toNat_inj.mp hbits)

theorem exponent_of_zero {x : Binary64} (hx : x.significand = 0) : x.exponent = -1074 := by
  have h52 : 0 < Nat.pow 2 52 := by decide
  unfold significand at hx
  unfold exponent
  split at hx
  · next hfield => rw [if_pos hfield]
  · omega

/-- a number is told by its sign and what its shortest decimal stands for -/
theorem eq_of_shortest_value_eq {x y : Binary64} (tie : Tie) (hsign : x.negative = y.negative)
    (hvalue : (x.shortest tie).value = (y.shortest tie).value) : x = y := by
  by_cases hx : x.significand = 0
  · by_cases hy : y.significand = 0
    · exact eq_of_parts hsign (hx.trans hy.symm)
        ((exponent_of_zero hx).trans (exponent_of_zero hy).symm)
    · have hzero := contains_shortest hy tie
      rw [← hvalue, shortest_of_zero hx] at hzero
      exact absurd hzero (Interval.not_contains_zero (canonical hy).pos _)
  · by_cases hy : y.significand = 0
    · have hzero := contains_shortest hx tie
      rw [hvalue, shortest_of_zero hy] at hzero
      exact absurd hzero (Interval.not_contains_zero (canonical hx).pos _)
    · have hxvalue := contains_shortest hx tie
      have hyvalue := contains_shortest hy tie
      rw [← hvalue] at hyvalue
      obtain ⟨hsignificand, hexponent⟩ :=
        Interval.eq_of_contains (canonical hx) (canonical hy) hxvalue hyvalue
      exact eq_of_parts hsign hsignificand hexponent

end Binary64

end ServiceGraph
