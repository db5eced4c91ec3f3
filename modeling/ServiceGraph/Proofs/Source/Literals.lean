import ServiceGraph.Proofs.Decimal.Digits
import ServiceGraph.Proofs.Decimal.Layout
import ServiceGraph.Source.Term
import Mathlib.Data.List.Basic

/-!
# Numbers in source text

* `Term.numeralChars`: the characters that numbers are written with;
* `Term.mem_numeralChars_of_intText`, `mem_numeralChars_of_floatText`: no others are used;
* `Term.intText_inj`, `floatText_inj`: a number is told by its text; only a NaN is not.
-/

namespace ServiceGraph.Term

def numeralChars : List Char := "0123456789.e-_f:NAMEGITYFina".toList

theorem mem_numeralChars_of_digit : ∀ d < 10, Nat.digitChar d ∈ numeralChars := by decide

theorem mem_numeralChars_of_render (x : Binary64) :
    ∀ c ∈ (x.render .literal).toList, c ∈ numeralChars := by
  intro c hc
  have hmagnitude : c ∈ (if x.isInfinite = true then "inf".toList
      else NumeralStyle.literal.layout (x.shortest NumeralStyle.literal.tie)) →
      c ∈ numeralChars := by
    intro hc
    split at hc
    · exact (by decide : ∀ c ∈ "inf".toList, c ∈ numeralChars) c hc
    · exact NumeralStyle.forall_mem_layout (P := (· ∈ numeralChars)) mem_numeralChars_of_digit
        (by decide) (by decide) (by decide) _ _ c hc
  unfold Binary64.render at hc
  by_cases hnan : x.isNaN = true
  · rw [if_pos hnan] at hc
    exact (by decide : ∀ c ∈ "NaN".toList, c ∈ numeralChars) c hc
  · rw [if_neg hnan, String.toList_ofList] at hc
    by_cases hsign : x.negative = true
    · rw [if_pos hsign] at hc
      rcases List.mem_cons.mp hc with rfl | hc
      · decide
      · exact hmagnitude hc
    · rw [if_neg hsign] at hc
      exact hmagnitude hc

theorem mem_numeralChars_of_floatText (x : Binary64) :
    ∀ c ∈ (floatText x).toList, c ∈ numeralChars := by
  intro c hc
  unfold floatText at hc
  split at hc
  · revert c
    decide
  · split at hc
    · split at hc
      · revert c
        decide
      · revert c
        decide
    · rw [String.toList_append, List.mem_append] at hc
      rcases hc with hc | hc
      · exact mem_numeralChars_of_render x c hc
      · revert c
        decide

theorem mem_numeralChars_of_intText (n : Int64) :
    ∀ c ∈ (intText n).toList, c ∈ numeralChars := by
  intro c hc
  unfold intText at hc
  split at hc
  · revert c
    decide
  · exact forall_mem_toString_int mem_numeralChars_of_digit (by decide) _ c hc

/-! ## integers -/

theorem toDigits_inj {m n : Nat} (h : Nat.toDigits 10 m = Nat.toDigits 10 n) : m = n := by
  have hvalue := congrArg (Nat.ofDigitChars 10 · 0) h
  simpa using hvalue

theorem toString_int_inj {m n : Int} (h : toString m = toString n) : m = n := by
  have hminus : ∀ k, '-' ∉ Nat.toDigits 10 k := fun k hk =>
    forall_mem_toDigits (P := (· ≠ '-')) (by decide) (by decide) k _ hk rfl
  have hlist := congrArg String.toList h
  rw [toList_toString_int, toList_toString_int] at hlist
  split at hlist
  · split at hlist
    · have := toDigits_inj hlist
      omega
    · exact absurd (hlist ▸ List.mem_cons_self ..) (hminus m.toNat)
  · split at hlist
    · exact absurd (hlist ▸ List.mem_cons_self ..) (hminus n.toNat)
    · have := toDigits_inj (List.cons.inj hlist).2
      omega

/-- the least integer is not written as one, so its text is apart from all others -/
theorem intText_inj {m n : Int64} (h : intText m = intText n) : m = n := by
  have hcolon : ∀ k : Int64, ':' ∉ (toString k.toInt).toList := fun k hk =>
    forall_mem_toString_int (P := (· ≠ ':')) (by decide) (by decide) _ _ hk rfl
  unfold intText at h
  split at h
  · next hm =>
    split at h
    · next hn => rw [hm, hn]
    · exact absurd (by rw [← h]; decide) (hcolon n)
  · split at h
    · exact absurd (by rw [h]; decide) (hcolon m)
    · exact Int64.toInt_inj.mp (toString_int_inj h)

/-! ## floating point numbers -/

/-- the infinities have names, and no other number is written with their last letter -/
theorem floatText_inj {x y : Binary64} (hx : x.isNaN = false) (hy : y.isNaN = false)
    (h : floatText x = floatText y) : x = y := by
  have hname : ∀ s : String, s ++ "_f64" ≠ "f64::INFINITY" ∧ s ++ "_f64" ≠ "f64::NEG_INFINITY" := by
    intro s
    have hlast : (s ++ "_f64").toList.getLast? = some '4' := by
      rw [String.toList_append, List.getLast?_append]
      rfl
    constructor <;> intro heq <;> rw [heq] at hlast <;> exact absurd hlast (by decide)
  have hxnan : ¬ x.isNaN = true := Bool.not_eq_true _ ▸ hx
  have hynan : ¬ y.isNaN = true := Bool.not_eq_true _ ▸ hy
  unfold floatText at h
  rw [if_neg hxnan, if_neg hynan] at h
  by_cases hxinf : x.isInfinite = true
  · by_cases hyinf : y.isInfinite = true
    · rw [if_pos hxinf, if_pos hyinf] at h
      refine Binary64.eq_of_infinite hxinf hyinf ?_
      cases hxsign : x.negative <;> cases hysign : y.negative <;> rw [hxsign, hysign] at h
      · exact absurd h (by decide)
      · exact absurd h (by decide)
    · rw [if_pos hxinf, if_neg hyinf] at h
      split at h
      · exact absurd h.symm (hname _).2
      · exact absurd h.symm (hname _).1
  · by_cases hyinf : y.isInfinite = true
    · rw [if_neg hxinf, if_pos hyinf] at h
      split at h
      · exact absurd h (hname _).2
      · exact absurd h (hname _).1
    · rw [if_neg hxinf, if_neg hyinf] at h
      have hlist := congrArg String.toList h
      rw [String.toList_append, String.toList_append] at hlist
      exact Binary64.eq_of_render_eq hx hy (String.toList_inj.mp (List.append_cancel_right hlist))

end ServiceGraph.Term
