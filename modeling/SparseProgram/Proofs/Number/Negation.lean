import SparseProgram.Proofs.Number.Comparison
import SparseProgram.Proofs.Number.ExactValue

/-!
# Negated numbers

Negation turns the order of numbers around. What a number says of a rational does not depend on the
sign of a zero.
-/

namespace SparseProgram

namespace Binary64

variable {x y : Binary64} {q : Rat}

/-! ## Equal numbers -/

theorem eq_or_isZero_of_sameNumber (h : x.sameNumber y = true) :
    x = y ∨ x.isZero = true ∧ y.isZero = true := by
  by_cases hx : x.isZero = true
  · refine .inr ⟨hx, ?_⟩
    rw [sameNumber_comm] at h
    exact sameNumber_trans h hx
  · left
    have hrank := (sameNumber_iff.1 h).2
    match x, y with
    | x, infinite negative => exact sameNumber_infinite_iff.1 h
    | infinite negative, y =>
        rw [sameNumber_comm] at h
        exact (sameNumber_infinite_iff.1 h).symm
    | finite a m, finite b n =>
        have hsigned : signed a m.val = signed b n.val := Option.some.inj hrank
        obtain rfl : m = n := Subtype.ext (by simpa using congrArg Int.natAbs hsigned)
        have hne : m.val ≠ 0 := by
          intro hzero
          exact hx (isZero_iff.2 (by simp [rank, signed, hzero]))
        cases a <;> cases b <;> simp only [signed_true, signed_false] at hsigned <;>
          first | rfl | omega

theorem matches_of_eq (h : x = y) : x.Matches y := by
  rw [← h]
  by_cases hx : x = nan
  · exact .inr ⟨hx, hx⟩
  · exact .inl (sameNumber_self.2 hx)

theorem matches_of_sameNumber {z : Binary64} (hx : x.sameNumber z = true)
    (hy : y.sameNumber z = true) : x.Matches y :=
  .inl (sameNumber_trans hx (sameNumber_comm y z ▸ hy))

theorem ne_nan_of_sameNumber (h : x.sameNumber y = true) : x ≠ nan ∧ y ≠ nan :=
  ⟨(sameNumber_iff.1 h).1, (sameNumber_iff.1 (sameNumber_comm x y ▸ h)).1⟩

theorem sameNumber_zero_add (h : x ≠ nan) : (zero + x).sameNumber x = true :=
  (zero_add_matches x).resolve_right fun hnan => h hnan.2

theorem belowRat_congr (h : x.sameNumber y = true) : x.BelowRat q ↔ y.BelowRat q := by
  rcases eq_or_isZero_of_sameNumber h with rfl | ⟨hx, hy⟩
  · exact Iff.rfl
  · obtain ⟨hxfinite, hxvalue⟩ := isFinite_of_isZero hx
    obtain ⟨hyfinite, hyvalue⟩ := isFinite_of_isZero hy
    rw [belowRat_iff hxfinite, belowRat_iff hyfinite, hxvalue, hyvalue]

/-! ## Negation -/

theorem rank_neg (x : Binary64) : (-x).rank = x.rank.map fun a => -a := by
  match x with
  | nan => rfl
  | infinite negative => exact congrArg some (signed_not negative infinityUnits)
  | finite negative m => exact congrArg some (signed_not negative m.val)

theorem neg_ne_nan_iff : -x ≠ nan ↔ x ≠ nan := by
  rw [Ne, Ne, ← rank_eq_none_iff, ← rank_eq_none_iff, rank_neg, Option.map_eq_none_iff]

theorem sameNumber_neg_iff : (-x).sameNumber (-y) = true ↔ x.sameNumber y = true := by
  rw [sameNumber_iff, sameNumber_iff, neg_ne_nan_iff, rank_neg, rank_neg,
    (Option.map_injective neg_injective).eq_iff]

theorem belowRat_neg_iff : (-x).BelowRat (-q) ↔ x.AboveRat q := by
  match x with
  | nan => exact Iff.rfl
  | infinite negative =>
      show (!negative) = true ↔ negative = false
      rw [Bool.not_eq_true']
  | finite negative m =>
      rw [belowRat_iff (isFinite_neg _), aboveRat_iff rfl, value_neg, neg_le_neg_iff]

theorem aboveRat_neg_iff : (-x).AboveRat (-q) ↔ x.BelowRat q := by
  simpa using (belowRat_neg_iff (x := -x) (q := -q)).symm

theorem aboveRat_congr (h : x.sameNumber y = true) : x.AboveRat q ↔ y.AboveRat q := by
  rw [← belowRat_neg_iff, ← belowRat_neg_iff]
  exact belowRat_congr (sameNumber_neg_iff.2 h)

end Binary64

end SparseProgram
