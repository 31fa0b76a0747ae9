import SparseProgram.Proofs.Number.Negation

/-!
# Addition

A sum is blind to the signs of zero summands, and finite summands never make it NaN. Exact sums
that start from zero are known by their values, as none of them ends at the negative zero.
-/

namespace SparseProgram

namespace Binary64

variable {x y : Binary64}

/-! ## Summands -/

theorem add_comm (x y : Binary64) : x + y = y + x := by
  show add x y = add y x
  match x, y with
  | nan, nan => rfl
  | nan, infinite _ => rfl
  | nan, finite _ _ => rfl
  | infinite _, nan => rfl
  | finite _ _, nan => rfl
  | infinite _, finite _ _ => rfl
  | finite _ _, infinite _ => rfl
  | infinite a, infinite b => cases a <;> cases b <;> rfl
  | finite a m, finite b n => simp only [add, Int.add_comm (signed a m.val), Bool.and_comm a]

theorem neg_zero_add (x : Binary64) : -zero + x = x := by
  show add (finite true ⟨0, representable_zero⟩) x = x
  match x with
  | nan => rfl
  | infinite negative => rfl
  | finite negative m =>
      have hstart : signed true 0 = 0 := rfl
      by_cases hm : m.val = 0
      · obtain rfl : m = ⟨0, representable_zero⟩ := Subtype.ext hm
        cases negative <;> rfl
      · have hsigned : signed negative m.val ≠ 0 := by
          intro hzero
          exact hm (by simpa using congrArg Int.natAbs hzero)
        have hround : ofUnits negative m.val 1 = finite negative m := by
          simpa using ofUnits_mul negative m Nat.one_pos
        have hnegative : decide (signed negative m.val < 0) = negative := by
          cases negative
          · exact decide_eq_false (Int.not_lt.2 (Int.natCast_nonneg m.val))
          · simp [signed_true, Nat.pos_of_ne_zero hm]
        simp only [add, hstart, Int.zero_add, if_neg hsigned, natAbs_signed, hnegative, hround]

theorem finite_add_finite (a b : Bool) (m n : Magnitude) :
    finite a m + finite b n
      = if signed a m.val + signed b n.val = 0 then finite (a && b) ⟨0, representable_zero⟩
        else ofUnits (decide (signed a m.val + signed b n.val < 0))
          (signed a m.val + signed b n.val).natAbs 1 :=
  rfl

theorem add_ne_nan (hx : x ≠ nan) (hy : y.isFinite = true) : x + y ≠ nan := by
  match x, y with
  | infinite a, finite b n => exact Binary64.noConfusion
  | finite a m, finite b n =>
      rw [finite_add_finite, ofUnits]
      split
      · simp
      · split <;> simp

/-! ## Unsigned zeros -/

/-- The number without the sign of a zero. -/
def unsignZero (x : Binary64) : Binary64 :=
  if x.isZero then zero else x

theorem unsignZero_of_isZero (h : x.isZero = true) : x.unsignZero = zero :=
  if_pos h

theorem unsignZero_of_not_isZero (h : ¬x.isZero = true) : x.unsignZero = x :=
  if_neg h

theorem unsignZero_ne_neg_zero (x : Binary64) : x.unsignZero ≠ -zero := by
  by_cases hx : x.isZero = true
  · rw [unsignZero_of_isZero hx]
    decide
  · rw [unsignZero_of_not_isZero hx]
    intro heq
    exact hx (isZero_iff_eq.2 (.inr heq))

@[simp] theorem unsignZero_unsignZero (x : Binary64) : x.unsignZero.unsignZero = x.unsignZero := by
  by_cases hx : x.isZero = true
  · rw [unsignZero_of_isZero hx]
    rfl
  · rw [unsignZero_of_not_isZero hx, unsignZero_of_not_isZero hx]

@[simp] theorem unsignZero_infinite (negative : Bool) :
    (infinite negative).unsignZero = infinite negative :=
  unsignZero_of_not_isZero (by simp [isZero_infinite])

@[simp] theorem rank_unsignZero (x : Binary64) : x.unsignZero.rank = x.rank := by
  by_cases hx : x.isZero = true
  · rw [unsignZero_of_isZero hx, isZero_iff.1 hx, rank_zero]
  · rw [unsignZero_of_not_isZero hx]

theorem unsignZero_ne_nan_iff : x.unsignZero ≠ nan ↔ x ≠ nan := by
  rw [Ne, Ne, ← rank_eq_none_iff, ← rank_eq_none_iff, rank_unsignZero]

theorem sameNumber_unsignZero (x y : Binary64) : x.unsignZero.sameNumber y = x.sameNumber y := by
  rw [sameNumber, compareRanks, rank_unsignZero]
  rfl

theorem isZero_unsignZero (x : Binary64) : x.unsignZero.isZero = x.isZero :=
  sameNumber_unsignZero x zero

/-- Numbers are the same if they are equal but for the signs of zeros. -/
theorem sameNumber_iff_unsignZero (x y : Binary64) :
    x.sameNumber y = true ↔ x ≠ nan ∧ x.unsignZero = y.unsignZero := by
  constructor
  · intro h
    refine ⟨(ne_nan_of_sameNumber h).1, ?_⟩
    rcases eq_or_isZero_of_sameNumber h with rfl | ⟨hx, hy⟩
    · rfl
    · rw [unsignZero_of_isZero hx, unsignZero_of_isZero hy]
  · rintro ⟨hx, heq⟩
    exact sameNumber_iff.2 ⟨hx, by rw [← rank_unsignZero x, heq, rank_unsignZero]⟩

/-- The sum of two numbers, but for the sign of a zero, does not depend on the signs of zeros. -/
theorem unsignZero_add (x y : Binary64) :
    (x.unsignZero + y.unsignZero).unsignZero = (x + y).unsignZero := by
  have hzero (x y : Binary64) (hx : x.isZero = true) :
      (x.unsignZero + y.unsignZero).unsignZero = (x + y).unsignZero := by
    rw [unsignZero_of_isZero hx, zero_add y.unsignZero_ne_neg_zero, unsignZero_unsignZero]
    rcases isZero_iff_eq.1 hx with rfl | rfl
    · by_cases hy : y = -zero
      · rw [hy]
        rfl
      · rw [zero_add hy]
    · rw [neg_zero_add]
  by_cases hx : x.isZero = true
  · exact hzero x y hx
  · by_cases hy : y.isZero = true
    · rw [add_comm, add_comm x]
      exact hzero y x hy
    · rw [unsignZero_of_not_isZero hx, unsignZero_of_not_isZero hy]

/-! ## Exact sums -/

theorem isFinite_iff : x.isFinite = true ↔ ∃ q, x.value? = some q := by
  cases x <;> simp [isFinite, value?]

theorem value_finite (negative : Bool) (m : Magnitude) :
    (finite negative m).value = (signed negative m.val : Rat) / unitsPerOne :=
  rfl

theorem sameNumber_of_value_eq (hx : x.isFinite = true) (hy : y.isFinite = true)
    (h : x.value = y.value) : x.sameNumber y = true := by
  have hunits : (unitsPerOne : Rat) ≠ 0 := Nat.cast_ne_zero.2 (Nat.ne_of_gt unitsPerOne_pos)
  match x, y with
  | finite a m, finite b n =>
      rw [value_finite, value_finite, div_left_inj' hunits, Int.cast_inj] at h
      exact sameNumber_iff.2 ⟨by simp, congrArg some h⟩

/-- Finite numbers other than the negative zero are known by their values. -/
theorem eq_of_value_eq (hx : x.isFinite = true) (hy : y.isFinite = true) (hx0 : x ≠ -zero)
    (hy0 : y ≠ -zero) (h : x.value = y.value) : x = y := by
  rcases eq_or_isZero_of_sameNumber (sameNumber_of_value_eq hx hy h) with heq | ⟨hxzero, hyzero⟩
  · exact heq
  · rw [(isZero_iff_eq.1 hxzero).resolve_right hx0, (isZero_iff_eq.1 hyzero).resolve_right hy0]

theorem AddsExactly.isFinite_add (h : x.AddsExactly y) : (x + y).isFinite = true :=
  isFinite_iff.2 ⟨_, h.2.2⟩

theorem AddsExactly.add_ne_neg_zero (h : x.AddsExactly y) (hx : x ≠ -zero) : x + y ≠ -zero := by
  intro hsum
  have hunits : (unitsPerOne : Rat) ≠ 0 := Nat.cast_ne_zero.2 (Nat.ne_of_gt unitsPerOne_pos)
  have hvalue : x.value + y.value = 0 := by
    rw [← h.value_add, hsum, value_neg, value_zero, neg_zero]
  obtain ⟨hxfinite, hyfinite, -⟩ := h
  match x, y with
  | finite a m, finite b n =>
      rw [value_finite, value_finite, ← add_div, div_eq_zero_iff, or_iff_left hunits] at hvalue
      have htotal : signed a m.val + signed b n.val = 0 := by exact_mod_cast hvalue
      rw [finite_add_finite, if_pos htotal] at hsum
      have hsigns : a = true ∧ b = true := by
        have hboth : (a && b) = true := (Binary64.finite.inj hsum).1
        simpa using hboth
      obtain ⟨rfl, rfl⟩ := hsigns
      -- Two numbers below zero that cancel are zeros themselves.
      have hm : m.val = 0 := by
        rw [signed_true, signed_true] at htotal
        omega
      exact hx (congrArg (finite true) (Subtype.ext hm))

/-- A sum that rounds nowhere has the value of its summands. -/
theorem SumsExactly.foldl {start : Binary64} {numbers : List Binary64}
    (h : start.SumsExactly numbers) (hstart : start.isFinite = true) (hzero : start ≠ -zero) :
    (numbers.foldl (· + ·) start).isFinite = true
      ∧ numbers.foldl (· + ·) start ≠ -zero
      ∧ (numbers.foldl (· + ·) start).value = start.value + (numbers.map value).sum := by
  induction numbers generalizing start with
  | nil => exact ⟨hstart, hzero, by simp⟩
  | cons x rest ih =>
      obtain ⟨hadd, hrest⟩ := h
      obtain ⟨hfinite, hne, hvalue⟩ := ih hrest hadd.isFinite_add (hadd.add_ne_neg_zero hzero)
      refine ⟨hfinite, hne, ?_⟩
      rw [List.foldl_cons, hvalue, hadd.value_add, List.map_cons, List.sum_cons, add_assoc]

/-- Exact sums of the same value are the same number, up to the last bit. -/
theorem SumsExactly.foldl_eq {numbers others : List Binary64} (h : zero.SumsExactly numbers)
    (h' : zero.SumsExactly others) (hvalue : (numbers.map value).sum = (others.map value).sum) :
    numbers.foldl (· + ·) zero = others.foldl (· + ·) zero := by
  have hstart : zero ≠ -zero := by decide
  obtain ⟨hfinite, hne, hsum⟩ := h.foldl isFinite_zero hstart
  obtain ⟨hfinite', hne', hsum'⟩ := h'.foldl isFinite_zero hstart
  exact eq_of_value_eq hfinite hfinite' hne hne' (by rw [hsum, hsum', hvalue])

end Binary64

end SparseProgram
