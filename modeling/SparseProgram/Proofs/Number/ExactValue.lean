import SparseProgram.Semantics.Exactness

/-!
# Values of numbers

How the exact value goes through negation, sums and comparison. Adding to zero keeps the value of
every number, so a total that starts from zero and meets one number rounds nothing.
-/

namespace SparseProgram

namespace Binary64

@[simp] theorem value_zero : zero.value = 0 := by
  simp [value, value?, zero, signed]

@[simp] theorem value_one : one.value = 1 := by
  have hpos : (unitsPerOne : Rat) ≠ 0 := Nat.cast_ne_zero.2 (Nat.ne_of_gt unitsPerOne_pos)
  simp [value, value?, one, signed, hpos]

@[simp] theorem isFinite_zero : zero.isFinite = true :=
  rfl

theorem signed_not (negative : Bool) (units : Nat) :
    signed (!negative) units = -signed negative units := by
  cases negative <;> simp [signed]

@[simp] theorem isFinite_neg (x : Binary64) : (-x).isFinite = x.isFinite := by
  cases x <;> rfl

@[simp] theorem value_neg (x : Binary64) : (-x).value = -x.value := by
  cases x with
  | nan => rfl
  | infinite negative => rfl
  | finite negative m =>
      show (finite (!negative) m).value = -(finite negative m).value
      simp only [value, value?, Option.getD_some, signed_not]
      push_cast
      ring

/-- The product with minus one is the negation, for infinities and NaN too. -/
theorem neg_one_mul (x : Binary64) : -one * x = -x := by
  show mul (finite true ⟨unitsPerOne, representable_unitsPerOne⟩) x = neg x
  match x with
  | nan => rfl
  | infinite negative => simp [mul, neg, Nat.ne_of_gt unitsPerOne_pos]
  | finite negative m =>
      simp [mul, neg, Nat.mul_comm unitsPerOne, ofUnits_mul _ _ unitsPerOne_pos]

theorem zero_add_neg_zero : zero + -zero = zero :=
  rfl

theorem zero_add_matches (x : Binary64) : (zero + x).Matches x := by
  by_cases hx : x = -zero
  · rw [hx, zero_add_neg_zero]
    left
    rw [sameNumber_iff]
    exact ⟨by simp [zero], rfl⟩
  · rw [zero_add hx]
    by_cases hnan : x = nan
    · exact .inr ⟨hnan, hnan⟩
    · exact .inl (sameNumber_self.2 hnan)

@[simp] theorem value_zero_add (x : Binary64) : (zero + x).value = x.value := by
  by_cases hx : x = -zero
  · rw [hx, zero_add_neg_zero, value_neg, value_zero]
    norm_num
  · rw [zero_add hx]

@[simp] theorem isFinite_zero_add (x : Binary64) : (zero + x).isFinite = x.isFinite := by
  by_cases hx : x = -zero
  · rw [hx, zero_add_neg_zero, isFinite_neg]
  · rw [zero_add hx]

/-! ## Comparison with rationals -/

theorem belowRat_iff {x : Binary64} (h : x.isFinite = true) {q : Rat} :
    x.BelowRat q ↔ x.value ≤ q := by
  cases x with
  | finite negative m => rfl
  | nan => cases h
  | infinite negative => cases h

theorem aboveRat_iff {x : Binary64} (h : x.isFinite = true) {q : Rat} :
    x.AboveRat q ↔ q ≤ x.value := by
  cases x with
  | finite negative m => rfl
  | nan => cases h
  | infinite negative => cases h

theorem belowRat_negativeInfinity (q : Rat) : negativeInfinity.BelowRat q :=
  rfl

theorem aboveRat_infinity (q : Rat) : infinity.AboveRat q :=
  rfl

theorem isFinite_of_isZero {x : Binary64} (h : x.isZero = true) :
    x.isFinite = true ∧ x.value = 0 := by
  have hrank := (sameNumber_iff.1 h).2
  cases x with
  | nan => cases hrank
  | infinite negative =>
      have hpos := infinityUnits_pos
      cases negative <;> simp [rank, zero, signed] at hrank <;> omega
  | finite negative m =>
      have hsigned : signed negative m.val = 0 := by
        simpa [rank, zero, signed] using hrank
      exact ⟨rfl, by simp [value, value?, hsigned]⟩

/-! ## Exact sums -/

theorem AddsExactly.value_add {x y : Binary64} (h : x.AddsExactly y) :
    (x + y).value = x.value + y.value := by
  simp [value, h.2.2]

end Binary64

end SparseProgram
