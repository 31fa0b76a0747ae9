import SparseProgram.Number.Binary64

/-!
# Comparison of numbers

What the order of numbers says of their ranks, and that a number other than zero is given by its
sign and its absolute value.
-/

namespace SparseProgram

namespace Binary64

variable {x y : Binary64}

/-! ## Order -/

theorem signed_true (units : Nat) : signed true units = -(units : Int) :=
  rfl

theorem signed_false (units : Nat) : signed false units = units :=
  rfl

theorem rank_zero : zero.rank = some 0 :=
  rfl

theorem atMost_iff :
    x.atMost y = true ↔ ∃ a b, x.rank = some a ∧ y.rank = some b ∧ a ≤ b := by
  unfold atMost compareRanks
  cases x.rank <;> cases y.rank <;> simp

theorem isNegative_iff : x.isNegative = true ↔ ∃ a, x.rank = some a ∧ a < 0 := by
  unfold isNegative lessThan compareRanks
  rw [rank_zero]
  cases x.rank <;> simp

theorem isZero_iff : x.isZero = true ↔ x.rank = some 0 := by
  rw [isZero, sameNumber_comm, sameNumber_iff, rank_zero]
  simp [zero, eq_comm]

theorem rank_enclosed {a : Int} (h : x.rank = some a) :
    -(infinityUnits : Int) ≤ a ∧ a ≤ infinityUnits := by
  match x with
  | nan => cases h
  | infinite negative =>
      obtain rfl := Option.some.inj h
      cases negative <;> simp only [signed_true, signed_false] <;> omega
  | finite negative m =>
      obtain rfl := Option.some.inj h
      have hlt : m.val < infinityUnits := m.2.1
      cases negative <;> simp only [signed_true, signed_false] <;> omega

theorem sameNumber_infinite_iff {negative : Bool} :
    x.sameNumber (infinite negative) = true ↔ x = infinite negative := by
  constructor
  · intro h
    have hrank := (sameNumber_iff.1 h).2
    have hpos := infinityUnits_pos
    match x with
    | nan => cases hrank
    | infinite sign =>
        have hsigned := Option.some.inj hrank
        cases sign <;> cases negative <;> simp only [signed_true, signed_false] at hsigned <;>
          first | rfl | omega
    | finite sign m =>
        have hsigned := congrArg Int.natAbs (Option.some.inj hrank)
        rw [natAbs_signed, natAbs_signed] at hsigned
        exact absurd hsigned (Nat.ne_of_lt m.2.1)
  · intro h
    rw [h]
    exact sameNumber_self.2 (by simp)

theorem atMost_infinity (h : x.atMost y = true) : x.atMost infinity = true := by
  obtain ⟨a, b, hx, -, -⟩ := atMost_iff.1 h
  exact atMost_iff.2 ⟨a, _, hx, rfl, (rank_enclosed hx).2⟩

theorem negativeInfinity_atMost (h : x.atMost y = true) : negativeInfinity.atMost y = true := by
  obtain ⟨a, b, -, hy, -⟩ := atMost_iff.1 h
  exact atMost_iff.2 ⟨_, b, rfl, hy, (rank_enclosed hy).1⟩

/-! ## Sign and absolute value -/

theorem isNegative_infinite (negative : Bool) : (infinite negative).isNegative = negative := by
  have hpos := infinityUnits_pos
  rw [Bool.eq_iff_iff, isNegative_iff]
  cases negative <;> simp [rank, signed_true, signed_false, hpos]

theorem isNegative_finite {negative : Bool} {m : Magnitude}
    (h : (finite negative m).isZero = false) : (finite negative m).isNegative = negative := by
  have hne : m.val ≠ 0 := by
    intro hzero
    have hrank : (finite negative m).rank = some 0 := by
      cases negative <;> simp [rank, signed, hzero]
    rw [isZero_iff.2 hrank] at h
    cases h
  rw [Bool.eq_iff_iff, isNegative_iff]
  cases negative <;> simp [rank, signed_true, signed_false, Nat.pos_of_ne_zero hne]

theorem isZero_infinite (negative : Bool) : (infinite negative).isZero = false := by
  have hpos := infinityUnits_pos
  rw [Bool.eq_false_iff, Ne, isZero_iff]
  intro h
  have hsigned := congrArg Int.natAbs (Option.some.inj h)
  rw [natAbs_signed] at hsigned
  exact Nat.ne_of_gt hpos hsigned

theorem isZero_iff_eq : x.isZero = true ↔ x = zero ∨ x = -zero := by
  constructor
  · intro h
    have hrank := isZero_iff.1 h
    match x with
    | nan => cases hrank
    | infinite negative => exact absurd h (by simp [isZero_infinite])
    | finite negative m =>
        have hsigned := congrArg Int.natAbs (Option.some.inj hrank)
        rw [natAbs_signed] at hsigned
        obtain rfl : m = ⟨0, representable_zero⟩ := Subtype.ext hsigned
        cases negative
        · exact .inl rfl
        · exact .inr rfl
  · rintro (rfl | rfl) <;> exact isZero_iff.2 rfl

/-- A number other than zero is known by its sign and its absolute value. -/
theorem eq_of_isNegative_of_abs (hx : x.isZero = false) (hy : y.isZero = false)
    (hsign : x.isNegative = y.isNegative) (habs : x.abs = y.abs) : x = y := by
  match x, y with
  | nan, nan => rfl
  | infinite a, infinite b =>
      rw [isNegative_infinite, isNegative_infinite] at hsign
      rw [hsign]
  | finite a m, finite b n =>
      rw [isNegative_finite hx, isNegative_finite hy] at hsign
      obtain rfl : m = n := by simpa [abs] using habs
      rw [hsign]

theorem abs_eq_one_of_sameNumber (h : x.abs.sameNumber one = true) : x.abs = one := by
  have hrank := (sameNumber_iff.1 h).2
  cases x with
  | nan => cases hrank
  | infinite negative =>
      have hlt : unitsPerOne < infinityUnits := representable_unitsPerOne.1
      have hunits : (infinityUnits : Int) = unitsPerOne := Option.some.inj hrank
      omega
  | finite negative m =>
      have hunits : (m.val : Int) = unitsPerOne := Option.some.inj hrank
      have hm : m = ⟨unitsPerOne, representable_unitsPerOne⟩ := Subtype.ext (Int.ofNat_inj.1 hunits)
      rw [hm]
      rfl

end Binary64

end SparseProgram
