/-!
# Magnitudes and rounding

A finite binary64 number is a signed multiple of `2 ^ (-1074)`, the unit of this module. A
magnitude counts units; it has at most 53 significant bits. Every rounding in the library is
`roundRatio`, to the nearest magnitude with ties to even.
-/

namespace SparseProgram

/-- Powers of natural numbers. The modules on numbers choose them by name, so that `^` means the
same there whatever else is in scope. -/
abbrev naturalPower : Pow Nat Nat :=
  instPowNat

attribute [local instance] naturalPower

def precision : Nat :=
  53

/-- Exponent of the finest power of two that the significant bits reach at the size of `n`. -/
def gridExponent (n : Nat) : Nat :=
  n.log2 + 1 - precision

theorem lt_two_pow_gridExponent (n : Nat) : n < 2 ^ (precision + gridExponent n) := by
  refine Nat.lt_of_lt_of_le Nat.lt_log2_self ?_
  exact Nat.pow_le_pow_right (by decide) (by unfold gridExponent; omega)

theorem gridExponent_le_of_lt {n k : Nat} (h : n < 2 ^ (precision + k)) : gridExponent n ≤ k := by
  by_cases hn : n = 0
  · simp [hn, gridExponent, precision]
  · have hlog := (Nat.log2_lt hn).2 h
    unfold gridExponent
    omega

def lastGridExponent : Nat :=
  2045

/-- The units of the first magnitude beyond the largest finite number. -/
@[irreducible] def infinityUnits : Nat :=
  2 ^ (precision + lastGridExponent)

def Representable (n : Nat) : Prop :=
  n < infinityUnits ∧ 2 ^ gridExponent n ∣ n

instance (n : Nat) : Decidable (Representable n) :=
  inferInstanceAs (Decidable (_ ∧ _))

/-- Absolute values of finite numbers, in units. -/
abbrev Magnitude := { n : Nat // Representable n }

theorem two_pow_gridExponent_dvd_mul {r k : Nat} (h : r ≤ 2 ^ precision) :
    2 ^ gridExponent (r * 2 ^ k) ∣ r * 2 ^ k := by
  rcases Nat.lt_or_eq_of_le h with hlt | heq
  · have hgrid : gridExponent (r * 2 ^ k) ≤ k := by
      apply gridExponent_le_of_lt
      rw [Nat.pow_add]
      exact Nat.mul_lt_mul_of_pos_right hlt (Nat.two_pow_pos k)
    exact Nat.dvd_mul_left_of_dvd (Nat.pow_dvd_pow 2 hgrid) r
  · rw [heq, ← Nat.pow_add]
    apply Nat.pow_dvd_pow
    apply Nat.le_trans (gridExponent_le_of_lt (k := k + 1) ?_)
    · unfold precision
      omega
    · exact Nat.pow_lt_pow_right (by decide) (by omega)

/-- Multiples of a power of two by as many bits as are significant are representable, and so is
the first multiple beyond them. -/
theorem representable_mul_two_pow {r k : Nat} (h : r ≤ 2 ^ precision)
    (hlt : r * 2 ^ k < infinityUnits) : Representable (r * 2 ^ k) :=
  ⟨hlt, two_pow_gridExponent_dvd_mul h⟩

theorem infinityUnits_eq : infinityUnits = 2 ^ (precision + lastGridExponent) := by
  unfold infinityUnits
  rfl

theorem infinityUnits_pos : 0 < infinityUnits := by
  rw [infinityUnits_eq]
  exact Nat.two_pow_pos _

theorem representable_zero : Representable 0 :=
  ⟨infinityUnits_pos, Nat.dvd_zero _⟩

/-- The whole number nearest to `num / den`; a half goes to the even neighbour. -/
def nearestWhole (num den : Nat) : Nat :=
  let quotient := num / den
  let twice := 2 * (num % den)
  if twice < den then quotient
  else if den < twice then quotient + 1
  else if quotient % 2 = 0 then quotient
  else quotient + 1

theorem nearestWhole_le (num den : Nat) : nearestWhole num den ≤ num / den + 1 := by
  unfold nearestWhole
  grind

theorem nearestWhole_mul (q : Nat) {den : Nat} (hden : 0 < den) :
    nearestWhole (q * den) den = q := by
  simp [nearestWhole, Nat.mul_div_cancel q hden, hden]

/-- The units that `num / den` units round to, on the grid of that size. -/
def roundedUnits (num den : Nat) : Nat :=
  let step := 2 ^ gridExponent (num / den)
  nearestWhole num (den * step) * step

theorem dvd_roundedUnits (num den : Nat) :
    2 ^ gridExponent (roundedUnits num den) ∣ roundedUnits num den := by
  apply two_pow_gridExponent_dvd_mul
  refine Nat.le_trans (nearestWhole_le _ _) ?_
  rw [← Nat.div_div_eq_div_mul]
  apply Nat.succ_le_of_lt
  rw [Nat.div_lt_iff_lt_mul (Nat.two_pow_pos _), ← Nat.pow_add]
  exact lt_two_pow_gridExponent _

theorem nearestWhole_mul_right (num den : Nat) {c : Nat} (hc : 0 < c) :
    nearestWhole (num * c) (den * c) = nearestWhole num den := by
  have htwice : 2 * (num % den * c) = 2 * (num % den) * c := (Nat.mul_assoc _ _ _).symm
  simp only [nearestWhole, Nat.mul_div_mul_right _ _ hc, Nat.mul_mod_mul_right, htwice,
    Nat.mul_lt_mul_right hc]

/-- Rounding depends on the value of the fraction alone. -/
theorem roundedUnits_mul_right (num den : Nat) {c : Nat} (hc : 0 < c) :
    roundedUnits (num * c) (den * c) = roundedUnits num den := by
  have hstep : ∀ step, den * c * step = den * step * c := fun step => by
    rw [Nat.mul_assoc, Nat.mul_comm c, ← Nat.mul_assoc]
  simp only [roundedUnits, Nat.mul_div_mul_right _ _ hc, hstep, nearestWhole_mul_right _ _ hc]

/-- The magnitude nearest to `num / den` units, `none` where it would be infinite. -/
@[irreducible] def roundRatio (num den : Nat) : Option Magnitude :=
  if h : roundedUnits num den < infinityUnits then
    some ⟨roundedUnits num den, h, dvd_roundedUnits num den⟩
  else
    none

theorem roundRatio_mul_right (num den : Nat) {c : Nat} (hc : 0 < c) :
    roundRatio (num * c) (den * c) = roundRatio num den := by
  simp only [roundRatio, roundedUnits_mul_right num den hc]

theorem roundedUnits_mul {n den : Nat} (hn : Representable n) (hden : 0 < den) :
    roundedUnits (n * den) den = n := by
  obtain ⟨q, hq⟩ := hn.2
  have hstep : 0 < 2 ^ gridExponent n := Nat.two_pow_pos _
  have hsplit : n * den = q * (den * 2 ^ gridExponent n) := by
    rw [Nat.mul_comm den, ← Nat.mul_assoc, Nat.mul_comm q, ← hq]
  simp only [roundedUnits, Nat.mul_div_cancel n hden]
  rw [hsplit, nearestWhole_mul q (Nat.mul_pos hden hstep), Nat.mul_comm, ← hq]

theorem roundRatio_mul (m : Magnitude) {den : Nat} (hden : 0 < den) :
    roundRatio (m.val * den) den = some m := by
  have hround := roundedUnits_mul m.2 hden
  have hlt : roundedUnits (m.val * den) den < infinityUnits := by
    rw [hround]
    exact m.2.1
  simp only [roundRatio, hlt, dite_true]
  exact congrArg some (Subtype.ext hround)

end SparseProgram
