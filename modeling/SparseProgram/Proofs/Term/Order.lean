import SparseProgram.Term

/-!
# The order of terms

Terms in the order of their columns: by the first one, then by the second one, where a term of one
column comes before the products that begin with it. The order is strict and total.
-/

namespace SparseProgram

namespace Term

def secondRank : Option Nat → Nat
  | none => 0
  | some column => column + 1

theorem compareSecond_eq_lt_iff {a b : Option Nat} :
    compareSecond a b = .lt ↔ secondRank a < secondRank b := by
  cases a <;> cases b <;> simp [compareSecond, secondRank, Nat.compare_eq_lt]

variable {τ : Type} [Term τ] {s t u : τ}

theorem compare_eq_lt_iff :
    compare s t = .lt
      ↔ (columns s).1 < (columns t).1
        ∨ (columns s).1 = (columns t).1
          ∧ secondRank (columns s).2 < secondRank (columns t).2 := by
  rw [compare, compareColumns, Ordering.then_eq_lt, Nat.compare_eq_lt, Nat.compare_eq_eq,
    compareSecond_eq_lt_iff]

theorem compare_eq_gt_iff : compare s t = .gt ↔ compare t s = .lt := by
  rw [← compare_swap t s, Ordering.swap_eq_gt]

theorem before_iff : before s t = true ↔ compare s t = .lt := by
  simp [before]

theorem before_irrefl : before s s = false := by
  have heq : compare s s = .eq := compare_eq_iff.2 rfl
  simp [before, heq]

theorem before_trans (hst : before s t = true) (htu : before t u = true) :
    before s u = true := by
  rw [before_iff, compare_eq_lt_iff] at *
  omega

theorem ne_of_before (h : before s t = true) : s ≠ t := by
  rintro rfl
  rw [before_irrefl] at h
  cases h

theorem not_before_of_before (h : before s t = true) : ¬before t s = true := by
  intro hback
  exact ne_of_before (before_trans h hback) rfl

theorem isLE_compare_iff :
    (compare s t).isLE = true
      ↔ (columns s).1 < (columns t).1
        ∨ (columns s).1 = (columns t).1
          ∧ secondRank (columns s).2 ≤ secondRank (columns t).2 := by
  rw [Ordering.isLE_iff_ne_gt, compare_eq_gt_iff, compare_eq_lt_iff]
  omega

/-! ## What ordered maps ask of the order -/

instance : Std.OrientedCmp (compare : τ → τ → Ordering) where
  eq_swap := (compare_swap _ _).symm

instance : Std.TransCmp (compare : τ → τ → Ordering) where
  isLE_trans hst htu := by
    rw [isLE_compare_iff] at *
    omega

instance : Std.LawfulEqCmp (compare : τ → τ → Ordering) where
  compare_self := compare_eq_iff.2 rfl
  eq_of_compare := compare_eq_iff.1

end Term

namespace QuadraticTerm

theorem compare_linear_product (column second : Nat) :
    Term.compare (linear column) (product column second) = .lt := by
  simp [Term.compare, Term.compareColumns, Term.compareSecond, Term.columns, columns]

theorem compare_product_product (first second other : Nat) :
    Term.compare (product first second) (product first other) = Ord.compare second other := by
  simp [Term.compare, Term.compareColumns, Term.compareSecond, Term.columns, columns]

end QuadraticTerm

end SparseProgram
