import Mathlib.Algebra.BigOperators.Ring.List
import Mathlib.Algebra.Order.BigOperators.Group.List
import Mathlib.Algebra.Order.Ring.Rat
import Mathlib.Data.List.Induction
import Mathlib.Tactic.Ring

/-!
# Positions

Laws of maps that also see the position of each member, and of sums over them.
-/

namespace SparseProgram

variable {α β γ : Type}

theorem mapIdx_const (f : Nat → β) (l : List α) :
    (l.mapIdx fun i _ => f i) = (List.range l.length).map f := by
  apply List.ext_getElem
  · simp
  · intro i hi hi'
    simp

theorem mapIdx_ignore (f : α → β) (l : List α) : (l.mapIdx fun _ a => f a) = l.map f := by
  apply List.ext_getElem
  · simp
  · intro i hi hi'
    simp

theorem map_mapIdx (g : β → γ) (f : Nat → α → β) (l : List α) :
    (l.mapIdx f).map g = l.mapIdx fun i a => g (f i a) := by
  apply List.ext_getElem
  · simp
  · intro i hi hi'
    simp

theorem mapIdx_map (f : Nat → β → γ) (g : α → β) (l : List α) :
    (l.map g).mapIdx f = l.mapIdx fun i a => f i (g a) := by
  apply List.ext_getElem
  · simp
  · intro i hi hi'
    simp

theorem sum_mapIdx_sub (f g : Nat → α → Rat) (l : List α) :
    (l.mapIdx fun i a => f i a - g i a).sum = (l.mapIdx f).sum - (l.mapIdx g).sum := by
  induction l using List.reverseRecOn with
  | nil => simp
  | append_singleton l a ih =>
      rw [List.mapIdx_concat, List.mapIdx_concat, List.mapIdx_concat, List.sum_append,
        List.sum_append, List.sum_append, ih]
      simp only [List.sum_singleton]
      ring

theorem mul_sum_mapIdx (c : Rat) (f : Nat → α → Rat) (l : List α) :
    c * (l.mapIdx f).sum = (l.mapIdx fun i a => c * f i a).sum := by
  rw [← map_mapIdx (fun q => c * q), List.sum_map_mul_left, List.map_id']

/-- Against multipliers that vanish at all other positions, a sum is its member at one position. -/
theorem sum_mapIdx_single {l : List α} {k : Nat} {a : α} (h : l[k]? = some a) (q : Rat)
    (f : Nat → α → Rat) :
    (l.mapIdx fun i b => (Pi.single k q : Nat → Rat) i * f i b).sum = q * f k a := by
  induction l generalizing k f with
  | nil => simp at h
  | cons b rest ih =>
      rw [List.mapIdx_cons, List.sum_cons]
      cases k with
      | zero =>
          obtain rfl : b = a := by simpa using h
          have hrest : ∀ p ∈ rest.mapIdx fun i c => (Pi.single 0 q : Nat → Rat) (i + 1) * f (i + 1) c,
              p = 0 := by
            intro p hp
            obtain ⟨i, hi, rfl⟩ := List.mem_mapIdx.1 hp
            simp
          rw [List.sum_eq_zero hrest, Pi.single_eq_same, add_zero]
      | succ k =>
          have hshift (i : Nat) :
              (Pi.single (k + 1) q : Nat → Rat) (i + 1) = (Pi.single k q : Nat → Rat) i := by
            simp [Pi.single_apply]
          simp only [hshift]
          rw [ih (by simpa using h) fun i => f (i + 1)]
          simp

section Signs

variable {c : Rat} {f : Nat → α → Rat} {l : List α}

theorem forall_mem_mapIdx {P : β → Prop} {f : Nat → α → β} :
    (∀ b ∈ l.mapIdx f, P b) ↔ ∀ i a, l[i]? = some a → P (f i a) := by
  constructor
  · intro h i a ha
    obtain ⟨hi, rfl⟩ := List.getElem?_eq_some_iff.1 ha
    exact h _ (List.mem_mapIdx.2 ⟨i, hi, rfl⟩)
  · intro h b hb
    obtain ⟨i, hi, rfl⟩ := List.mem_mapIdx.1 hb
    exact h i l[i] (List.getElem?_eq_getElem hi)

theorem exists_mem_mapIdx {P : β → Prop} {f : Nat → α → β} :
    (∃ b ∈ l.mapIdx f, P b) ↔ ∃ i a, l[i]? = some a ∧ P (f i a) := by
  constructor
  · rintro ⟨b, hb, hP⟩
    obtain ⟨i, hi, rfl⟩ := List.mem_mapIdx.1 hb
    exact ⟨i, l[i], List.getElem?_eq_getElem hi, hP⟩
  · rintro ⟨i, a, ha, hP⟩
    obtain ⟨hi, rfl⟩ := List.getElem?_eq_some_iff.1 ha
    exact ⟨_, List.mem_mapIdx.2 ⟨i, hi, rfl⟩, hP⟩

/-- A factor comes out of a sum whose members it makes nonnegative. -/
theorem sum_mapIdx_nonneg (h : ∀ i a, l[i]? = some a → 0 ≤ c * f i a) :
    0 ≤ c * (l.mapIdx f).sum := by
  rw [mul_sum_mapIdx]
  exact List.sum_nonneg (forall_mem_mapIdx.2 h)

theorem sum_mapIdx_eq_zero_iff (hc : c ≠ 0) (h : ∀ i a, l[i]? = some a → 0 ≤ c * f i a) :
    (l.mapIdx f).sum = 0 ↔ ∀ i a, l[i]? = some a → f i a = 0 := by
  rw [← forall_mem_mapIdx (P := fun q => q = 0)]
  constructor
  · intro hsum q hq
    have hscaled : (l.mapIdx fun i a => c * f i a).sum = 0 := by
      rw [← mul_sum_mapIdx, hsum, mul_zero]
    obtain ⟨i, hi, rfl⟩ := List.mem_mapIdx.1 hq
    have hmember : c * f i l[i] = 0 :=
      List.all_zero_of_le_zero_le_of_sum_eq_zero (forall_mem_mapIdx.2 h) hscaled
        (List.mem_mapIdx.2 ⟨i, hi, rfl⟩)
    exact (mul_eq_zero.1 hmember).resolve_left hc
  · intro hzero
    exact List.sum_eq_zero hzero

end Signs

end SparseProgram
