import Mathlib
import SparseProgram.Proofs.Positions

/-!
# Alternatives

Linear conditions put the values of linear forms on a side of zero. A form that is nonpositive
wherever finitely many conditions hold is a combination of their forms, by multipliers on the polar
sides. The proof removes one condition at a time and needs no coordinates.
-/

namespace SparseProgram

/-! ## Sides -/

/-- The cones of the line. -/
inductive Side where
  | below
  | above
  | zero
  | all

namespace Side

def Contains : Side → Rat → Prop
  | below, q => q ≤ 0
  | above, q => 0 ≤ q
  | zero, q => q = 0
  | all, _ => True

/-- The multipliers that make no value of a side positive. -/
def polar : Side → Side
  | below => above
  | above => below
  | zero => all
  | all => zero

variable {side : Side} {p q : Rat}

theorem contains_zero (side : Side) : side.Contains 0 := by
  cases side <;> simp [Contains]

theorem Contains.add (hp : side.Contains p) (hq : side.Contains q) : side.Contains (p + q) := by
  cases side <;> simp only [Contains] at hp hq ⊢ <;> linarith

theorem Contains.mul (hp : side.Contains p) (hq : 0 ≤ q) : side.Contains (q * p) := by
  cases side with
  | below => exact mul_nonpos_of_nonneg_of_nonpos hq hp
  | above => exact mul_nonneg hq hp
  | zero => exact (congrArg (q * ·) hp).trans (mul_zero q)
  | all => trivial

theorem Contains.polar_mul_nonpos (hq : side.Contains q) (hp : side.polar.Contains p) :
    p * q ≤ 0 := by
  cases side with
  | below => exact mul_nonpos_of_nonneg_of_nonpos hp hq
  | above => exact mul_nonpos_of_nonpos_of_nonneg hp hq
  | zero => exact le_of_eq ((congrArg (p * ·) hq).trans (mul_zero p))
  | all => exact le_of_eq ((congrArg (· * q) hp).trans (zero_mul q))

/-- A value that no multiplier of the polar side makes positive is on the side. -/
theorem contains_of_polar (h : ∀ p, side.polar.Contains p → p * q ≤ 0) : side.Contains q := by
  cases side with
  | below => simpa [Contains] using h 1 zero_le_one
  | above => simpa [Contains] using h (-1) (by simp [polar, Contains])
  | zero =>
      have hle := h 1 trivial
      have hge := h (-1) trivial
      exact le_antisymm (by linarith) (by linarith)
  | all => trivial

end Side

/-! ## Conditions -/

variable {V : Type} [AddCommGroup V] [Module Rat V]

/-- The value of a linear form is on a side. -/
structure Condition (V : Type) [AddCommGroup V] [Module Rat V] where
  side : Side
  form : V →ₗ[Rat] Rat

def Condition.Holds (c : Condition V) (v : V) : Prop :=
  c.side.Contains (c.form v)

namespace Condition.Holds

variable {c : Condition V} {v w : V}

theorem add (hv : c.Holds v) (hw : c.Holds w) : c.Holds (v + w) := by
  rw [Condition.Holds, map_add]
  exact Side.Contains.add hv hw

theorem smul (hv : c.Holds v) {q : Rat} (hq : 0 ≤ q) : c.Holds (q • v) := by
  rw [Condition.Holds, map_smul]
  exact Side.Contains.mul hv hq

end Condition.Holds

/-- Sums of the forms of conditions, each times a multiplier on its polar side. -/
inductive Combines : List (Condition V) → (V →ₗ[Rat] Rat) → Prop
  | nil : Combines [] 0
  | cons {c : Condition V} {rest : List (Condition V)} {b : V →ₗ[Rat] Rat} (k : Rat) :
      c.side.polar.Contains k → Combines rest b → Combines (c :: rest) (k • c.form + b)

namespace Combines

variable {conditions more : List (Condition V)} {b : V →ₗ[Rat] Rat} {v : V}

theorem nonpos (h : Combines conditions b) (hv : ∀ c ∈ conditions, c.Holds v) : b v ≤ 0 := by
  induction h with
  | nil => exact le_refl 0
  | @cons c rest b k hk _ ih =>
      rw [List.forall_mem_cons] at hv
      have hhead : k * c.form v ≤ 0 := hv.1.polar_mul_nonpos hk
      have htail := ih hv.2
      rw [LinearMap.add_apply, LinearMap.smul_apply, smul_eq_mul]
      linarith

theorem of_append (h : Combines (conditions ++ more) b) :
    ∃ b₁ b₂, Combines conditions b₁ ∧ Combines more b₂ ∧ b = b₁ + b₂ := by
  induction conditions generalizing b with
  | nil => exact ⟨0, b, .nil, h, (zero_add b).symm⟩
  | cons c rest ih =>
      cases h with
      | cons k hk hrest =>
          obtain ⟨b₁, b₂, h₁, h₂, rfl⟩ := ih hrest
          exact ⟨_, b₂, .cons k hk h₁, h₂, (add_assoc _ _ _).symm⟩

/-- The multipliers of conditions that come from a list, by position. -/
theorem of_mapIdx {α : Type} {condition : Nat → α → Condition V} {l : List α}
    (h : Combines (l.mapIdx condition) b) :
    ∃ u : Nat → Rat, (∀ i a, l[i]? = some a → (condition i a).side.polar.Contains (u i))
      ∧ ∀ v, b v = (l.mapIdx fun i a => u i * (condition i a).form v).sum := by
  induction l generalizing condition b with
  | nil =>
      cases h
      exact ⟨fun _ => 0, by simp, fun v => rfl⟩
  | cons a rest ih =>
      rw [List.mapIdx_cons] at h
      cases h with
      | cons k hk hrest =>
          obtain ⟨u, hu, hsum⟩ := ih hrest
          refine ⟨fun i => Nat.casesOn i k u, ?_, ?_⟩
          · intro i c hc
            cases i with
            | zero =>
                obtain rfl : a = c := by simpa using hc
                exact hk
            | succ i => exact hu i c (by simpa using hc)
          · intro v
            rw [LinearMap.add_apply, LinearMap.smul_apply, smul_eq_mul, hsum, List.mapIdx_cons,
              List.sum_cons]
            rfl

end Combines

/-! ## Completeness -/

/-- What is nonpositive wherever the conditions hold is a combination of them, also where both are
seen through a linear map. -/
def IsComplete (conditions : List (Condition V)) : Prop :=
  ∀ (π : V →ₗ[Rat] V) (b : V →ₗ[Rat] Rat),
    (∀ v, (∀ c ∈ conditions, c.Holds (π v)) → b v ≤ 0) →
      ∃ b', Combines conditions b' ∧ ∀ v, b v = b' (π v)

namespace IsComplete

variable {conditions : List (Condition V)}

theorem nil : IsComplete ([] : List (Condition V)) := by
  intro π b h
  refine ⟨0, .nil, fun v => ?_⟩
  have hle := h v (by simp)
  have hge := h (-v) (by simp)
  rw [map_neg] at hge
  exact le_antisymm hle (neg_nonpos.1 hge)

/-- One more form that is to be nonpositive. A point where it is needed is projected away along
itself; what is left of the form vanishes, so it can only be missing with one multiplier. -/
theorem exists_multiplier (h : IsComplete conditions) (π : V →ₗ[Rat] V) (g b : V →ₗ[Rat] Rat)
    (hb : ∀ v, (∀ c ∈ conditions, c.Holds (π v)) → g v ≤ 0 → b v ≤ 0) :
    ∃ (k : Rat) (b' : V →ₗ[Rat] Rat),
      0 ≤ k ∧ Combines conditions b' ∧ ∀ v, b v = k * g v + b' (π v) := by
  by_cases hall : ∀ v, (∀ c ∈ conditions, c.Holds (π v)) → b v ≤ 0
  · obtain ⟨b', hb', heq⟩ := h π b hall
    exact ⟨0, b', le_refl 0, hb', fun v => by rw [zero_mul, zero_add, heq]⟩
  · push Not at hall
    obtain ⟨w, hw, hbw⟩ := hall
    have hgw : 0 < g w := by
      by_contra hle
      exact absurd (hb w hw (not_lt.1 hle)) (not_le.2 hbw)
    let ρ : V →ₗ[Rat] V := LinearMap.id - (g.smulRight ((g w)⁻¹ • w))
    have hρ : ∀ v, ρ v = v - (g v * (g w)⁻¹) • w := by
      intro v
      simp [ρ, smul_smul]
    have hgρ : ∀ v, g (ρ v) = 0 := by
      intro v
      rw [hρ, map_sub, map_smul, smul_eq_mul, mul_assoc, inv_mul_cancel₀ hgw.ne', mul_one, sub_self]
    obtain ⟨b', hb', heq⟩ := h (π ∘ₗ ρ) (b ∘ₗ ρ) fun v hv => hb (ρ v) hv (hgρ v).le
    have hb'w := hb'.nonpos hw
    refine ⟨(b w - b' (π w)) * (g w)⁻¹, b',
      mul_nonneg (by linarith) (inv_nonneg.2 hgw.le), hb', fun v => ?_⟩
    have hv : b (ρ v) = b' (π (ρ v)) := heq v
    rw [hρ, map_sub, map_sub, map_sub, map_smul, map_smul, map_smul, smul_eq_mul, smul_eq_mul] at hv
    linear_combination hv

variable (form : V →ₗ[Rat] Rat)

theorem below (h : IsComplete conditions) : IsComplete (⟨.below, form⟩ :: conditions) := by
  intro π b hb
  obtain ⟨k, b', hk, hb', heq⟩ := h.exists_multiplier π (form ∘ₗ π) b fun v hv hform =>
    hb v (List.forall_mem_cons.2 ⟨hform, hv⟩)
  exact ⟨k • form + b', .cons k hk hb', heq⟩

theorem above (h : IsComplete conditions) : IsComplete (⟨.above, form⟩ :: conditions) := by
  intro π b hb
  obtain ⟨k, b', hk, hb', heq⟩ := h.exists_multiplier π (-(form ∘ₗ π)) b fun v hv hform =>
    hb v (List.forall_mem_cons.2 ⟨neg_nonpos.1 hform, hv⟩)
  refine ⟨-k • form + b', .cons (-k) (neg_nonpos.2 hk) hb', fun v => ?_⟩
  simp [heq v]

/-- A form that is to be zero is to be on either side. -/
theorem zero (h : IsComplete conditions) : IsComplete (⟨.zero, form⟩ :: conditions) := by
  intro π b hb
  obtain ⟨b', hb', heq⟩ := ((h.below form).above form) π b fun v hv => by
    obtain ⟨habove, hrest⟩ := List.forall_mem_cons.1 hv
    obtain ⟨hbelow, hrest⟩ := List.forall_mem_cons.1 hrest
    exact hb v (List.forall_mem_cons.2 ⟨le_antisymm hbelow habove, hrest⟩)
  cases hb' with
  | cons k _ hb' =>
      cases hb' with
      | @cons _ _ b'' k' _ hb'' =>
          refine ⟨(k + k') • form + b'', .cons (k + k') trivial hb'', fun v => ?_⟩
          rw [heq]
          simp only [LinearMap.add_apply, LinearMap.smul_apply, smul_eq_mul]
          ring

theorem all (h : IsComplete conditions) : IsComplete (⟨.all, form⟩ :: conditions) := by
  intro π b hb
  obtain ⟨b', hb', heq⟩ := h π b fun v hv => hb v (List.forall_mem_cons.2 ⟨trivial, hv⟩)
  exact ⟨(0 : Rat) • form + b', .cons 0 rfl hb', by rwa [zero_smul, zero_add]⟩

end IsComplete

theorem isComplete (conditions : List (Condition V)) : IsComplete conditions := by
  induction conditions with
  | nil => exact .nil
  | cons c rest ih =>
      obtain ⟨side, form⟩ := c
      cases side with
      | below => exact ih.below form
      | above => exact ih.above form
      | zero => exact ih.zero form
      | all => exact ih.all form

/-- Some conditions may be kept as conditions on the points at which the others are combined. -/
theorem exists_combines {given conditions : List (Condition V)} {b : V →ₗ[Rat] Rat}
    (h : ∀ v, (∀ c ∈ given, c.Holds v) → (∀ c ∈ conditions, c.Holds v) → b v ≤ 0) :
    ∃ b', Combines conditions b' ∧ ∀ v, (∀ c ∈ given, c.Holds v) → b v ≤ b' v := by
  obtain ⟨sum, hsum, hb⟩ := isComplete (given ++ conditions) LinearMap.id b fun v hv => by
    rw [List.forall_mem_append] at hv
    exact h v hv.1 hv.2
  obtain ⟨b₁, b₂, h₁, h₂, rfl⟩ := hsum.of_append
  refine ⟨b₂, h₂, ?_⟩
  intro v hv
  have hnonpos := h₁.nonpos hv
  rw [hb, LinearMap.id_apply, LinearMap.add_apply]
  linarith

end SparseProgram
