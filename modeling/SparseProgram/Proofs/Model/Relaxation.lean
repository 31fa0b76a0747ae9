import SparseProgram.Model.Passes
import SparseProgram.Semantics.Solutions

/-!
# Relaxed models

Relaxing keeps every solution and what it costs. The kinds that it leaves are intervals, so the
solutions of a relaxed linear model are an intersection of half-spaces.
-/

namespace SparseProgram

/-! ## Kinds -/

namespace VariableKind

theorem Allows.relaxed {kind : VariableKind} {q : Rat} (h : kind.Allows q) :
    kind.relaxed.Allows q := by
  cases kind with
  | binary =>
      show 0 ≤ q ∧ q ≤ 1
      rcases h with rfl | rfl <;> norm_num
  | ternary =>
      show 0 ≤ q
      rcases h with rfl | rfl | rfl <;> norm_num
  | balancedTernary => exact trivial
  | unsignedInteger =>
      obtain ⟨n, rfl⟩ := h
      exact Nat.cast_nonneg n
  | signedInteger => exact trivial
  | percentage => exact h
  | unsignedContinuous => exact h
  | continuous => exact h

theorem convex_allows {kind : VariableKind} (h : kind.isIntegral = false) :
    Convex Rat {q : Rat | kind.Allows q} := by
  cases kind with
  | percentage => exact convex_Icc 0 1
  | unsignedContinuous => exact convex_Ici 0
  | continuous => exact convex_univ
  | binary => cases h
  | ternary => cases h
  | balancedTernary => cases h
  | unsignedInteger => cases h
  | signedInteger => cases h

end VariableKind

/-! ## Half-lines -/

namespace Binary64

theorem convex_belowRat (x : Binary64) : Convex Rat {q : Rat | x.BelowRat q} := by
  cases x with
  | nan => exact convex_empty
  | infinite negative => exact fun _ hp _ _ _ _ _ _ _ => hp
  | finite negative m => exact convex_Ici _

theorem convex_aboveRat (x : Binary64) : Convex Rat {q : Rat | x.AboveRat q} := by
  cases x with
  | nan => exact convex_empty
  | infinite negative => exact fun _ hp _ _ _ _ _ _ _ => hp
  | finite negative m => exact convex_Iic _

end Binary64

theorem Bounds.convex_contains (b : Bounds) : Convex Rat {q : Rat | b.Contains q} :=
  b.lower.convex_belowRat.inter b.upper.convex_aboveRat

theorem Relation.convex_holds (relation : Relation) (rightSide : Binary64) :
    Convex Rat {q : Rat | relation.Holds q rightSide} := by
  cases relation with
  | lessEqual => exact rightSide.convex_aboveRat
  | greaterEqual => exact rightSide.convex_belowRat
  | equal => exact rightSide.convex_aboveRat.inter rightSide.convex_belowRat

/-! ## Models -/

theorem convex_forall_mem {α : Type} {P : α → Point → Prop} {l : List α}
    (h : ∀ a ∈ l, Convex Rat {p | P a p}) : Convex Rat {p : Point | ∀ a ∈ l, P a p} := by
  intro p hp q hq s t hs ht hst a ha
  exact h a ha (hp a ha) (hq a ha) hs ht hst

theorem convex_coordinate {S : Set Rat} (h : Convex Rat S) (column : Nat) :
    Convex Rat {p : Point | p column ∈ S} := by
  have hlinear : IsLinearMap Rat fun p : Point => p column := ⟨fun _ _ => rfl, fun _ _ => rfl⟩
  exact h.is_linear_preimage hlinear

/-- The value of a row without products is linear in the point. -/
theorem isLinearMap_rowValue (cells : List (Cell Nat)) :
    IsLinearMap Rat fun p : Point => rowValue p cells := by
  constructor
  · intro p q
    simp only [rowValue, Term.valueAt, Term.columns, Option.elim_none, mul_one, Pi.add_apply,
      mul_add, List.sum_map_add]
  · intro c p
    simp only [rowValue, Term.valueAt, Term.columns, Option.elim_none, mul_one, Pi.smul_apply,
      smul_eq_mul]
    rw [← List.sum_map_mul_left]
    congr 2
    funext cell
    ring

namespace Model

variable {τ : Type} [Term τ]

theorem relax_isRelaxationOf (m : Model τ) : m.relax.IsRelaxationOf m := by
  constructor
  case name => rfl
  case constraints => rfl
  case objective => rfl
  case vars =>
    show List.Forall₂ Variable.DiffersInKind (m.vars.map Variable.relax) m.vars
    rw [List.forall₂_map_left_iff, List.forall₂_same]
    exact fun v _ => ⟨rfl, rfl, rfl, rfl⟩
  case solutions =>
    rintro p ⟨⟨hrows, hbounds⟩, hdomain⟩
    refine ⟨⟨hrows, List.forall_mem_map.2 hbounds⟩, List.forall_mem_map.2 ?_⟩
    intro v hv
    exact (hdomain v hv).relaxed
  case objectiveValue => exact fun _ => rfl
  case notIntegral => simp [containsIntegral, relax, Variable.relax]
  case intervals =>
    refine List.forall_mem_map.2 fun v _ => VariableKind.convex_allows ?_
    exact v.kind.isIntegral_relaxed

/-- Without products and without integral variables, the points between two solutions are
solutions. -/
theorem convex_solutions {m : Model Nat}
    (h : ∀ v ∈ m.vars, Convex Rat {q : Rat | v.kind.Allows q}) : Convex Rat m.solutions := by
  have hrows : Convex Rat {p | m.constraints.Satisfies p} :=
    convex_forall_mem fun line _ =>
      (line.2.1.convex_holds line.2.2).is_linear_preimage (isLinearMap_rowValue line.1)
  have hbounds : Convex Rat {p : Point | ∀ v ∈ m.vars, v.bounds.Contains (p v.index)} :=
    convex_forall_mem fun v _ => convex_coordinate v.bounds.convex_contains v.index
  have hdomain : Convex Rat {p : Point | m.InDomain p} :=
    convex_forall_mem fun v hv => convex_coordinate (h v hv) v.index
  exact (hrows.inter hbounds).inter hdomain

/-- Relaxing changes kinds only, and into kinds that are not integral; all solutions stay, at the
same cost. The solutions of a relaxed linear model form a convex set. -/
theorem relax_relaxes :
    (∀ (τ : Type) [Term τ] (m : Model τ), m.relax.IsRelaxationOf m)
      ∧ ∀ m : Model Nat, Convex Rat m.relax.solutions :=
  ⟨fun _ _ m => m.relax_isRelaxationOf,
    fun m => convex_solutions m.relax_isRelaxationOf.intervals⟩

def crates : Model Nat where
  name := "crates"
  vars :=
    [⟨0, ⟨.zero, .one⟩, .binary, "open", none⟩,
      ⟨1, ⟨.zero, .ofInt 3⟩, .unsignedInteger, "count", some .one⟩]
  constraints := .ofRows [⟨[(0, .ofInt 2), (1, .one)], .lessEqual, .ofInt 3, "room"⟩]
  objective := ⟨.maximum, [⟨0, .one⟩, ⟨1, .ofInt 2⟩]⟩

def cratesPoint (first second : Rat) : Point :=
  fun column => [first, second].getD column 0

theorem relax_relaxes_crates :
    cratesPoint 1 1 ∈ crates.solutions
      ∧ cratesPoint 0 3 ∈ crates.solutions
      ∧ cratesPoint 0 3 ∈ crates.relax.solutions
      ∧ (1 / 2 : Rat) • cratesPoint 1 1 + (1 / 2 : Rat) • cratesPoint 0 3 ∈ crates.relax.solutions
      ∧ (1 / 2 : Rat) • cratesPoint 1 1 + (1 / 2 : Rat) • cratesPoint 0 3 ∉ crates.solutions := by
  have hopen : cratesPoint 1 1 ∈ crates.solutions := by
    refine ⟨by decide +kernel, List.forall_mem_cons.2 ⟨Or.inr rfl, ?_⟩⟩
    exact List.forall_mem_singleton.2 ⟨1, rfl⟩
  have hfull : cratesPoint 0 3 ∈ crates.solutions := by
    refine ⟨by decide +kernel, List.forall_mem_cons.2 ⟨Or.inl rfl, ?_⟩⟩
    exact List.forall_mem_singleton.2 ⟨3, rfl⟩
  have hsubset := (relax_relaxes.1 Nat crates).solutions
  have hconvex := relax_relaxes.2 crates
  refine ⟨hopen, hfull, hsubset hfull, ?_, ?_⟩
  · exact hconvex (hsubset hopen) (hsubset hfull) (by norm_num) (by norm_num) (by norm_num)
  · rintro ⟨-, hdomain⟩
    rcases hdomain _ List.mem_cons_self with hzero | hone
    · norm_num [cratesPoint] at hzero
    · norm_num [cratesPoint] at hone

end Model

end SparseProgram
