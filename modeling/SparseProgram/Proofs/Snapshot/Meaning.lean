import SparseProgram.Proofs.RowStore.Rows
import SparseProgram.Proofs.Snapshot.Compile

/-!
# The meaning of compiled constraints

A compiled model has a variable for each token and a row for each constraint. Where merging rounds
nothing, a row has at the point of an assignment the value of its constraint, so that an assignment
is feasible exactly if its point is.
-/

namespace SparseProgram

variable {τ : Type}

/-- The bounds of the variables say at a point what the bounds of the tokens say of an assignment. -/
theorem Snapshot.contains_columnVariables_iff {s : Snapshot τ} {a : Assignment} :
    (∀ v ∈ s.tokens.mapIdx Token.columnVariable, v.bounds.Contains (s.pointOf a v.index))
      ↔ ∀ token ∈ s.tokens, token.bounds.Contains (a token.handle) := by
  have hcolumn : ∀ (i : Nat) (hi : i < s.tokens.length),
      s.pointOf a i = a s.tokens[i].handle := by
    intro i hi
    simp [pointOf, hi]
  constructor
  · intro h token htoken
    obtain ⟨i, hi, rfl⟩ := List.getElem_of_mem htoken
    rw [← hcolumn i hi]
    exact h _ (List.mem_mapIdx.2 ⟨i, hi, rfl⟩)
  · intro h v hv
    obtain ⟨i, hi, rfl⟩ := List.mem_mapIdx.1 hv
    have hbounds := h s.tokens[i] (List.getElem_mem hi)
    rw [← hcolumn i hi] at hbounds
    exact hbounds

variable [Term τ] {s : Snapshot τ} {registry : Registry} {a : Assignment}
  {c : SymbolicConstraint τ} {row : Row τ} {rows : List (Row τ)}

namespace SymbolicConstraint

theorem valueAt_row (hr : Registry.ofTokens s.tokens = .ok registry)
    (hrow : c.toRow registry = .ok row) (hexact : MergesExactly c.cells) :
    row.valueAt (s.pointOf a) = symbolicValue a c.cells := by
  obtain ⟨cells, hcells, rfl⟩ := toRow_eq_ok_iff.1 hrow
  exact hexact.valueAt_tallyCells hr hcells

theorem holdsAt_row_iff (hr : Registry.ofTokens s.tokens = .ok registry)
    (hrow : c.toRow registry = .ok row) (hexact : MergesExactly c.cells) :
    row.HoldsAt (s.pointOf a) ↔ c.relation.Holds (symbolicValue a c.cells) c.rightSide := by
  have hvalue := valueAt_row (a := a) hr hrow hexact
  obtain ⟨cells, -, rfl⟩ := toRow_eq_ok_iff.1 hrow
  rw [Row.HoldsAt, hvalue]

end SymbolicConstraint

namespace Snapshot

theorem feasible_iff_of_rows {objective : Objective τ}
    (hr : Registry.ofTokens s.tokens = .ok registry)
    (hrows : List.Forall₂ (fun c row => c.toRow registry = .ok row) s.constraints rows)
    (hexact : ∀ c ∈ s.constraints, MergesExactly c.cells) :
    s.Feasible a
      ↔ Model.Feasible
          ⟨s.name, s.tokens.mapIdx Token.columnVariable, .ofRows rows, objective⟩
          (s.pointOf a) := by
  have hconstraints : (∀ c ∈ s.constraints,
        c.relation.Holds (symbolicValue a c.cells) c.rightSide)
      ↔ ∀ row ∈ rows, row.HoldsAt (s.pointOf a) := by
    apply forall_iff_of_forall₂ hrows
    intro c hc row hrow
    exact (SymbolicConstraint.holdsAt_row_iff hr hrow (hexact c hc)).symm
  rw [Feasible, Model.Feasible, RowStore.satisfies_ofRows, contains_columnVariables_iff,
    hconstraints]
  exact and_comm

/-- Compiling keeps the meaning of constraints: tokens and constraints become variables and rows in
their order, rows mean what their constraints mean, and feasibility is the same. -/
theorem compile_keeps_meaning {options : CompileOptions} {m : Model τ}
    (h : s.compile options = .ok m) :
    (m.vars = s.tokens.mapIdx fun index token =>
        ⟨index, token.bounds, token.kind, token.name, token.value⟩)
      ∧ m.constraints.relations = s.constraints.map (·.relation)
      ∧ m.constraints.rightSides = s.constraints.map (·.rightSide)
      ∧ m.constraints.names = s.constraints.map (·.name)
      ∧ ∀ a : Assignment,
        List.Forall₂
            (fun c slice => MergesExactly c.cells →
              rowValue (s.pointOf a) slice = symbolicValue a c.cells)
            s.constraints m.constraints.slices
          ∧ ((∀ c ∈ s.constraints, MergesExactly c.cells) →
              (s.Feasible a ↔ m.Feasible (s.pointOf a))) := by
  obtain ⟨registry, rows, objective, hr, -, hrows, -, rfl⟩ := compile_eq_ok_iff.1 h
  -- A row takes everything but its cells over from its constraint.
  have harrays : ∀ {β : Type} (f : SymbolicConstraint τ → β) (g : Row τ → β),
      (∀ c cells, g ⟨cells, c.relation, c.rightSide, c.name⟩ = f c) →
        rows.map g = s.constraints.map f := by
    intro β f g hfield
    apply map_eq_map_of_forall₂ hrows
    intro c row hrow
    obtain ⟨cells, -, rfl⟩ := SymbolicConstraint.toRow_eq_ok_iff.1 hrow
    exact hfield c cells
  refine ⟨rfl, ?_, ?_, ?_, ?_⟩
  · rw [RowStore.relations_ofRows]
    exact harrays _ _ fun _ _ => rfl
  · rw [RowStore.rightSides_ofRows]
    exact harrays _ _ fun _ _ => rfl
  · rw [RowStore.names_ofRows]
    exact harrays _ _ fun _ _ => rfl
  · intro a
    refine ⟨?_, feasible_iff_of_rows hr hrows⟩
    rw [RowStore.slices_ofRows]
    apply forall₂_mapIdx_of_forall₂ hrows
    intro i c row hrow hexact
    rw [Row.rowValue_cellsAt]
    exact SymbolicConstraint.valueAt_row hr hrow hexact

def crossedTokens : Snapshot QuadraticTerm where
  name := "crossed"
  sense := .minimum
  tokens :=
    [⟨7, "a", .continuous, ⟨.zero, .infinity⟩, none⟩,
      ⟨3, "b", .signedInteger, ⟨-.one, .ofInt 4⟩, some .one⟩]
  constraints :=
    [⟨[⟨.one, .product 7 3⟩, ⟨.one, .linear 3⟩, ⟨.one, .product 3 7⟩, ⟨-.one, .product 3 3⟩],
      .lessEqual, .ofInt 5, "mixed"⟩]
  goals := []

def crossedModel : Model QuadraticTerm where
  name := "crossed"
  vars :=
    [⟨0, ⟨.zero, .infinity⟩, .continuous, "a", none⟩,
      ⟨1, ⟨-.one, .ofInt 4⟩, .signedInteger, "b", some .one⟩]
  constraints :=
    .ofRows
      [⟨[(.product 0 1, .ofInt 2), (.linear 1, .one), (.product 1 1, -.one)],
        .lessEqual, .ofInt 5, "mixed"⟩]
  objective := ⟨.minimum, []⟩

theorem compile_keeps_meaning_crossed :
    crossedTokens.compile .default = .ok crossedModel
      ∧ (∀ c ∈ crossedTokens.constraints, MergesExactly c.cells)
      ∧ ∀ a : Assignment,
        crossedTokens.Feasible a ↔ crossedModel.Feasible (crossedTokens.pointOf a) := by
  have hcompile : crossedTokens.compile .default = .ok crossedModel := by decide +kernel
  have hexact : ∀ c ∈ crossedTokens.constraints, MergesExactly c.cells := by decide +kernel
  refine ⟨hcompile, hexact, ?_⟩
  intro a
  exact ((compile_keeps_meaning hcompile).2.2.2.2 a).2 hexact

end Snapshot

end SparseProgram
