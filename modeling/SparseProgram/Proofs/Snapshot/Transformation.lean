import SparseProgram.Proofs.Model.Canonical
import SparseProgram.Proofs.Positions
import SparseProgram.Proofs.Snapshot.Compile
import SparseProgram.Snapshot.Transformation

/-!
# Compiling transformed snapshots

Relaxing or normalizing a snapshot and then compiling it gives what relaxing or normalizing the
compiled model gives. A constraint on one token compiles to the row that its bound becomes.
-/

namespace SparseProgram

variable {τ : Type} [Term τ] {registry : Registry}

/-! ## Constraints on one token -/

theorem Registry.term_linear {handle column : Nat} (h : registry.column handle = .ok column) :
    registry.term (Term.linear handle : τ) = .ok (Term.linear column) := by
  rw [term_eq_ok_iff, Term.columns_linear, Term.columns_linear, replacePair_single_eq_ok_iff]
  exact ⟨column, h, rfl⟩

/-- A cell of the coefficient one keeps it: nothing is lost in the product or in the sum. -/
theorem tallyCells_single {monomial t : τ} (h : registry.term monomial = .ok t) :
    tallyCells registry .one [] [⟨.one, monomial⟩] = .ok [(t, .one)] := by
  have hne : Binary64.one ≠ -Binary64.zero := by decide +kernel
  rw [tallyCells_cons_eq_ok_iff]
  refine ⟨t, h, ?_⟩
  rw [Binary64.one_mul, tallyCells, Tally.add, Binary64.zero_add hne]

namespace Token

theorem forall₂_boundConstraints {token : Token} {column : Nat}
    (h : registry.column token.handle = .ok column) :
    List.Forall₂ (fun c row => c.toRow registry = .ok row) (token.boundConstraints (τ := τ))
      (token.columnVariable column).boundRows := by
  have hcells := tallyCells_single (registry.term_linear (τ := τ) h)
  have hlower : token.lowerConstraint.toRow registry
      = .ok ((token.columnVariable column).lowerRow : Row τ) :=
    SymbolicConstraint.toRow_eq_ok_iff.2 ⟨_, hcells, rfl⟩
  have hupper : token.upperConstraint.toRow registry
      = .ok ((token.columnVariable column).upperRow : Row τ) :=
    SymbolicConstraint.toRow_eq_ok_iff.2 ⟨_, hcells, rfl⟩
  apply List.rel_append
  · show List.Forall₂ _ (if token.bounds.lowerIsPlain then _ else _)
      (if token.bounds.lowerIsPlain then _ else _)
    split
    · exact .nil
    · exact .cons hlower .nil
  · show List.Forall₂ _ (if token.bounds.upperIsPlain then _ else _)
      (if token.bounds.upperIsPlain then _ else _)
    split
    · exact .nil
    · exact .cons hupper .nil

end Token

namespace Snapshot

variable {s : Snapshot τ} {options : CompileOptions} {m : Model τ}

theorem forall₂_boundRows (hr : Registry.ofTokens s.tokens = .ok registry) :
    List.Forall₂ (fun c row => c.toRow registry = .ok row)
      (s.tokens.flatMap Token.boundConstraints)
      ((s.tokens.mapIdx Token.columnVariable).flatMap (Variable.boundRows (τ := τ))) := by
  have htokens : List.Forall₂
      (fun token v => ∃ column, registry.column token.handle = .ok column
        ∧ token.columnVariable column = v)
      s.tokens (s.tokens.mapIdx Token.columnVariable) := by
    rw [List.forall₂_iff_get]
    refine ⟨by rw [List.length_mapIdx], ?_⟩
    intro i hi hi'
    refine ⟨i, ?_, by simp⟩
    exact (Registry.column_eq_ok_iff_of_ofTokens hr).2 ⟨_, List.getElem?_eq_getElem hi, rfl⟩
  apply List.rel_flatMap htokens
  rintro token v ⟨column, hcolumn, rfl⟩
  exact Token.forall₂_boundConstraints hcolumn

/-- Tokens may be changed behind their handles, and constraints appended. -/
theorem compile_changed (change : Token → Token) (extra : List (SymbolicConstraint τ))
    (extraRows : List (Row τ)) (h : s.compile options = .ok m)
    (hhandle : ∀ token, (change token).handle = token.handle)
    (hordered : ∀ token, token.bounds.isOrdered = true → (change token).bounds.isOrdered = true)
    (hextra : ∀ {registry}, Registry.ofTokens s.tokens = .ok registry →
      List.Forall₂ (fun c row => c.toRow registry = .ok row) extra extraRows) :
    ({ s with tokens := s.tokens.map change, constraints := s.constraints ++ extra }
        : Snapshot τ).compile options
      = .ok { m with
          vars := s.tokens.mapIdx fun column token => (change token).columnVariable column
          constraints := m.constraints.pushAll extraRows } := by
  obtain ⟨registry, rows, objective, hr, hbounds, hrows, hobjective, rfl⟩ :=
    compile_eq_ok_iff.1 h
  rw [compile_eq_ok_iff]
  refine ⟨registry, rows ++ extraRows, objective, ?_, ?_, List.rel_append hrows (hextra hr),
    hobjective, ?_⟩
  · rw [Registry.ofTokens_eq_ok_iff, Registry.ofTokens_eq_ok_iff.1 hr, List.map_map]
    exact List.map_congr_left fun token _ => (hhandle token).symm
  · rw [List.forall_mem_map]
    intro token htoken
    exact hordered token (hbounds token htoken)
  · rw [mapIdx_map, RowStore.pushAll_ofRows]

/-- Relaxing and normalizing commute with compiling. -/
theorem transformations_commute_with_compile (h : s.compile options = .ok m) :
    s.relax.compile options = .ok m.relax ∧ s.normalize.compile options = .ok m.normalize := by
  have hvars : m.vars = s.tokens.mapIdx Token.columnVariable := by
    obtain ⟨registry, rows, objective, -, -, -, -, rfl⟩ := compile_eq_ok_iff.1 h
    rfl
  constructor
  · have hrelax := compile_changed Token.relax [] [] h (fun _ => rfl) (fun _ => id) (fun _ => .nil)
    rw [List.append_nil] at hrelax
    rw [Model.relax, hvars, map_mapIdx]
    exact hrelax
  · have hnormalize := compile_changed Token.dropBounds _ _ h (fun _ => rfl)
      (fun token hordered =>
        Variable.isOrdered_dropBounds (v := token.columnVariable 0) hordered)
      forall₂_boundRows
    rw [Model.normalize, Model.boundRows, hvars, map_mapIdx]
    exact hnormalize

def planting : Snapshot QuadraticTerm where
  name := "planting"
  sense := .maximum
  tokens :=
    [⟨9, "a", .binary, ⟨.zero, .one⟩, none⟩,
      ⟨4, "b", .signedInteger, ⟨-.ofInt 2, .infinity⟩, some .one⟩,
      ⟨6, "c", .ternary, ⟨-.zero, .ofInt 2⟩, none⟩,
      ⟨1, "d", .balancedTernary, ⟨-.one, .zero⟩, none⟩]
  constraints :=
    [⟨[⟨.one, .product 6 9⟩, ⟨.ofInt 3, .linear 4⟩], .lessEqual, .ofInt 5, "soil"⟩]
  goals := [⟨[⟨.one, .linear 1⟩, ⟨.one, .product 9 6⟩], .minimum, "water"⟩]

def plantingModel : Model QuadraticTerm where
  name := "planting"
  vars :=
    [⟨0, ⟨.zero, .one⟩, .binary, "a", none⟩,
      ⟨1, ⟨-.ofInt 2, .infinity⟩, .signedInteger, "b", some .one⟩,
      ⟨2, ⟨-.zero, .ofInt 2⟩, .ternary, "c", none⟩,
      ⟨3, ⟨-.one, .zero⟩, .balancedTernary, "d", none⟩]
  constraints :=
    .ofRows [⟨[(.product 0 2, .one), (.linear 1, .ofInt 3)], .lessEqual, .ofInt 5, "soil"⟩]
  objective := ⟨.minimum, [⟨.product 0 2, .one⟩, ⟨.linear 3, .one⟩]⟩

theorem transformations_commute_with_compile_planting :
    planting.compile .default = .ok plantingModel
      ∧ planting.relax.compile .default = .ok plantingModel.relax
      ∧ planting.normalize.compile .default = .ok plantingModel.normalize
      ∧ plantingModel.relax.vars.map (·.kind)
        = [.percentage, .continuous, .unsignedContinuous, .continuous]
      ∧ plantingModel.normalize.constraints.names = ["soil", "a_ub", "b_lb", "c_ub", "d_lb"] := by
  have hcompile : planting.compile .default = .ok plantingModel := by decide +kernel
  obtain ⟨hrelax, hnormalize⟩ := transformations_commute_with_compile hcompile
  exact ⟨hcompile, hrelax, hnormalize, by decide +kernel, by decide +kernel⟩

end Snapshot

end SparseProgram
