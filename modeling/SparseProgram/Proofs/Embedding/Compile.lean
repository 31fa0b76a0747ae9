import SparseProgram.Proofs.Embedding.Models
import SparseProgram.Proofs.Snapshot.Compile
import SparseProgram.Snapshot.Failure

/-!
# Compiling with other terms

Monomials replaced by others that resolve alike compile to terms replaced in the same way, and fail
alike. The merge sees terms only through their order, which is that of their columns.
-/

namespace SparseProgram

variable {τ σ : Type} {f g : τ → σ}

theorem Snapshot.effectiveSense_mapMonomials (f : τ → σ) (s : Snapshot τ) :
    (s.mapMonomials f).effectiveSense = s.effectiveSense := by
  unfold effectiveSense mapMonomials
  match s.goals with
  | [] => rfl
  | [lone] => rfl
  | first :: second :: rest => rfl

variable [Term τ] [Term σ]

theorem KeepsColumns.tally_add (hg : KeepsColumns g) (tally : Tally τ) (t : τ)
    (amount : Binary64) :
    Tally.add (Tally.mapTerms g tally) (g t) amount = Tally.mapTerms g (tally.add t amount) := by
  induction tally with
  | nil => rfl
  | cons entry rest ih =>
      obtain ⟨head, total⟩ := entry
      show Tally.add ((g head, total) :: Tally.mapTerms g rest) (g t) amount = _
      rw [Tally.add, Tally.add, hg.compare_map]
      cases Term.compare t head with
      | lt => rfl
      | eq => rfl
      | gt => rw [ih]; rfl

/-- One registry resolves the replaced monomials as another resolves the monomials of the given
handles: to the replaced terms, or with the replaced failure. -/
structure Translates (registry other : Registry) (f g : τ → σ)
    (failure : CompileError → CompileError) (handles : List Nat) : Prop where
  columns : KeepsColumns g
  term : ∀ monomial, Term.columnList monomial ⊆ handles →
    other.term (f monomial) = relabel failure g (registry.term monomial)

namespace Translates

variable {registry other : Registry} {failure : CompileError → CompileError}
  {handles : List Nat}

/-- It is enough that columns are found alike, as terms are known by their columns. -/
theorem of_columns (hg : KeepsColumns g)
    (h : ∀ monomial : τ, Term.columnList monomial ⊆ handles →
      replacePair other.column (Term.columns (f monomial))
        = relabel failure id (replacePair registry.column (Term.columns monomial))) :
    Translates registry other f g failure handles := by
  refine ⟨hg, ?_⟩
  intro monomial hmonomial
  have hinjective : Function.Injective (Term.columns : σ → Nat × Option Nat) :=
    fun _ _ => Term.columns_injective
  have hcolumns : Term.columns ∘ g = (Term.columns : τ → Nat × Option Nat) := funext hg
  apply map_injective hinjective
  rw [Registry.term, Term.columns_replaceColumns, h monomial hmonomial,
    ← Term.columns_replaceColumns, relabel_map, map_relabel, hcolumns]
  rfl

theorem mono (h : Translates registry other f g failure handles) {fewer : List Nat}
    (hsub : fewer ⊆ handles) : Translates registry other f g failure fewer :=
  ⟨h.columns, fun monomial hmonomial => h.term monomial (List.Subset.trans hmonomial hsub)⟩

theorem tallyCells {cells : List (SymbolicCell τ)}
    (h : Translates registry other f g failure (mentionedHandles cells)) (scale : Binary64)
    (tally : Tally τ) :
    SparseProgram.tallyCells other scale (tally.mapTerms g) (Snapshot.mapCells f cells)
      = relabel failure (Tally.mapTerms g)
          (SparseProgram.tallyCells registry scale tally cells) := by
  induction cells generalizing tally with
  | nil => rfl
  | cons cell rest ih =>
      have hcell : Term.columnList cell.monomial ⊆ mentionedHandles (cell :: rest) :=
        List.subset_append_left _ _
      have hrest := h.mono (List.subset_append_right (Term.columnList cell.monomial) _)
      refine bind_eq_relabel (h.term cell.monomial hcell) ?_
      intro t
      rw [h.columns.tally_add]
      exact ih hrest _

theorem toRow {c : SymbolicConstraint τ}
    (h : Translates registry other f g failure (mentionedHandles c.cells)) :
    SymbolicConstraint.toRow other
        ⟨Snapshot.mapCells f c.cells, c.relation, c.rightSide, c.name⟩
      = relabel failure (Row.mapTerms g) (c.toRow registry) :=
  bind_eq_relabel (h.tallyCells .one []) fun _ => rfl

variable {s : Snapshot τ}

theorem compileRows (h : Translates registry other f g failure s.references) :
    (s.mapMonomials f).compileRows other
      = relabel failure (List.map (Row.mapTerms g)) (s.compileRows registry) := by
  apply mapM_eq_relabel
  intro c hc
  apply toRow
  apply h.mono
  intro handle hhandle
  exact List.mem_append_left _ (List.mem_flatMap.2 ⟨c, hc, hhandle⟩)

theorem objectiveTally (h : Translates registry other f g failure s.references) :
    (s.mapMonomials f).objectiveTally other
      = relabel failure (Tally.mapTerms g) (s.objectiveTally registry) := by
  rw [Snapshot.objectiveTally, Snapshot.effectiveSense_mapMonomials]
  refine foldlM_eq_relabel (Tally.mapTerms g) ?_ []
  intro tally goal hgoal
  refine tallyCells (h.mono ?_) (goal.scale s.effectiveSense) tally
  intro handle hhandle
  exact List.mem_append_right _ (List.mem_flatMap.2 ⟨goal, hgoal, hhandle⟩)

theorem compileObjective (h : Translates registry other f g failure s.references) :
    (s.mapMonomials f).compileObjective other
      = relabel failure (Objective.mapTerms g) (s.compileObjective registry) := by
  refine bind_eq_relabel h.objectiveTally ?_
  intro tally
  rw [Snapshot.effectiveSense_mapMonomials]
  simp only [relabel, Except.mapError, Except.map, pure, Except.pure, Objective.mapTerms,
    Tally.mapTerms, List.map_map, Function.comp_def]

/-- Whatever is done to the tokens, replacing goes along with compiling if their variables do. -/
theorem compileInTurn (h : Translates registry other f g failure s.references)
    {tokens : List Token}
    (hvars : ({ s.mapMonomials f with tokens := tokens } : Snapshot σ).compileVariables
      = relabel failure id s.compileVariables) :
    ({ s.mapMonomials f with tokens := tokens } : Snapshot σ).compileInTurn other
      = relabel failure (Model.mapTerms g) (s.compileInTurn registry) := by
  refine bind_eq_relabel hvars fun vars => ?_
  refine bind_eq_relabel h.compileRows fun rows => ?_
  refine bind_eq_relabel h.compileObjective fun objective => ?_
  rw [← RowStore.ofRows_mapTerms]
  rfl

end Translates

theorem KeepsColumns.translates (hf : KeepsColumns f) (registry : Registry) (handles : List Nat) :
    Translates registry registry f f id handles := by
  apply Translates.of_columns hf
  intro monomial _
  rw [hf, relabel_id_left, Except.map_id]
  rfl

/-- Replacing terms commutes with compiling. -/
theorem KeepsColumns.compile_map (hf : KeepsColumns f) (s : Snapshot τ)
    (options : CompileOptions) :
    (s.mapMonomials f).compile options = (s.compile options).map (Model.mapTerms f) := by
  rw [Snapshot.compile_eq_bind, Snapshot.compile_eq_bind, ← relabel_id_left]
  have hregistry : Registry.ofTokens (s.mapMonomials f).tokens
      = relabel id id (Registry.ofTokens s.tokens) := by
    rw [relabel_id_left, Except.map_id]
    rfl
  have hvars : (s.mapMonomials f).compileVariables = relabel id id s.compileVariables := by
    rw [relabel_id_left, Except.map_id]
    rfl
  exact bind_eq_relabel hregistry fun registry =>
    (hf.translates registry s.references).compileInTurn hvars

end SparseProgram
