import Mathlib.Logic.Equiv.Fin.Rotate
import SparseProgram.Proofs.Embedding.Models
import SparseProgram.Proofs.Snapshot.Canonical
import SparseProgram.Proofs.Snapshot.Failure
import SparseProgram.Snapshot.Permutation

/-!
# Compiling permuted snapshots

A registry that finds every handle at a moved column resolves monomials to moved terms. Moving
columns need not keep the order of terms, so a merge does not go along step by step; but the same
monomials merge in the same order, so every moved term keeps its total.
-/

namespace SparseProgram

variable {move : Nat → Nat} {τ : Type}

/-! ## Moved columns -/

/-- Every handle that one registry finds, the other one finds at the moved column. -/
def Registry.MovesTo (registry other : Registry) (move : Nat → Nat) : Prop :=
  ∀ ⦃handle column : Nat⦄, registry.column handle = .ok column →
    other.column handle = .ok (move column)

namespace Snapshot

variable {s : Snapshot τ} {p : Equiv.Perm (Fin s.tokens.length)}

theorem perm_tokens_permute : (s.permute p).tokens.Perm s.tokens := by
  have hperm := Equiv.Perm.ofFn_comp_perm p.symm fun i => s.tokens[i]
  have htokens : List.ofFn (fun i : Fin s.tokens.length => s.tokens[i]) = s.tokens :=
    List.ofFn_getElem
  rwa [htokens] at hperm

theorem getElem?_tokens_permute {i : Nat} {token : Token} (h : s.tokens[i]? = some token) :
    (s.permute p).tokens[movedColumn p i]? = some token := by
  obtain ⟨hi, rfl⟩ := List.getElem?_eq_some_iff.1 h
  have hmoved : movedColumn p i = p ⟨i, hi⟩ := dif_pos hi
  rw [hmoved, permute, List.getElem?_ofFn]
  simp

theorem movesTo_permute {registry permuted : Registry}
    (h : Registry.ofTokens s.tokens = .ok registry)
    (hpermuted : Registry.ofTokens (s.permute p).tokens = .ok permuted) :
    registry.MovesTo permuted (movedColumn p) := by
  intro handle column hcolumn
  obtain ⟨token, htoken, rfl⟩ := (Registry.column_eq_ok_iff_of_ofTokens h).1 hcolumn
  exact (Registry.column_eq_ok_iff_of_ofTokens hpermuted).2
    ⟨token, getElem?_tokens_permute htoken, rfl⟩

end Snapshot

variable [Term τ]

/-! ## Moved terms -/

theorem sortedPair_map_sortedPair (pair : Nat × Option Nat) :
    sortedPair (Prod.map move (Option.map move) (sortedPair pair))
      = sortedPair (Prod.map move (Option.map move) pair) := by
  match pair with
  | (column, none) => rfl
  | (first, some second) =>
      rcases le_total first second with hle | hle
      · simp [sortedPair, hle]
      · simp [sortedPair, hle, min_comm, max_comm]

theorem replacePair_ok (pair : Nat × Option Nat) :
    replacePair (fun column => (.ok (move column) : Except Empty Nat)) pair
      = .ok (sortedPair (Prod.map move (Option.map move) pair)) := by
  match pair with
  | (column, none) => rfl
  | (first, some second) => rfl

theorem Term.columns_moveColumns (t : τ) :
    columns (moveColumns move t) = sortedPair (Prod.map move (Option.map move) (columns t)) := by
  have hcolumns := columns_replaceColumns (fun column => (.ok (move column) : Except Empty Nat)) t
  rw [replacePair_ok] at hcolumns
  unfold moveColumns
  cases hmoved : replaceColumns (fun column => (.ok (move column) : Except Empty Nat)) t with
  | error e => exact e.elim
  | ok moved =>
      rw [hmoved] at hcolumns
      exact Except.ok.inj hcolumns

namespace Registry

variable {registry other : Registry}

theorem MovesTo.replacePair (h : registry.MovesTo other move) {pair result : Nat × Option Nat}
    (hpair : replacePair registry.column pair = .ok result) :
    SparseProgram.replacePair other.column pair
      = .ok (sortedPair (Prod.map move (Option.map move) result)) := by
  match pair with
  | (handle, none) =>
      obtain ⟨c, hc, rfl⟩ := replacePair_single_eq_ok_iff.1 hpair
      exact replacePair_single_eq_ok_iff.2 ⟨move c, h hc, rfl⟩
  | (first, some second) =>
      obtain ⟨c, d, hc, hd, rfl⟩ := replacePair_product_eq_ok_iff.1 hpair
      rw [sortedPair_map_sortedPair]
      exact replacePair_product_eq_ok_iff.2 ⟨move c, move d, h hc, h hd, rfl⟩

theorem MovesTo.term (h : registry.MovesTo other move) {monomial t : τ}
    (ht : registry.term monomial = .ok t) :
    other.term monomial = .ok (Term.moveColumns move t) := by
  rw [term_eq_ok_iff] at ht ⊢
  rw [Term.columns_moveColumns]
  exact h.replacePair ht

/-- Terms that monomials resolve to are told apart after they are moved. -/
theorem MovesTo.term_inj (h : registry.MovesTo other move) {monomial monomial' t t' : τ}
    (ht : registry.term monomial = .ok t) (ht' : registry.term monomial' = .ok t')
    (hmoved : Term.moveColumns move t = Term.moveColumns move t') : t = t' := by
  -- Monomials that come to one moved term are alike, and so came to one term before.
  have hother := h.term ht'
  rw [← hmoved] at hother
  have hlike := (term_eq_ok_iff_of_term (h.term ht)).1 hother
  have hsame := (term_eq_ok_iff_of_term ht).2 hlike
  rw [ht'] at hsame
  exact (Except.ok.inj hsame).symm

end Registry

/-! ## Merging

Either registry merges the same monomials, those that are alike, so the totals are sums of the same
coefficients in the same order. -/

variable {registry other : Registry} {scale : Binary64} {result moved : Tally τ}
  {cells : List (SymbolicCell τ)}

theorem perm_terms_of_movesTo (hmove : registry.MovesTo other move)
    (h : tallyCells registry scale [] cells = .ok result)
    (hmoved : tallyCells other scale [] cells = .ok moved) :
    moved.terms.Perm (result.terms.map (Term.moveColumns move)) := by
  have hnodup : (result.terms.map (Term.moveColumns move)).Nodup := by
    apply List.Nodup.map_on _ (isSorted_tallyCells Tally.isSorted_nil h).nodup_terms
    intro t ht t' ht' hsame
    obtain ⟨cell, -, hcell⟩ := (mem_terms_tallyCells_nil h).1 ht
    obtain ⟨cell', -, hcell'⟩ := (mem_terms_tallyCells_nil h).1 ht'
    exact hmove.term_inj hcell hcell' hsame
  have hmovedNodup := (isSorted_tallyCells Tally.isSorted_nil hmoved).nodup_terms
  rw [List.perm_ext_iff_of_nodup hmovedNodup hnodup]
  intro u
  rw [mem_terms_tallyCells_nil hmoved, List.mem_map]
  constructor
  · intro hu
    rcases hu with ⟨cell, hcell, hterm⟩
    obtain ⟨t, ht⟩ := exists_term_of_tallyCells h cell hcell
    rw [hmove.term ht] at hterm
    exact ⟨t, (mem_terms_tallyCells_nil h).2 ⟨cell, hcell, ht⟩, Except.ok.inj hterm⟩
  · intro hu
    rcases hu with ⟨t, ht, rfl⟩
    obtain ⟨cell, hcell, hterm⟩ := (mem_terms_tallyCells_nil h).1 ht
    exact ⟨cell, hcell, hmove.term hterm⟩

/-- The same cells merge into the same totals, of the moved terms. -/
theorem perm_tallyCells (hmove : registry.MovesTo other move)
    (h : tallyCells registry scale [] cells = .ok result)
    (hmoved : tallyCells other scale [] cells = .ok moved) :
    moved.Perm (result.mapTerms (Term.moveColumns move)) := by
  have htotal : ∀ t ∈ result.terms, moved.total (Term.moveColumns move t) = result.total t := by
    intro t ht
    obtain ⟨cell, -, hcell⟩ := (mem_terms_tallyCells_nil h).1 ht
    rw [total_tallyCells Tally.isSorted_nil hcell h,
      total_tallyCells Tally.isSorted_nil (hmove.term hcell) hmoved, Tally.total_nil,
      Tally.total_nil]
  have hresult := (isSorted_tallyCells Tally.isSorted_nil h).eq_map_total
  have hmap : (result.terms.map (Term.moveColumns move)).map (fun u => (u, moved.total u))
      = result.mapTerms (Term.moveColumns move) := by
    conv_rhs => rw [hresult]
    rw [Tally.mapTerms, List.map_map, List.map_map]
    apply List.map_congr_left
    intro t ht
    exact congrArg (Prod.mk (Term.moveColumns move t)) (htotal t ht)
  have hperm := (perm_terms_of_movesTo hmove h hmoved).map fun u => (u, moved.total u)
  rwa [← (isSorted_tallyCells Tally.isSorted_nil hmoved).eq_map_total, hmap] at hperm

structure Row.IsMoved (move : Nat → Nat) (old new : Row τ) : Prop where
  cells : new.cells.Perm (old.mapTerms (Term.moveColumns move)).cells
  relation : new.relation = old.relation
  rightSide : new.rightSide = old.rightSide
  name : new.name = old.name

theorem Row.IsMoved.cellsAt {old new : Row τ} (h : Row.IsMoved move old new) (number : Nat) :
    (new.cellsAt number).Perm
      ((old.cellsAt number).map (Cell.mapTerm (Term.moveColumns move))) := by
  rw [← cellsAt_mapTerms]
  exact h.cells.map _

theorem SymbolicConstraint.isMoved_row (hmove : registry.MovesTo other move)
    {c : SymbolicConstraint τ} {row row' : Row τ} (hrow : c.toRow registry = .ok row)
    (hrow' : c.toRow other = .ok row') : row.IsMoved move row' := by
  obtain ⟨cells, hcells, rfl⟩ := toRow_eq_ok_iff.1 hrow
  obtain ⟨cells', hcells', rfl⟩ := toRow_eq_ok_iff.1 hrow'
  exact ⟨perm_tallyCells hmove hcells hcells', rfl, rfl, rfl⟩

theorem Snapshot.perm_objective_of_movesTo (hmove : registry.MovesTo other move)
    {s : Snapshot τ} {objective objective' : Objective τ}
    (h : s.compileObjective registry = .ok objective)
    (h' : s.compileObjective other = .ok objective') :
    objective'.cells.Perm (objective.mapTerms (Term.moveColumns move)).cells := by
  obtain ⟨tally, htally, rfl⟩ := compileObjective_eq_ok_iff.1 h
  obtain ⟨tally', htally', rfl⟩ := compileObjective_eq_ok_iff.1 h'
  have hperm := (perm_tallyCells hmove htally htally').map fun entry =>
    (⟨entry.1, entry.2⟩ : ObjectiveCell τ)
  rw [Tally.mapTerms, List.map_map] at hperm
  rw [Objective.mapTerms, List.map_map]
  exact hperm

/-! ## Compiling -/

namespace Snapshot

variable {s : Snapshot τ} {p : Equiv.Perm (Fin s.tokens.length)}

theorem Compiles.of_perm {s' : Snapshot τ} (h : s.Compiles) (htokens : s'.tokens.Perm s.tokens)
    (hreferences : s'.references = s.references) : s'.Compiles := by
  have hhandles : s'.handles.Perm s.handles := htokens.map _
  constructor
  case distinct => exact hhandles.nodup_iff.2 h.distinct
  case ordered => exact fun token htoken => h.ordered token (htokens.mem_iff.1 htoken)
  case registered =>
    intro handle hhandle
    rw [hreferences] at hhandle
    exact hhandles.mem_iff.2 (h.registered handle hhandle)

theorem compiles_permute_iff : (s.permute p).Compiles ↔ s.Compiles :=
  ⟨fun h => h.of_perm perm_tokens_permute.symm rfl, fun h => h.of_perm perm_tokens_permute rfl⟩

theorem isRearranged_of_compile {options : CompileOptions} {m n : Model τ}
    (h : s.compile options = .ok m) (hn : (s.permute p).compile options = .ok n) :
    m.IsRearranged (movedColumn p) n := by
  obtain ⟨built, hbuilt⟩ := builtFrom_compile hn
  obtain ⟨-, hslices, hcells, -⟩ := hbuilt.canonical
  obtain ⟨registry, rows, objective, hregistry, -, hrows, hobjective, rfl⟩ :=
    compile_eq_ok_iff.1 h
  obtain ⟨permuted, rows', objective', hpermuted, -, hrows', hobjective', rfl⟩ :=
    compile_eq_ok_iff.1 hn
  have hmove := movesTo_permute hregistry hpermuted
  have hmoved : List.Forall₂ (Row.IsMoved (movedColumn p)) rows rows' :=
    forall₂_of_forall₂ hrows hrows' fun c _ _ => SymbolicConstraint.isMoved_row hmove
  constructor
  case name => rfl
  case vars_length => simp [permute]
  case vars =>
    intro i v hv
    rw [List.getElem?_mapIdx, Option.map_eq_some_iff] at hv
    obtain ⟨token, htoken, rfl⟩ := hv
    rw [List.getElem?_mapIdx, getElem?_tokens_permute htoken]
    rfl
  case relations =>
    rw [RowStore.relations_ofRows, RowStore.relations_ofRows]
    exact map_eq_map_of_forall₂ hmoved fun _ _ hrow => hrow.relation
  case rightSides =>
    rw [RowStore.rightSides_ofRows, RowStore.rightSides_ofRows]
    exact map_eq_map_of_forall₂ hmoved fun _ _ hrow => hrow.rightSide
  case rowNames =>
    rw [RowStore.names_ofRows, RowStore.names_ofRows]
    exact map_eq_map_of_forall₂ hmoved fun _ _ hrow => hrow.name
  case rows =>
    rw [RowStore.slices_ofRows, RowStore.slices_ofRows]
    exact forall₂_mapIdx hmoved fun i _ _ hrow => hrow.cellsAt i
  case rows_increasing => exact hslices
  case cells => exact (RowStore.flatten_slices (RowStore.isGrouped_ofRows rows')).symm
  case sense =>
    obtain ⟨_, -, rfl⟩ := compileObjective_eq_ok_iff.1 hobjective
    obtain ⟨_, -, rfl⟩ := compileObjective_eq_ok_iff.1 hobjective'
    rfl
  case objective => exact perm_objective_of_movesTo hmove hobjective hobjective'
  case objective_increasing => exact hcells

/-- The order of registration moves columns and does nothing else. -/
theorem compile_permute (s : Snapshot τ) (p : Equiv.Perm (Fin s.tokens.length))
    (options : CompileOptions) :
    ((∃ n, (s.permute p).compile options = .ok n) ↔ ∃ m, s.compile options = .ok m)
      ∧ ∀ m n, s.compile options = .ok m → (s.permute p).compile options = .ok n →
          m.IsRearranged (movedColumn p) n := by
  constructor
  · rw [exists_compile_iff_compiles, exists_compile_iff_compiles, compiles_permute_iff]
  · intro m n hm hn
    exact isRearranged_of_compile hm hn

def relay : Snapshot QuadraticTerm where
  name := "relay"
  sense := .minimum
  tokens :=
    [⟨5, "a", .continuous, ⟨.zero, .infinity⟩, none⟩,
      ⟨2, "b", .signedInteger, ⟨-.one, .ofInt 4⟩, some .one⟩,
      ⟨9, "c", .binary, ⟨.zero, .one⟩, none⟩]
  constraints :=
    [⟨[⟨.one, .product 2 5⟩, ⟨.ofInt 3, .linear 2⟩, ⟨.ofInt 5, .product 5 9⟩, ⟨.one, .product 5 2⟩,
        ⟨-.one, .linear 5⟩], .lessEqual, .ofInt 7, "leg"⟩]
  goals := [⟨[⟨.ofInt 2, .product 9 9⟩, ⟨.one, .linear 2⟩], .maximum, "pace"⟩]

def relayModel : Model QuadraticTerm where
  name := "relay"
  vars :=
    [⟨0, ⟨.zero, .infinity⟩, .continuous, "a", none⟩,
      ⟨1, ⟨-.one, .ofInt 4⟩, .signedInteger, "b", some .one⟩,
      ⟨2, ⟨.zero, .one⟩, .binary, "c", none⟩]
  constraints :=
    .ofRows
      [⟨[(.linear 0, -.one), (.product 0 1, .ofInt 2), (.product 0 2, .ofInt 5),
          (.linear 1, .ofInt 3)], .lessEqual, .ofInt 7, "leg"⟩]
  objective := ⟨.maximum, [⟨.linear 1, .one⟩, ⟨.product 2 2, .ofInt 2⟩]⟩

def rotatedRelayModel : Model QuadraticTerm where
  name := "relay"
  vars :=
    [⟨0, ⟨.zero, .one⟩, .binary, "c", none⟩,
      ⟨1, ⟨.zero, .infinity⟩, .continuous, "a", none⟩,
      ⟨2, ⟨-.one, .ofInt 4⟩, .signedInteger, "b", some .one⟩]
  constraints :=
    .ofRows
      [⟨[(.product 0 1, .ofInt 5), (.linear 1, -.one), (.product 1 2, .ofInt 2),
          (.linear 2, .ofInt 3)], .lessEqual, .ofInt 7, "leg"⟩]
  objective := ⟨.maximum, [⟨.product 0 0, .ofInt 2⟩, ⟨.linear 2, .one⟩]⟩

theorem compile_permute_relay :
    relay.compile .default = .ok relayModel
      ∧ (relay.permute (finRotate _)).compile .default = .ok rotatedRelayModel
      ∧ relayModel.IsRearranged (movedColumn (finRotate 3)) rotatedRelayModel := by
  have hrelay : relay.compile .default = .ok relayModel := by decide +kernel
  have hrotated : (relay.permute (finRotate _)).compile .default = .ok rotatedRelayModel := by
    decide +kernel
  exact ⟨hrelay, hrotated, (compile_permute relay (finRotate _) .default).2 _ _ hrelay hrotated⟩

end Snapshot

end SparseProgram
