import SparseProgram.Proofs.Snapshot.Permutation
import SparseProgram.Snapshot.Renaming

/-!
# Compiling without a token

Every handle but the removed one is found where it was, counted without the removed column. Raising
the columns of the smaller model keeps the order of its terms, so rows and objective come out cell
by cell. A handle that is mentioned and removed is the only one that is missing.
-/

namespace SparseProgram

/-! ## Raised columns -/

def raisedColumn (removed column : Nat) : Nat :=
  if column < removed then column else column + 1

section Raised

variable {removed : Nat}

theorem loweredColumn_raisedColumn (column : Nat) :
    loweredColumn removed (raisedColumn removed column) = column := by
  unfold loweredColumn raisedColumn
  split <;> split <;> omega

theorem raisedColumn_strictMono (removed : Nat) : StrictMono (raisedColumn removed) := by
  intro a b hab
  unfold raisedColumn
  split <;> split <;> omega

theorem getElem?_eraseIdx_eq_raised {α : Type} (l : List α) (i : Nat) :
    (l.eraseIdx removed)[i]? = l[raisedColumn removed i]? := by
  rw [List.getElem?_eraseIdx, raisedColumn]
  split <;> rfl

theorem secondRank_raised_lt {a b : Option Nat} (h : Term.secondRank a < Term.secondRank b) :
    Term.secondRank (a.map (raisedColumn removed))
      < Term.secondRank (b.map (raisedColumn removed)) := by
  cases a with
  | none => cases b <;> simp_all [Term.secondRank]
  | some a =>
      cases b with
      | none => simp [Term.secondRank] at h
      | some b =>
          have hab : a < b := by simpa [Term.secondRank] using h
          have hraised := raisedColumn_strictMono removed hab
          simpa [Term.secondRank] using hraised

end Raised

namespace Term

variable {τ : Type} {removed : Nat} {s t : τ}

theorem columns_moveColumns_raised [Term τ] (h : IsSorted t) :
    columns (moveColumns (raisedColumn removed) t)
      = Prod.map (raisedColumn removed) (Option.map (raisedColumn removed)) (columns t) := by
  rw [columns_moveColumns]
  unfold IsSorted at h
  match hcolumns : columns t with
  | (column, none) => rfl
  | (first, some second) =>
      have hle : first ≤ second := by
        rw [hcolumns] at h
        exact h second rfl
      have hraised := (raisedColumn_strictMono removed).monotone hle
      simp [sortedPair, hraised]

theorem before_raised [Term τ] (hs : IsSorted s) (ht : IsSorted t) (h : before s t = true) :
    before (moveColumns (raisedColumn removed) s) (moveColumns (raisedColumn removed) t)
      = true := by
  rw [before_iff, compare_eq_lt_iff] at h ⊢
  rw [columns_moveColumns_raised hs, columns_moveColumns_raised ht]
  rcases h with hfirst | ⟨hfirst, hsecond⟩
  · exact .inl (raisedColumn_strictMono removed hfirst)
  · exact .inr ⟨congrArg (raisedColumn removed) hfirst, secondRank_raised_lt hsecond⟩

theorem rename_lowered_moveColumns_raised [RenamableTerm τ] (h : IsSorted t) :
    RenamableTerm.rename (loweredColumn removed) (moveColumns (raisedColumn removed) t) = t := by
  apply columns_injective
  have hinverse : loweredColumn removed ∘ raisedColumn removed = id :=
    funext loweredColumn_raisedColumn
  rw [RenamableTerm.columns_rename, columns_moveColumns_raised h, Prod.map_map, Option.map_comp_map,
    hinverse, Option.map_id, Prod.map_id, id_eq]

end Term

/-! ## Merging -/

section Merging

variable {τ : Type} {removed columns : Nat}

theorem TermsFit.increasing_raised [Term τ] {terms : List τ} (h : TermsFit columns terms)
    (removed : Nat) :
    StrictlyIncreasing (terms.map (Term.moveColumns (raisedColumn removed))) := by
  rw [StrictlyIncreasing, List.pairwise_map]
  apply h.increasing.imp_of_mem
  intro s t hs ht hbefore
  exact Term.before_raised (h.sorted s hs) (h.sorted t ht) hbefore

/-- Tallies in order with the same entries are the same. -/
theorem Tally.eq_of_perm [Term τ] {tally other : Tally τ} (h : tally.Perm other)
    (htally : tally.IsSorted) (hother : other.IsSorted) : tally = other := by
  rw [IsSorted, terms, List.pairwise_map] at htally hother
  refine List.Perm.eq_of_pairwise ?_ htally hother h
  intro a b _ _ hab hba
  exact absurd hba (Term.not_before_of_before hab)

variable [RenamableTerm τ] {registry smaller : Registry} {scale : Binary64}
  {cells : List (SymbolicCell τ)} {small large : Tally τ}

/-- The larger registry merges the same cells into the same tally, entry by entry. -/
theorem mapTerms_lowered_tallyCells (hmove : smaller.MovesTo registry (raisedColumn removed))
    (hsmall : tallyCells smaller scale [] cells = .ok small)
    (hlarge : tallyCells registry scale [] cells = .ok large) :
    large.mapTerms (RenamableTerm.rename (loweredColumn removed)) = small := by
  have hfits := termsFit_tallyCells hsmall
  have hraised : (small.mapTerms (Term.moveColumns (raisedColumn removed))).IsSorted := by
    have hincreasing := hfits.increasing_raised removed
    rw [Tally.IsSorted, Tally.terms, Tally.mapTerms, List.map_map]
    rwa [Tally.terms, List.map_map] at hincreasing
  have heq : large = small.mapTerms (Term.moveColumns (raisedColumn removed)) :=
    Tally.eq_of_perm (perm_tallyCells hmove hsmall hlarge)
      (isSorted_tallyCells Tally.isSorted_nil hlarge) hraised
  have hback : ∀ entry ∈ small,
      (RenamableTerm.rename (loweredColumn removed)
        (Term.moveColumns (raisedColumn removed) entry.1), entry.2) = entry := by
    intro entry hentry
    rw [Term.rename_lowered_moveColumns_raised (hfits.sorted _ (List.mem_map_of_mem hentry))]
  rw [heq, Tally.mapTerms, Tally.mapTerms, List.map_map]
  exact (List.map_congr_left hback).trans (List.map_id small)

theorem SymbolicConstraint.mapTerms_lowered_toRow
    (hmove : smaller.MovesTo registry (raisedColumn removed)) {c : SymbolicConstraint τ}
    {row row' : Row τ} (hrow : c.toRow smaller = .ok row) (hrow' : c.toRow registry = .ok row') :
    row'.mapTerms (RenamableTerm.rename (loweredColumn removed)) = row := by
  obtain ⟨cells, hcells, rfl⟩ := toRow_eq_ok_iff.1 hrow
  obtain ⟨cells', hcells', rfl⟩ := toRow_eq_ok_iff.1 hrow'
  rw [← mapTerms_lowered_tallyCells hmove hcells hcells']
  rfl

theorem Snapshot.mapTerms_lowered_objective
    (hmove : smaller.MovesTo registry (raisedColumn removed)) {s : Snapshot τ}
    {objective objective' : Objective τ} (h : s.compileObjective smaller = .ok objective)
    (h' : s.compileObjective registry = .ok objective') :
    objective'.mapTerms (RenamableTerm.rename (loweredColumn removed)) = objective := by
  obtain ⟨tally, htally, rfl⟩ := compileObjective_eq_ok_iff.1 h
  obtain ⟨tally', htally', rfl⟩ := compileObjective_eq_ok_iff.1 h'
  rw [← mapTerms_lowered_tallyCells hmove htally htally', Objective.mapTerms, Tally.mapTerms,
    List.map_map, List.map_map]
  rfl

end Merging

/-! ## Compiling -/

namespace Snapshot

section Handles

variable {τ : Type} {s : Snapshot τ} {position : Nat} {token : Token}

theorem handles_removeToken :
    (s.removeToken position).handles = s.handles.eraseIdx position :=
  (List.eraseIdx_map _ _ _).symm

theorem mem_handles_removeToken_iff (hdistinct : s.handles.Nodup)
    (hposition : s.tokens[position]? = some token) {handle : Nat} :
    handle ∈ (s.removeToken position).handles ↔ handle ≠ token.handle ∧ handle ∈ s.handles := by
  have hhandle : s.handles[position]? = some token.handle := by
    rw [handles, List.getElem?_map, hposition]
    rfl
  obtain ⟨hlt, hget⟩ := List.getElem?_eq_some_iff.1 hhandle
  rw [handles_removeToken, ← hdistinct.erase_getElem position hlt, hget, hdistinct.mem_erase_iff]

theorem movesTo_removeToken {registry smaller : Registry}
    (h : Registry.ofTokens s.tokens = .ok registry)
    (hsmaller : Registry.ofTokens (s.removeToken position).tokens = .ok smaller) :
    smaller.MovesTo registry (raisedColumn position) := by
  intro handle column hcolumn
  obtain ⟨token, htoken, rfl⟩ := (Registry.column_eq_ok_iff_of_ofTokens hsmaller).1 hcolumn
  rw [removeToken, getElem?_eraseIdx_eq_raised] at htoken
  exact (Registry.column_eq_ok_iff_of_ofTokens h).2 ⟨token, htoken, rfl⟩

theorem columnVariables_eraseIdx (tokens : List Token) (position : Nat) :
    (tokens.eraseIdx position).mapIdx Token.columnVariable
      = ((tokens.mapIdx Token.columnVariable).eraseIdx position).map fun v =>
          { v with index := loweredColumn position v.index } := by
  apply List.ext_getElem?
  intro i
  rw [List.getElem?_mapIdx, List.getElem?_map, getElem?_eraseIdx_eq_raised,
    getElem?_eraseIdx_eq_raised, List.getElem?_mapIdx, Option.map_map]
  congr 1
  funext token
  simp only [Function.comp_apply, Token.columnVariable, loweredColumn_raisedColumn]

end Handles

namespace Compiles

variable {τ : Type} [Term τ] {s : Snapshot τ} {position : Nat} {token : Token}

theorem removeToken (h : s.Compiles) (hposition : s.tokens[position]? = some token)
    (hunused : token.handle ∉ s.references) : (s.removeToken position).Compiles := by
  constructor
  case distinct =>
    rw [handles_removeToken]
    exact h.distinct.eraseIdx position
  case ordered => exact fun other hother => h.ordered other (List.mem_of_mem_eraseIdx hother)
  case registered =>
    intro handle hhandle
    rw [mem_handles_removeToken_iff h.distinct hposition]
    refine ⟨?_, h.registered handle hhandle⟩
    rintro rfl
    exact hunused hhandle

/-- All other handles are still registered, so the removed one is the first that is missing. -/
theorem failsWith_removeToken (h : s.Compiles) (hposition : s.tokens[position]? = some token)
    (hused : token.handle ∈ s.references) :
    (s.removeToken position).FailsWith (.unresolvedToken token.handle) := by
  have hmissing : ∀ handle ∈ s.references,
      handle ∉ (s.removeToken position).handles ↔ handle = token.handle := by
    intro handle hhandle
    have hregistered := h.registered handle hhandle
    rw [mem_handles_removeToken_iff h.distinct hposition]
    tauto
  obtain ⟨first, hfirst⟩ :=
    exists_isFirst (P := (· ∉ (s.removeToken position).handles)) hused ((hmissing _ hused).2 rfl)
  obtain rfl : first = token.handle := (hmissing first hfirst.mem).1 hfirst.holds
  apply FailsWith.unregistered token.handle _ _ hfirst
  · rw [handles_removeToken]
    exact h.distinct.eraseIdx position
  · exact fun other hother => h.ordered other (List.mem_of_mem_eraseIdx hother)

end Compiles

variable {τ : Type} [RenamableTerm τ] {s : Snapshot τ} {position : Nat} {token : Token}
  {options : CompileOptions} {m : Model τ}

theorem compile_removeToken_of_unused (h : s.compile options = .ok m)
    (hposition : s.tokens[position]? = some token) (hunused : token.handle ∉ s.references) :
    (s.removeToken position).compile options = .ok (m.removeVariable position) := by
  have hcompiles : s.Compiles := (exists_compile_iff_compiles s options).1 ⟨m, h⟩
  obtain ⟨n, hn⟩ := (hcompiles.removeToken hposition hunused).exists_compile options
  obtain ⟨registry, rows, objective, hregistry, -, hrows, hobjective, rfl⟩ :=
    compile_eq_ok_iff.1 h
  obtain ⟨smaller, rows', objective', hsmaller, -, hrows', hobjective', rfl⟩ :=
    compile_eq_ok_iff.1 hn
  have hmove := movesTo_removeToken hregistry hsmaller
  have hlowered : rows.map (Row.mapTerms (RenamableTerm.rename (loweredColumn position)))
      = rows' := by
    have hpairs := forall₂_of_forall₂ hrows' hrows fun _ _ _ =>
      SymbolicConstraint.mapTerms_lowered_toRow hmove
    rw [map_eq_map_of_forall₂ (f := id) hpairs fun _ _ hrow => hrow, List.map_id]
  rw [hn, Model.removeVariable, Model.mapTerms, RowStore.ofRows_mapTerms, hlowered,
    mapTerms_lowered_objective hmove hobjective' hobjective, ← columnVariables_eraseIdx]
  rfl

/-- Removing a token that no cell mentions takes its column away and nothing else; if a cell
mentions it, this is what fails. -/
theorem compile_removeToken (h : s.compile options = .ok m)
    (hposition : s.tokens[position]? = some token) :
    (token.handle ∉ s.references →
        (s.removeToken position).compile options = .ok (m.removeVariable position))
      ∧ (token.handle ∈ s.references →
        (s.removeToken position).compile options = .error (.unresolvedToken token.handle)) := by
  constructor
  · exact compile_removeToken_of_unused h hposition
  · intro hused
    have hcompiles : s.Compiles := (exists_compile_iff_compiles s options).1 ⟨m, h⟩
    exact (hcompiles.failsWith_removeToken hposition hused).compile_eq options

def depot : Snapshot QuadraticTerm where
  name := "depot"
  sense := .minimum
  tokens :=
    [⟨30, "a", .continuous, ⟨.zero, .infinity⟩, none⟩,
      ⟨8, "b", .binary, ⟨.zero, .one⟩, some .one⟩,
      ⟨2, "c", .signedInteger, ⟨-.one, .ofInt 4⟩, none⟩,
      ⟨11, "d", .continuous, .free, none⟩]
  constraints :=
    [⟨[⟨.ofInt 3, .product 11 2⟩, ⟨.one, .product 2 30⟩, ⟨.one, .linear 30⟩,
        ⟨-.one, .linear 2⟩], .lessEqual, .ofInt 7, "yard"⟩]
  goals := [⟨[⟨.ofInt 2, .product 2 2⟩, ⟨.one, .linear 11⟩], .maximum, "flow"⟩]

def depotModel : Model QuadraticTerm where
  name := "depot"
  vars :=
    [⟨0, ⟨.zero, .infinity⟩, .continuous, "a", none⟩,
      ⟨1, ⟨.zero, .one⟩, .binary, "b", some .one⟩,
      ⟨2, ⟨-.one, .ofInt 4⟩, .signedInteger, "c", none⟩,
      ⟨3, .free, .continuous, "d", none⟩]
  constraints :=
    .ofRows
      [⟨[(.linear 0, .one), (.product 0 2, .one), (.linear 2, -.one), (.product 2 3, .ofInt 3)],
        .lessEqual, .ofInt 7, "yard"⟩]
  objective := ⟨.maximum, [⟨.product 2 2, .ofInt 2⟩, ⟨.linear 3, .one⟩]⟩

def smallerDepotModel : Model QuadraticTerm where
  name := "depot"
  vars :=
    [⟨0, ⟨.zero, .infinity⟩, .continuous, "a", none⟩,
      ⟨1, ⟨-.one, .ofInt 4⟩, .signedInteger, "c", none⟩,
      ⟨2, .free, .continuous, "d", none⟩]
  constraints :=
    .ofRows
      [⟨[(.linear 0, .one), (.product 0 1, .one), (.linear 1, -.one), (.product 1 2, .ofInt 3)],
        .lessEqual, .ofInt 7, "yard"⟩]
  objective := ⟨.maximum, [⟨.product 1 1, .ofInt 2⟩, ⟨.linear 2, .one⟩]⟩

theorem compile_removeToken_depot :
    depot.compile .default = .ok depotModel
      ∧ (depot.removeToken 1).compile .default = .ok smallerDepotModel
      ∧ (depot.removeToken 3).compile .default = .error (.unresolvedToken 11) := by
  have hdepot : depot.compile .default = .ok depotModel := by decide +kernel
  have hsmaller : depotModel.removeVariable 1 = smallerDepotModel := by decide +kernel
  have hunused : depot.tokens[1]? = some ⟨8, "b", .binary, ⟨.zero, .one⟩, some .one⟩ := rfl
  have hused : depot.tokens[3]? = some ⟨11, "d", .continuous, .free, none⟩ := rfl
  refine ⟨hdepot, ?_, ?_⟩
  · rw [(compile_removeToken hdepot hunused).1 (by decide), hsmaller]
  · exact (compile_removeToken hdepot hused).2 (by decide)

end Snapshot

end SparseProgram
