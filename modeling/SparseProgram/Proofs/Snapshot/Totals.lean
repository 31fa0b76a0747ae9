import SparseProgram.Proofs.Snapshot.Merging
import SparseProgram.Snapshot.Accumulation

/-!
# Totals of merged cells

What a merge leaves behind, term by term: the terms that cells resolve to, each with the
coefficients of its own cells added to its old total in their order. Other cells do not count.
-/

namespace SparseProgram

variable {τ : Type} [Term τ]

namespace Tally

variable {tally other : Tally τ}

theorem IsSorted.nodup_terms (h : tally.IsSorted) : tally.terms.Nodup :=
  List.Pairwise.imp Term.ne_of_before h

/-- A tally is its terms with their totals. -/
theorem IsSorted.eq_map_total (h : tally.IsSorted) :
    tally = tally.terms.map fun t => (t, tally.total t) := by
  induction tally with
  | nil => rfl
  | cons entry rest ih =>
      obtain ⟨head, sum⟩ := entry
      obtain ⟨hhead, hrest⟩ := isSorted_cons_iff.1 h
      have htail : (terms rest).map (fun t => (t, total ((head, sum) :: rest) t))
          = (terms rest).map fun t => (t, total rest t) := by
        apply List.map_congr_left
        intro t ht
        rw [total_cons_of_ne (Term.ne_of_before (hhead t ht)).symm]
      rw [terms_cons, List.map_cons, total_cons_self, htail, ← ih hrest]

theorem IsSorted.mem_iff (h : tally.IsSorted) {t : τ} {sum : Binary64} :
    (t, sum) ∈ tally ↔ t ∈ tally.terms ∧ tally.total t = sum := by
  constructor
  · intro hmem
    refine ⟨List.mem_map_of_mem hmem, ?_⟩
    rw [h.eq_map_total] at hmem
    obtain ⟨u, -, hu⟩ := List.mem_map.1 hmem
    obtain ⟨rfl, hsum⟩ := Prod.mk.inj hu
    exact hsum
  · rintro ⟨hterm, rfl⟩
    have hentry : (t, tally.total t) ∈ tally.terms.map fun t => (t, tally.total t) :=
      List.mem_map.2 ⟨t, hterm, rfl⟩
    rwa [← h.eq_map_total] at hentry

theorem IsSorted.terms_eq (h : tally.IsSorted) (h' : other.IsSorted)
    (hmem : ∀ t, t ∈ tally.terms ↔ t ∈ other.terms) : tally.terms = other.terms := by
  have hperm : tally.terms.Perm other.terms :=
    (List.perm_ext_iff_of_nodup h.nodup_terms h'.nodup_terms).2 hmem
  refine List.Perm.eq_of_pairwise ?_ h h' hperm
  intro s t _ _ hst hts
  exact absurd hts (Term.not_before_of_before hst)

theorem IsSorted.eq_of_totals (h : tally.IsSorted) (h' : other.IsSorted)
    (hmem : ∀ t, t ∈ tally.terms ↔ t ∈ other.terms)
    (htotals : ∀ t ∈ tally.terms, tally.total t = other.total t) : tally = other := by
  rw [h.eq_map_total, h'.eq_map_total, ← h.terms_eq h' hmem]
  apply List.map_congr_left
  intro t ht
  rw [htotals t ht]

end Tally

variable {registry : Registry} {scale : Binary64} {tally result : Tally τ}
  {cells : List (SymbolicCell τ)} {t : τ}

theorem isSorted_tallyCells (hsorted : tally.IsSorted)
    (h : tallyCells registry scale tally cells = .ok result) : result.IsSorted := by
  induction cells generalizing tally with
  | nil =>
      obtain rfl : tally = result := Except.ok.inj h
      exact hsorted
  | cons cell rest ih =>
      obtain ⟨u, -, hrest⟩ := tallyCells_cons_eq_ok_iff.1 h
      exact ih hsorted.add hrest

theorem exists_term_of_tallyCells (h : tallyCells registry scale tally cells = .ok result) :
    ∀ cell ∈ cells, ∃ u, registry.term cell.monomial = .ok u := by
  induction cells generalizing tally with
  | nil => simp
  | cons cell rest ih =>
      obtain ⟨u, hu, hrest⟩ := tallyCells_cons_eq_ok_iff.1 h
      exact List.forall_mem_cons.2 ⟨⟨u, hu⟩, ih hrest⟩

theorem mem_terms_tallyCells (h : tallyCells registry scale tally cells = .ok result) :
    t ∈ result.terms
      ↔ t ∈ tally.terms ∨ ∃ cell ∈ cells, registry.term cell.monomial = .ok t := by
  induction cells generalizing tally with
  | nil =>
      obtain rfl : tally = result := Except.ok.inj h
      simp
  | cons cell rest ih =>
      obtain ⟨u, hu, hrest⟩ := tallyCells_cons_eq_ok_iff.1 h
      have hcell : registry.term cell.monomial = .ok t ↔ t = u := by
        rw [hu, Except.ok.injEq]
        exact eq_comm
      rw [ih hrest, Tally.mem_terms_add, List.exists_mem_cons_iff, hcell]
      tauto

theorem mem_terms_tallyCells_nil (h : tallyCells registry scale [] cells = .ok result) :
    t ∈ result.terms ↔ ∃ cell ∈ cells, registry.term cell.monomial = .ok t := by
  rw [mem_terms_tallyCells h]
  simp [Tally.terms]

/-! ## Amounts -/

section Amounts

variable [DecidableEq τ] {cell : SymbolicCell τ} {rest : List (SymbolicCell τ)}

namespace Registry

theorem amounts_cons_of_term (h : registry.term cell.monomial = .ok t) :
    registry.amounts scale (cell :: rest) t
      = scale * cell.coefficient :: registry.amounts scale rest t := by
  simp [amounts, h]

theorem amounts_cons_of_ne (h : registry.term cell.monomial ≠ .ok t) :
    registry.amounts scale (cell :: rest) t = registry.amounts scale rest t := by
  simp [amounts, h]

theorem amounts_ne_nil_iff :
    registry.amounts scale cells t ≠ []
      ↔ ∃ cell ∈ cells, registry.term cell.monomial = .ok t := by
  simp [amounts]

/-- The cells that resolve to a term are those like any one of them. -/
theorem amounts_eq_map_likeCoefficients {monomial : τ} (h : registry.term monomial = .ok t) :
    registry.amounts scale cells t = (likeCoefficients monomial cells).map (scale * ·) := by
  have hfilter : (cells.filter fun cell => registry.term cell.monomial = .ok t)
      = cells.filter fun cell =>
          Term.sortedColumns cell.monomial == Term.sortedColumns monomial := by
    apply List.filter_congr
    intro cell _
    simp only [term_eq_ok_iff_of_term h, Bool.beq_eq_decide_eq]
  rw [amounts, likeCoefficients, hfilter, List.map_map]
  rfl

end Registry

/-- The total of a term takes the amounts of its own cells one after the other. -/
theorem total_tallyCells_eq_foldl_amounts (hsorted : tally.IsSorted)
    (h : tallyCells registry scale tally cells = .ok result) :
    result.total t = (registry.amounts scale cells t).foldl (· + ·) (tally.total t) := by
  induction cells generalizing tally with
  | nil =>
      obtain rfl : tally = result := Except.ok.inj h
      rfl
  | cons cell rest ih =>
      obtain ⟨u, hu, hrest⟩ := tallyCells_cons_eq_ok_iff.1 h
      -- A cell of another term neither counts among the amounts nor moves the total.
      by_cases hut : u = t
      · subst hut
        rw [ih hsorted.add hrest, Tally.total_add_self hsorted, Registry.amounts_cons_of_term hu,
          List.foldl_cons]
      · have hother : registry.term cell.monomial ≠ .ok t := by
          rw [hu]
          exact fun hsame => hut (Except.ok.inj hsame)
        rw [ih hsorted.add hrest, Tally.total_add_of_ne (Ne.symm hut),
          Registry.amounts_cons_of_ne hother]

end Amounts

theorem total_tallyCells {monomial : τ} (hsorted : tally.IsSorted)
    (ht : registry.term monomial = .ok t)
    (h : tallyCells registry scale tally cells = .ok result) :
    result.total t
      = (likeCoefficients monomial cells).foldl (fun sum x => sum + scale * x)
          (tally.total t) := by
  classical
  rw [total_tallyCells_eq_foldl_amounts hsorted h, Registry.amounts_eq_map_likeCoefficients ht,
    List.foldl_map]

end SparseProgram
