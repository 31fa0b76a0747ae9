import SparseProgram.Proofs.Snapshot.Totals

/-!
# Maps keyed by terms

A search tree that compares terms has one entry for each term that was entered, in the order of
terms, and its value has taken the amounts of this term alone. Where the values are totals, the tree
lists its entries as a tally does.
-/

namespace SparseProgram

namespace TermMap

section Values

variable {τ α β : Type} [Term τ] {start : β} {take : β → α → β} {map : TermMap τ β} {s t : τ}
  {amount : α} {entries : List (τ × α)}

theorem mem_enter : s ∈ map.enter start take t amount ↔ s = t ∨ s ∈ map := by
  rw [enter, Std.TreeMap.mem_modify, Std.TreeMap.mem_insertIfNew, Term.compare_eq_iff, eq_comm]

theorem getD_enter_self :
    (map.enter start take t amount).getD t start = take (map.getD t start) amount := by
  have hself : Term.compare t t = .eq := Term.compare_eq_iff.2 rfl
  have hfound : (map.insertIfNew t start)[t]? = some (map.getD t start) := by
    by_cases h : t ∈ map
    · rw [Std.TreeMap.getElem?_insertIfNew, if_neg fun hnew => hnew.2 h,
        Std.TreeMap.getElem?_eq_some_getD h]
    · rw [Std.TreeMap.getElem?_insertIfNew, if_pos ⟨hself, h⟩, Std.TreeMap.getD_eq_fallback h]
  rw [enter, Std.TreeMap.getD_modify, if_pos hself, hfound]
  rfl

theorem getD_enter_of_ne (h : s ≠ t) :
    (map.enter start take t amount).getD s start = map.getD s start := by
  have hne : Term.compare t s ≠ .eq := fun heq => h (Term.compare_eq_iff.1 heq).symm
  rw [enter, Std.TreeMap.getD_modify, if_neg hne, Std.TreeMap.getD_insertIfNew,
    if_neg fun hnew => hne hnew.1]

theorem mem_enterAll :
    s ∈ map.enterAll start take entries ↔ s ∈ map ∨ s ∈ entries.map (·.1) := by
  induction entries generalizing map with
  | nil => simp [enterAll]
  | cons entry rest ih =>
      show s ∈ (map.enter start take entry.1 entry.2).enterAll start take rest ↔ _
      rw [ih, mem_enter, List.map_cons, List.mem_cons]
      tauto

theorem getD_enterAll [DecidableEq τ] :
    (map.enterAll start take entries).getD t start
      = ((entries.filter (·.1 = t)).map (·.2)).foldl take (map.getD t start) := by
  induction entries generalizing map with
  | nil => rfl
  | cons entry rest ih =>
      show ((map.enter start take entry.1 entry.2).enterAll start take rest).getD t start = _
      rw [ih]
      by_cases h : entry.1 = t
      · subst h
        simp [getD_enter_self]
      · simp [getD_enter_of_ne (Ne.symm h), h]

theorem mem_toList_iff (start : β) {value : β} :
    (t, value) ∈ map.toList ↔ t ∈ map ∧ map.getD t start = value := by
  rw [Std.TreeMap.mem_toList_iff_getElem?_eq_some]
  constructor
  · intro h
    have hmem : t ∈ map := by simp [Std.TreeMap.mem_iff_isSome_getElem?, h]
    refine ⟨hmem, ?_⟩
    rw [Std.TreeMap.getD_eq_getD_getElem?, h]
    rfl
  · rintro ⟨hmem, rfl⟩
    exact Std.TreeMap.getElem?_eq_some_getD hmem

theorem mem_toList_enterAll_empty [DecidableEq τ] {value : β} :
    (t, value) ∈ (enterAll start take ∅ entries).toList
      ↔ t ∈ entries.map (·.1)
        ∧ ((entries.filter (·.1 = t)).map (·.2)).foldl take start = value := by
  have hempty : t ∉ (∅ : TermMap τ β) := Std.TreeMap.not_mem_emptyc
  rw [mem_toList_iff start, mem_enterAll, getD_enterAll, Std.TreeMap.getD_emptyc,
    or_iff_right hempty]

end Values

/-! ## Totals -/

section Totals

variable {τ : Type} [Term τ] {map : TermMap τ Binary64} {t : τ} {amount : Binary64}

theorem isSorted_toList (map : TermMap τ Binary64) : Tally.IsSorted map.toList := by
  rw [Tally.IsSorted, Tally.terms, List.pairwise_map]
  simp only [Term.before_iff]
  exact Std.TreeMap.ordered_keys_toList

theorem mem_terms_toList : t ∈ Tally.terms map.toList ↔ t ∈ map := by
  rw [Tally.terms, Std.TreeMap.map_fst_toList_eq_keys, Std.TreeMap.mem_keys]

theorem total_toList : Tally.total map.toList t = map.getD t .zero := by
  by_cases h : t ∈ map
  · have hentry : (t, map.getD t .zero) ∈ map.toList := (mem_toList_iff .zero).2 ⟨h, rfl⟩
    exact (map.isSorted_toList.mem_iff.1 hentry).2
  · rw [Std.TreeMap.getD_eq_fallback h, Tally.total_of_not_mem (mt mem_terms_toList.1 h)]

/-- Both are sorted, so it is enough to compare their terms and totals. -/
theorem toList_enter :
    (map.enter .zero (· + ·) t amount).toList = Tally.add map.toList t amount := by
  have hsorted := map.isSorted_toList
  apply (isSorted_toList _).eq_of_totals hsorted.add
  · intro s
    rw [mem_terms_toList, mem_enter, Tally.mem_terms_add, mem_terms_toList]
  · intro s _
    rw [total_toList]
    by_cases h : s = t
    · subst h
      rw [getD_enter_self, Tally.total_add_self hsorted, total_toList]
    · rw [getD_enter_of_ne h, Tally.total_add_of_ne h, total_toList]

theorem toList_enterAll (map : TermMap τ Binary64) (entries : List (τ × Binary64)) :
    (map.enterAll .zero (· + ·) entries).toList
      = entries.foldl (fun tally entry => Tally.add tally entry.1 entry.2) map.toList := by
  induction entries generalizing map with
  | nil => rfl
  | cons entry rest ih =>
      rw [List.foldl_cons, ← toList_enter]
      exact ih (map.enter .zero (· + ·) entry.1 entry.2)

/-- Cells fill a search tree as they fill the tally of its entries, and fail in the same way. -/
theorem toList_addCells (registry : Registry) (scale : Binary64) (map : TermMap τ Binary64)
    (cells : List (SymbolicCell τ)) :
    (map.addCells registry scale cells).map (·.toList)
      = tallyCells registry scale map.toList cells := by
  induction cells generalizing map with
  | nil => rfl
  | cons cell rest ih =>
      cases h : registry.term cell.monomial with
      | error e => simp [addCells, tallyCells, h, bind, Except.bind, Except.map]
      | ok t =>
          have hrest := ih (map.enter .zero (· + ·) t (scale * cell.coefficient))
          rw [toList_enter] at hrest
          simpa [addCells, tallyCells, h, bind, Except.bind] using hrest

end Totals

end TermMap

/-! ## The order of quadratic terms -/

namespace QuadraticTerm

/-- Terms compare equal if they are the same, and a total order by columns tells the others apart: by
the first column, and among those that share it the single column comes first and products go by
their second column. So whatever is entered under terms is merged exactly where terms are the same
and listed in this order, as in a tally. -/
theorem compare_exact :
    (∀ s t : QuadraticTerm, Term.compare s t = .eq ↔ s = t)
      ∧ (∀ s t : QuadraticTerm, Term.compare t s = (Term.compare s t).swap)
      ∧ (∀ s t u : QuadraticTerm, (Term.compare s t).isLE = true →
          (Term.compare t u).isLE = true → (Term.compare s u).isLE = true)
      ∧ (∀ s t : QuadraticTerm, s.columns.1 < t.columns.1 → Term.compare s t = .lt)
      ∧ (∀ column second : Nat, Term.compare (linear column) (product column second) = .lt)
      ∧ (∀ first second other : Nat,
          Term.compare (product first second) (product first other) = Ord.compare second other)
      ∧ (∀ {α β : Type} (start : β) (take : β → α → β) (entries : List (QuadraticTerm × α)),
          (TermMap.enterAll start take ∅ entries).toList.Pairwise
              (fun a b => Term.compare a.1 b.1 = .lt)
            ∧ ∀ t value, (t, value) ∈ (TermMap.enterAll start take ∅ entries).toList
                ↔ t ∈ entries.map (·.1)
                  ∧ ((entries.filter (·.1 = t)).map (·.2)).foldl take start = value)
      ∧ ∀ entries : List (QuadraticTerm × Binary64),
          (TermMap.enterAll .zero (· + ·) ∅ entries).toList
            = entries.foldl (fun tally entry => Tally.add tally entry.1 entry.2) [] := by
  refine ⟨?_, ?_, ?_, ?_, ?_, ?_, ?_, ?_⟩
  · exact fun s t => Term.compare_eq_iff
  · exact fun s t => (Term.compare_swap s t).symm
  · exact fun s t u => Std.TransCmp.isLE_trans
  · exact fun s t h => Term.compare_eq_lt_iff.2 (.inl h)
  · exact compare_linear_product
  · exact compare_product_product
  · intro α β start take entries
    exact ⟨Std.TreeMap.ordered_keys_toList, fun t value => TermMap.mem_toList_enterAll_empty⟩
  · exact TermMap.toList_enterAll ∅

def mixedEntries : List (QuadraticTerm × Nat) :=
  [(product 3 3, 10), (linear 4, 2), (product 3 5, 1), (linear 3, 7), (product 3 3, 5)]

theorem compare_exact_mixed :
    (Term.compare (linear 3) (product 3 3)).isLE = true
      ∧ (Term.compare (product 3 3) (product 3 5)).isLE = true
      ∧ (Term.compare (linear 3) (product 3 5)).isLE = true
      ∧ Term.compare (product 3 5) (linear 4) = .lt
      ∧ (product 3 3, [10, 5])
          ∈ (TermMap.enterAll [] (fun kept amount => kept ++ [amount]) ∅ mixedEntries).toList := by
  obtain ⟨-, -, htrans, hfirst, -, -, hmap, -⟩ := compare_exact
  have hlinear : (Term.compare (linear 3) (product 3 3)).isLE = true := by decide
  have hsquare : (Term.compare (product 3 3) (product 3 5)).isLE = true := by decide
  refine ⟨hlinear, hsquare, htrans _ _ _ hlinear hsquare, hfirst _ _ (by decide), ?_⟩
  obtain ⟨-, hentries⟩ := hmap [] (fun kept amount => kept ++ [amount]) mixedEntries
  exact (hentries _ _).2 ⟨by decide, by decide⟩

end QuadraticTerm

end SparseProgram
