import SparseProgram.Proofs.Snapshot.Failure
import SparseProgram.Snapshot.ColumnTable

/-!
# Numbered tokens

Registering tokens numbers them in their order, one to one, or fails with the first repeated handle.
The table that is filled token after token fails in the same way and holds the same columns.
-/

namespace SparseProgram

/-! ## Filling a table -/

theorem getElem?_concat_eq_some_iff {α : Type} {l : List α} {a b : α} {i : Nat} :
    (l ++ [a])[i]? = some b ↔ l[i]? = some b ∨ i = l.length ∧ a = b := by
  rcases Nat.lt_trichotomy i l.length with hlt | rfl | hgt
  · rw [List.getElem?_append_left hlt]
    simp [Nat.ne_of_lt hlt]
  · simp
  · have hend : (l ++ [a])[i]? = none := by
      rw [List.getElem?_eq_none_iff, List.length_append]
      exact hgt
    simp [hend, Nat.le_of_lt hgt, Nat.ne_of_gt hgt]

namespace ColumnTable

variable {table : ColumnTable} {handles seen : List Nat} {handle : Nat}

/-- The table holds the positions of handles, and nothing else. -/
structure Holds (table : ColumnTable) (handles : List Nat) : Prop where
  size : table.size = handles.length
  entries : ∀ handle column : Nat,
    table.columns[handle]? = some column ↔ handles[column]? = some handle

theorem holds_empty : empty.Holds [] := by
  constructor
  · rfl
  · simp [empty]

theorem Holds.contains (h : table.Holds handles) :
    table.columns.contains handle = true ↔ handle ∈ handles := by
  rw [← Std.HashMap.isSome_getElem?_eq_contains, Option.isSome_iff_exists, List.mem_iff_getElem?]
  exact exists_congr fun column => h.entries handle column

/-- A handle that is new gets the next column, and no other entry is overwritten. -/
theorem Holds.insert (h : table.Holds handles) (hnew : handle ∉ handles) :
    Holds ⟨table.columns.insert handle handles.length⟩ (handles ++ [handle]) := by
  have habsent : handle ∉ table.columns := by
    rw [← Std.HashMap.contains_iff_mem]
    exact mt h.contains.1 hnew
  constructor
  · show (table.columns.insert handle handles.length).size = _
    rw [Std.HashMap.size_insert, if_neg habsent, List.length_append]
    exact congrArg (· + 1) h.size
  · intro other column
    show (table.columns.insert handle handles.length)[other]? = some column ↔ _
    rw [Std.HashMap.getElem?_insert, getElem?_concat_eq_some_iff]
    by_cases hother : handle = other
    · subst hother
      have hold : ¬handles[column]? = some handle := fun hcolumn => hnew (List.mem_of_getElem? hcolumn)
      simp [hold, eq_comm]
    · simp [hother, h.entries]

/-- The loop fails with the first repeated handle, or holds all handles in their order. -/
theorem fill_spec (h : table.Holds handles) (hseen : ∀ k, k ∈ seen ↔ k ∈ handles)
    (tokens : List Token) :
    match firstRepeat seen (tokens.map (·.handle)) with
    | some repeated =>
        table.fill handles.length tokens = .error (.duplicateToken repeated)
    | none =>
        ∃ final, table.fill handles.length tokens = .ok final
          ∧ final.Holds (handles ++ tokens.map (·.handle)) := by
  induction tokens generalizing table handles seen with
  | nil => exact ⟨table, rfl, by simpa using h⟩
  | cons token rest ih =>
      have henter : table.enter token.handle handles.length
          = (table.columns.contains token.handle,
            ⟨table.columns.insert token.handle handles.length⟩) := by
        simp [enter]
      by_cases hknown : token.handle ∈ handles
      · rw [h.contains.2 hknown] at henter
        simp [firstRepeat, (hseen _).2 hknown, fill, henter]
      · rw [Bool.eq_false_iff.2 (mt h.contains.1 hknown)] at henter
        have hseen' : ∀ k, k ∈ token.handle :: seen ↔ k ∈ handles ++ [token.handle] := by
          intro k
          simp [hseen, or_comm]
        have hrest := ih (h.insert hknown) hseen'
        have hnew : token.handle ∉ seen := mt (hseen _).1 hknown
        simpa [firstRepeat, hnew, fill, henter] using hrest

theorem Holds.column_eq {r : Registry} (h : table.Holds r.handles) : table.column = r.column := by
  funext handle
  have hentry : table.columns[handle]? = r.handles.idxOf? handle := by
    apply Option.ext
    intro column
    rw [h.entries, ← Registry.column_eq_ok_iff, Registry.column]
    cases r.handles.idxOf? handle <;> simp
  unfold column Registry.column
  cases hposition : r.handles.idxOf? handle <;> simp [hentry, hposition]

theorem ofTokens_eq (tokens : List Token) :
    (ofTokens tokens).map (fun table => (table.size, table.column))
      = (Registry.ofTokens tokens).map fun r => (r.size, r.column) := by
  have hseen : ∀ k : Nat, k ∈ ([] : List Nat) ↔ k ∈ ([] : List Nat) := fun _ => Iff.rfl
  have hfill := fill_spec holds_empty hseen tokens
  cases hrepeat : firstRepeat [] (tokens.map (·.handle)) with
  | some repeated =>
      rw [hrepeat] at hfill
      rw [ofTokens, Registry.ofTokens_of_firstRepeat hrepeat]
      exact congrArg _ hfill
  | none =>
      rw [hrepeat] at hfill
      obtain ⟨table, htable, hholds⟩ := hfill
      let r : Registry := ⟨tokens.map (·.handle), (firstRepeat_eq_none_iff.1 hrepeat).1⟩
      have hregistry : Registry.ofTokens tokens = .ok r := Registry.ofTokens_eq_ok_iff.2 rfl
      have hsize : table.size = r.size := hholds.size
      have hcolumn : table.column = r.column := hholds.column_eq
      rw [ofTokens, hregistry]
      show (empty.fill 0 tokens).map _ = _
      rw [show empty.fill 0 tokens = .ok table from htable]
      simp only [Except.map, hsize, hcolumn]

end ColumnTable

/-! ## Registries -/

namespace Registry

variable {r : Registry} {tokens : List Token}

theorem numbers_of_ofTokens (h : ofTokens tokens = .ok r) : r.Numbers tokens := by
  have hhandles := ofTokens_eq_ok_iff.1 h
  have hcolumn (handle column : Nat) : r.column handle = .ok column
      ↔ ∃ token, tokens[column]? = some token ∧ token.handle = handle :=
    column_eq_ok_iff_of_ofTokens h
  have hbelow (handle column : Nat) (hc : r.column handle = .ok column) :
      column < tokens.length := by
    obtain ⟨token, htoken, -⟩ := (hcolumn handle column).1 hc
    exact (List.getElem?_eq_some_iff.1 htoken).1
  constructor
  case size => rw [size, hhandles, List.length_map]
  case column => exact hcolumn
  case unregistered =>
    intro handle error
    by_cases hmem : handle ∈ r.handles
    · obtain ⟨column, hc⟩ := List.getElem?_of_mem hmem
      rw [column_eq_ok_iff.2 hc]
      rw [hhandles, List.mem_map] at hmem
      obtain ⟨token, htoken, rfl⟩ := hmem
      simp only [reduceCtorEq, false_iff, not_and]
      exact fun _ hnone => hnone token htoken rfl
    · have hnone : ∀ token ∈ tokens, token.handle ≠ handle := by
        rw [hhandles] at hmem
        exact fun token htoken hsame => hmem (List.mem_map.2 ⟨token, htoken, hsame⟩)
      rw [column_of_not_mem hmem, Except.error.injEq, eq_comm, and_iff_left hnone]
  case below => exact hbelow
  case oneHandle =>
    intro column hlt
    refine ⟨tokens[column].handle, ?_, ?_⟩
    · exact (hcolumn _ _).2 ⟨_, List.getElem?_eq_getElem hlt, rfl⟩
    · intro other hother
      obtain ⟨token, htoken, rfl⟩ := (hcolumn _ _).1 hother
      rw [List.getElem?_eq_getElem hlt, Option.some.injEq] at htoken
      rw [htoken]

theorem exists_ofTokens_iff : (∃ r, ofTokens tokens = .ok r) ↔ (tokens.map (·.handle)).Nodup := by
  constructor
  · rintro ⟨r, hr⟩
    rw [← ofTokens_eq_ok_iff.1 hr]
    exact r.distinct
  · intro hnodup
    exact ⟨⟨_, hnodup⟩, ofTokens_eq_ok_iff.2 rfl⟩

theorem ofTokens_eq_error_iff {error : CompileError} :
    ofTokens tokens = .error error
      ↔ ∃ token, IsFirstRepeated tokens token ∧ error = .duplicateToken token.handle := by
  constructor
  · intro h
    have hrepeat : ¬(tokens.map (·.handle)).Nodup := by
      rw [← exists_ofTokens_iff, h]
      simp
    obtain ⟨before, token, after, htokens, hnodup, hmem⟩ := exists_repeated hrepeat
    have herror := ofTokens_eq_error htokens hnodup hmem
    rw [h, Except.error.injEq] at herror
    exact ⟨token, ⟨before, after, htokens, hnodup, hmem⟩, herror⟩
  · rintro ⟨token, ⟨before, after, htokens, hnodup, hmem⟩, rfl⟩
    exact ofTokens_eq_error htokens hnodup hmem

/-- Tokens are registered exactly if no handle is repeated, and otherwise the first repeated one is
reported. A registry numbers its tokens, and so does the table that is filled with them. -/
theorem ofTokens_exact (tokens : List Token) :
    ((∃ r, ofTokens tokens = .ok r) ↔ (tokens.map (·.handle)).Nodup)
      ∧ (∀ error, ofTokens tokens = .error error
          ↔ ∃ token, IsFirstRepeated tokens token ∧ error = .duplicateToken token.handle)
      ∧ (∀ r, ofTokens tokens = .ok r → r.Numbers tokens)
      ∧ (ColumnTable.ofTokens tokens).map (fun table => (table.size, table.column))
        = (ofTokens tokens).map fun r => (r.size, r.column) :=
  ⟨exists_ofTokens_iff, fun _ => ofTokens_eq_error_iff, fun _ => numbers_of_ofTokens,
    ColumnTable.ofTokens_eq tokens⟩

def rota (last : Nat) : List Token :=
  [⟨42, "a", .binary, ⟨.zero, .one⟩, none⟩,
    ⟨7, "b", .continuous, .free, none⟩,
    ⟨1000, "c", .continuous, .free, some .one⟩,
    ⟨last, "d", .signedInteger, .free, none⟩]

theorem ofTokens_exact_rota :
    (∃ r, ofTokens (rota 3) = .ok r ∧ r.size = 4
        ∧ r.column 1000 = .ok 2
        ∧ r.column 4 = .error (.unresolvedToken 4)
        ∧ ∃! handle, r.column handle = .ok 3)
      ∧ ofTokens (rota 7) = .error (.duplicateToken 7) := by
  obtain ⟨hok, -, hnumbers, -⟩ := ofTokens_exact (rota 3)
  obtain ⟨r, hr⟩ := hok.2 (by decide)
  have hr' := hnumbers r hr
  refine ⟨⟨r, hr, hr'.size, ?_, ?_, hr'.oneHandle 3 (by decide)⟩, ?_⟩
  · exact (hr'.column 1000 2).2 ⟨_, rfl, rfl⟩
  · exact (hr'.unregistered 4 _).2 ⟨rfl, by decide⟩
  · have hfirst : IsFirstRepeated (rota 7) ⟨7, "d", .signedInteger, .free, none⟩ :=
      ⟨(rota 7).take 3, [], rfl, by decide, by decide⟩
    exact ((ofTokens_exact (rota 7)).2.1 _).2 ⟨_, hfirst, rfl⟩

end Registry

end SparseProgram
