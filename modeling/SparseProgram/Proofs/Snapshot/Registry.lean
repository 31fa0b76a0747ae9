import SparseProgram.Proofs.Attempts
import SparseProgram.Semantics.Exactness

/-!
# Resolution

A registry is a bijection between the registered handles and their positions. Monomials resolve to
one term exactly when they are alike, and a term at the point of an assignment has the value of the
monomials that resolve to it.
-/

namespace SparseProgram

theorem sortedPair_product_inj {a b c d : Nat} :
    sortedPair (a, some b) = sortedPair (c, some d) ↔ a = c ∧ b = d ∨ a = d ∧ b = c := by
  simp only [sortedPair, Prod.mk.injEq, Option.some.injEq]
  omega

section Replacement

variable {ε : Type} {f : Nat → Except ε Nat} {a b : Nat} {pair other result : Nat × Option Nat}

theorem replacePair_single_eq_ok_iff :
    replacePair f (a, none) = .ok result ↔ ∃ c, f a = .ok c ∧ (c, none) = result := by
  simp only [replacePair, bind_eq_ok_iff, pure_eq_ok_iff]

theorem replacePair_product_eq_ok_iff :
    replacePair f (a, some b) = .ok result
      ↔ ∃ c d, f a = .ok c ∧ f b = .ok d ∧ sortedPair (c, some d) = result := by
  simp only [replacePair, bind_eq_ok_iff, pure_eq_ok_iff, sortedPair]
  constructor
  · intro h
    rcases h with ⟨c, hc, d, hd, hresult⟩
    exact ⟨c, d, hc, hd, hresult⟩
  · intro h
    rcases h with ⟨c, d, hc, hd, hresult⟩
    exact ⟨c, hc, d, hd, hresult⟩

/-- An injective replacement takes two pairs to one exactly if they differ at most in order. -/
theorem replacePair_eq_ok_iff_of_eq_ok
    (hf : ∀ {a b c : Nat}, f a = .ok c → f b = .ok c → a = b)
    (h : replacePair f pair = .ok result) :
    replacePair f other = .ok result ↔ sortedPair other = sortedPair pair := by
  -- A single column and a product have no common result.
  match pair, other with
  | (a, none), (a', none) =>
      obtain ⟨c, hc, rfl⟩ := replacePair_single_eq_ok_iff.1 h
      rw [replacePair_single_eq_ok_iff]
      constructor
      · intro hother
        rcases hother with ⟨c', hc', hcolumn⟩
        obtain rfl : c' = c := congrArg Prod.fst hcolumn
        rw [hf hc' hc]
      · intro hsorted
        obtain rfl : a' = a := congrArg Prod.fst hsorted
        exact ⟨c, hc, rfl⟩
  | (a, none), (a', some b') =>
      obtain ⟨c, hc, rfl⟩ := replacePair_single_eq_ok_iff.1 h
      simp [replacePair_product_eq_ok_iff, sortedPair]
  | (a, some b), (a', none) =>
      obtain ⟨c, d, hc, hd, rfl⟩ := replacePair_product_eq_ok_iff.1 h
      simp [replacePair_single_eq_ok_iff, sortedPair]
  | (a, some b), (a', some b') =>
      obtain ⟨c, d, hc, hd, rfl⟩ := replacePair_product_eq_ok_iff.1 h
      rw [replacePair_product_eq_ok_iff, sortedPair_product_inj]
      constructor
      · intro hother
        rcases hother with ⟨c', d', hc', hd', hsorted⟩
        rcases sortedPair_product_inj.1 hsorted with ⟨rfl, rfl⟩ | ⟨rfl, rfl⟩
        · exact .inl ⟨hf hc' hc, hf hd' hd⟩
        · exact .inr ⟨hf hc' hd, hf hd' hc⟩
      · intro hsame
        rcases hsame with ⟨rfl, rfl⟩ | ⟨rfl, rfl⟩
        · exact ⟨c, d, hc, hd, rfl⟩
        · exact ⟨d, c, hd, hc, sortedPair_product_inj.2 (.inr ⟨rfl, rfl⟩)⟩

/-- Values that go along with a replacement make the same product, in whatever order. -/
theorem mul_elim_of_replacePair {p a : Nat → Rat}
    (hp : ∀ {key column : Nat}, f key = .ok column → p column = a key)
    (h : replacePair f pair = .ok result) :
    p result.1 * result.2.elim 1 p = a pair.1 * pair.2.elim 1 a := by
  match pair with
  | (first, none) =>
      obtain ⟨c, hc, rfl⟩ := replacePair_single_eq_ok_iff.1 h
      simp [hp hc]
  | (first, some second) =>
      obtain ⟨c, d, hc, hd, rfl⟩ := replacePair_product_eq_ok_iff.1 h
      rcases le_total c d with hle | hle
      · simp [sortedPair, hle, hp hc, hp hd]
      · simp [sortedPair, hle, hp hc, hp hd, mul_comm]

end Replacement

namespace Registry

variable {r : Registry}

theorem ofTokens_eq_ok_iff {tokens : List Token} :
    ofTokens tokens = .ok r ↔ r.handles = tokens.map (·.handle) := by
  unfold ofTokens
  split
  · rename_i handle hrepeat
    constructor
    · intro hok
      cases hok
    · intro hhandles
      have hnodup : (tokens.map (·.handle)).Nodup := hhandles ▸ r.distinct
      have hnone : firstRepeat [] (tokens.map (·.handle)) = none :=
        firstRepeat_eq_none_iff.2 ⟨hnodup, by simp⟩
      rw [hnone] at hrepeat
      cases hrepeat
  · rw [Except.ok.injEq]
    constructor
    · intro hr
      rw [← hr]
    · intro hhandles
      cases r
      simp_all

theorem ofTokens_of_firstRepeat {tokens : List Token} {handle : Nat}
    (h : firstRepeat [] (tokens.map (·.handle)) = some handle) :
    ofTokens tokens = .error (.duplicateToken handle) := by
  unfold ofTokens
  split
  · rename_i found hfound
    rw [h] at hfound
    rw [Option.some.inj hfound]
  · rename_i hnone
    rw [h] at hnone
    cases hnone

theorem column_eq_ok_iff {handle column : Nat} :
    r.column handle = .ok column ↔ r.handles[column]? = some handle := by
  have hposition : r.column handle = .ok column ↔ r.handles.idxOf? handle = some column := by
    unfold Registry.column
    cases r.handles.idxOf? handle <;> simp
  rw [hposition, List.idxOf?_eq_some_iff, List.getElem?_eq_some_iff]
  constructor
  · intro h
    rcases h with ⟨hlt, hhandle, -⟩
    exact ⟨hlt, hhandle⟩
  · intro h
    rcases h with ⟨hlt, hhandle⟩
    refine ⟨hlt, hhandle, ?_⟩
    intro j hj hsame
    have hindex : j = column := (r.distinct.getElem_inj_iff).1 (hsame.trans hhandle.symm)
    omega

/-- The column of a handle is the position of the token that it was taken from. -/
theorem column_eq_ok_iff_of_ofTokens {tokens : List Token} {handle column : Nat}
    (h : ofTokens tokens = .ok r) :
    r.column handle = .ok column ↔ ∃ token, tokens[column]? = some token ∧ token.handle = handle := by
  rw [column_eq_ok_iff, ofTokens_eq_ok_iff.1 h, List.getElem?_map, Option.map_eq_some_iff]

theorem column_of_not_mem {handle : Nat} (h : handle ∉ r.handles) :
    r.column handle = .error (.unresolvedToken handle) := by
  unfold Registry.column
  rw [List.idxOf?_eq_none_iff.2 h]

theorem column_inj {a b c : Nat} (ha : r.column a = .ok c) (hb : r.column b = .ok c) : a = b := by
  rw [column_eq_ok_iff] at ha hb
  exact Option.some.inj (ha.symm.trans hb)

variable {τ : Type} [Term τ] {monomial other t : τ}

theorem term_eq_ok_iff :
    r.term monomial = .ok t
      ↔ replacePair r.column (Term.columns monomial) = .ok (Term.columns t) := by
  rw [← Term.columns_replaceColumns, term]
  cases Term.replaceColumns r.column monomial with
  | error e => simp [Except.map]
  | ok u => simpa [Except.map] using ⟨congrArg Term.columns, Term.columns_injective⟩

/-- Terms merge the monomials that are alike, and no others. -/
theorem term_eq_ok_iff_of_term (h : r.term monomial = .ok t) :
    r.term other = .ok t ↔ Term.sortedColumns other = Term.sortedColumns monomial := by
  rw [term_eq_ok_iff] at h ⊢
  exact replacePair_eq_ok_iff_of_eq_ok column_inj h

end Registry

namespace Snapshot

variable {τ : Type} {s : Snapshot τ} {registry : Registry} {a : Assignment}

theorem pointOf_eq {handle column : Nat} (hr : Registry.ofTokens s.tokens = .ok registry)
    (h : registry.column handle = .ok column) : s.pointOf a column = a handle := by
  obtain ⟨token, htoken, rfl⟩ := (Registry.column_eq_ok_iff_of_ofTokens hr).1 h
  simp [pointOf, htoken]

/-- A term has the value of the monomials that it stands for. -/
theorem valueAt_pointOf [Term τ] {monomial t : τ} (hr : Registry.ofTokens s.tokens = .ok registry)
    (h : registry.term monomial = .ok t) :
    Term.valueAt (s.pointOf a) t = Term.valueAt a monomial :=
  mul_elim_of_replacePair (pointOf_eq hr) (Registry.term_eq_ok_iff.1 h)

end Snapshot

end SparseProgram
