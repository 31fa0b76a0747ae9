import SparseProgram.Proofs.Embedding.Compile
import SparseProgram.Snapshot.Renaming

/-!
# Compiling renamed snapshots

Handles that are told apart before and after a renaming are compared for equality alone, so a
renamed snapshot compiles to the same model, or fails for the handle of the new name.
-/

namespace SparseProgram

variable {r : Nat → Nat}

theorem mem_map_iff_of_injOn {keys : List Nat} {k : Nat} (hr : Set.InjOn r {j | j ∈ k :: keys}) :
    r k ∈ keys.map r ↔ k ∈ keys := by
  constructor
  · intro h
    obtain ⟨j, hj, hjk⟩ := List.mem_map.1 h
    rwa [← hr (List.mem_cons_of_mem k hj) List.mem_cons_self hjk]
  · exact List.mem_map_of_mem

theorem firstRepeat_map {seen keys : List Nat} (hr : Set.InjOn r {j | j ∈ seen ++ keys}) :
    firstRepeat (seen.map r) (keys.map r) = (firstRepeat seen keys).map r := by
  induction keys generalizing seen with
  | nil => rfl
  | cons k rest ih =>
      have hmiddle (j : Nat) : j ∈ k :: (seen ++ rest) ↔ j ∈ seen ++ k :: rest :=
        List.perm_middle.symm.mem_iff
      have hk : r k ∈ seen.map r ↔ k ∈ seen :=
        mem_map_iff_of_injOn
          (hr.mono fun j hj => (hmiddle j).1 (List.mem_append_left rest hj))
      have hrest : firstRepeat ((k :: seen).map r) (rest.map r)
          = (firstRepeat (k :: seen) rest).map r :=
        ih (hr.mono fun j hj => (hmiddle j).1 hj)
      rw [List.map_cons, firstRepeat, firstRepeat]
      simp only [hk]
      split
      · rfl
      · exact hrest

/-! ## Resolution -/

namespace Registry

theorem column_rename {registry renamed : Registry} {k : Nat}
    (hhandles : renamed.handles = registry.handles.map r)
    (hr : Set.InjOn r {j | j ∈ k :: registry.handles}) :
    renamed.column (r k) = relabel (CompileError.rename r) id (registry.column k) := by
  by_cases hmem : k ∈ registry.handles
  · obtain ⟨column, hcolumn⟩ := List.getElem?_of_mem hmem
    have hrenamed : renamed.handles[column]? = some (r k) := by
      rw [hhandles, List.getElem?_map, hcolumn]
      rfl
    rw [column_eq_ok_iff.2 hcolumn, column_eq_ok_iff.2 hrenamed]
    rfl
  · have hnew : r k ∉ renamed.handles := by
      rwa [hhandles, mem_map_iff_of_injOn hr]
    rw [column_of_not_mem hmem, column_of_not_mem hnew]
    rfl

end Registry

theorem replacePair_rename {ε : Type} {f f' : Nat → Except ε Nat} {failure : ε → ε}
    {pair : Nat × Option Nat}
    (h : ∀ k ∈ pair.1 :: pair.2.toList, f' (r k) = relabel failure id (f k)) :
    replacePair f' (Prod.map r (Option.map r) pair) = relabel failure id (replacePair f pair) := by
  match pair with
  | (column, none) => exact bind_eq_relabel (h column (by simp)) fun _ => rfl
  | (first, some second) =>
      exact bind_eq_relabel (h first (by simp)) fun _ =>
        bind_eq_relabel (h second (by simp)) fun _ => rfl

namespace Snapshot

variable {τ : Type} [RenamableTerm τ] {s : Snapshot τ}

theorem translates_rename {registry renamed : Registry}
    (hregistry : registry.handles = s.handles) (hrenamed : renamed.handles = s.handles.map r)
    (hr : Set.InjOn r {k | k ∈ s.allHandles}) :
    Translates registry renamed (RenamableTerm.rename r : τ → τ) id (CompileError.rename r)
      s.references := by
  apply Translates.of_columns fun _ => rfl
  intro monomial hmonomial
  rw [RenamableTerm.columns_rename]
  apply replacePair_rename
  intro k hk
  apply Registry.column_rename
  · rw [hrenamed, hregistry]
  · apply hr.mono
    intro j hj
    rw [hregistry] at hj
    rcases List.mem_cons.1 hj with rfl | hregistered
    · exact List.mem_append_right _ (hmonomial hk)
    · exact List.mem_append_left _ hregistered

theorem compileVariables_rename (s : Snapshot τ) :
    (s.rename r).compileVariables = relabel (CompileError.rename r) id s.compileVariables := by
  have htoken : ∀ entry ∈ s.tokens.zipIdx,
      (entry.1.rename r).toVariable entry.2
        = relabel (CompileError.rename r) id (entry.1.toVariable entry.2) := by
    rintro ⟨token, index⟩ -
    show (if token.bounds.isOrdered = true then _ else _) = relabel _ _ (Token.toVariable _ _)
    unfold Token.toVariable
    split <;> rfl
  have htokens : (s.rename r).tokens.zipIdx = s.tokens.zipIdx.map (Prod.map (Token.rename r) id) :=
    List.zipIdx_map
  rw [compileVariables, htokens, mapM_eq_relabel htoken, List.map_id_fun]
  rfl

/-- Handles are only names: a renaming that keeps all handles apart changes nothing but the
handle in a failure. -/
theorem compile_rename (hr : Set.InjOn r {k | k ∈ s.allHandles}) (options : CompileOptions) :
    (s.rename r).compile options = (s.compile options).mapError (CompileError.rename r) := by
  have hhandles : (s.rename r).handles = s.handles.map r := by
    show (s.tokens.map (Token.rename r)).map (·.handle) = (s.tokens.map (·.handle)).map r
    rw [List.map_map, List.map_map]
    rfl
  have hregistered : Set.InjOn r {k | k ∈ [] ++ s.handles} :=
    hr.mono fun k hk => List.mem_append_left _ hk
  have hrepeat : firstRepeat [] (s.handles.map r) = (firstRepeat [] s.handles).map r :=
    firstRepeat_map hregistered
  rw [compile_eq_bind, compile_eq_bind, ← relabel_id_right]
  cases hfirst : firstRepeat [] s.handles with
  | some handle =>
      rw [hfirst, ← hhandles] at hrepeat
      rw [Registry.ofTokens_of_firstRepeat hfirst, Registry.ofTokens_of_firstRepeat hrepeat]
      rfl
  | none =>
      rw [hfirst, ← hhandles] at hrepeat
      have hregistry : Registry.ofTokens s.tokens
          = .ok ⟨s.handles, (firstRepeat_eq_none_iff.1 hfirst).1⟩ :=
        Registry.ofTokens_eq_ok_iff.2 rfl
      have hrenamed : Registry.ofTokens (s.rename r).tokens
          = .ok ⟨(s.rename r).handles, (firstRepeat_eq_none_iff.1 hrepeat).1⟩ :=
        Registry.ofTokens_eq_ok_iff.2 rfl
      rw [hregistry, hrenamed, ← Model.mapTerms_id]
      exact (translates_rename rfl hhandles hr).compileInTurn s.compileVariables_rename

def courier : Snapshot QuadraticTerm where
  name := "courier"
  sense := .minimum
  tokens :=
    [⟨7, "a", .continuous, ⟨.zero, .infinity⟩, none⟩,
      ⟨90, "b", .signedInteger, ⟨-.one, .ofInt 4⟩, some .one⟩]
  constraints :=
    [⟨[⟨.one, .product 90 7⟩, ⟨.ofInt 2, .linear 90⟩, ⟨.one, .product 7 90⟩], .lessEqual,
      .ofInt 5, "route"⟩]
  goals := [⟨[⟨.ofInt 3, .product 90 90⟩], .maximum, "load"⟩]

def courierModel : Model QuadraticTerm where
  name := "courier"
  vars :=
    [⟨0, ⟨.zero, .infinity⟩, .continuous, "a", none⟩,
      ⟨1, ⟨-.one, .ofInt 4⟩, .signedInteger, "b", some .one⟩]
  constraints :=
    .ofRows [⟨[(.product 0 1, .ofInt 2), (.linear 1, .ofInt 2)], .lessEqual, .ofInt 5, "route"⟩]
  objective := ⟨.maximum, [⟨.product 1 1, .ofInt 3⟩]⟩

def strayCourier : Snapshot QuadraticTerm :=
  courier.addGoal ⟨[⟨.one, .product 40 8⟩], .minimum, "stray"⟩

theorem compile_rename_courier :
    courier.compile .default = .ok courierModel
      ∧ (courier.rename (100 - ·)).compile .default = .ok courierModel
      ∧ strayCourier.compile .default = .error (.unresolvedToken 40)
      ∧ (strayCourier.rename (100 - ·)).compile .default = .error (.unresolvedToken 60) := by
  have hcourier : ∀ a ∈ courier.allHandles, ∀ b ∈ courier.allHandles, 100 - a = 100 - b → a = b := by
    decide
  have hstray : ∀ a ∈ strayCourier.allHandles, ∀ b ∈ strayCourier.allHandles,
      100 - a = 100 - b → a = b := by
    decide
  have hmodel : courier.compile .default = .ok courierModel := by decide +kernel
  have herror : strayCourier.compile .default = .error (.unresolvedToken 40) := by decide +kernel
  refine ⟨hmodel, ?_, herror, ?_⟩
  · rw [compile_rename fun a ha b hb => hcourier a ha b hb, hmodel]
    rfl
  · rw [compile_rename fun a ha b hb => hstray a ha b hb, herror]
    rfl

end Snapshot

end SparseProgram
