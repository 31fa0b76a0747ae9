import SparseProgram.First
import SparseProgram.Proofs.Snapshot.Compile
import SparseProgram.Snapshot.Failure

/-!
# The failure that is reported

Resolving goes through handles in their order and stops at the first that is not registered. So a
snapshot compiles, or fails with the one failure that it is due.
-/

namespace SparseProgram

/-! ## Repeated handles -/

theorem firstRepeat_append {seen before after : List Nat} {handle : Nat} (hnodup : before.Nodup)
    (hseen : ∀ k ∈ before, k ∉ seen) (hrepeat : handle ∈ seen ∨ handle ∈ before) :
    firstRepeat seen (before ++ handle :: after) = some handle := by
  induction before generalizing seen with
  | nil =>
      have hmem : handle ∈ seen := by simpa using hrepeat
      rw [List.nil_append, firstRepeat, if_pos hmem]
  | cons k rest ih =>
      rw [List.nodup_cons] at hnodup
      rw [List.forall_mem_cons] at hseen
      rw [List.cons_append, firstRepeat, if_neg hseen.1]
      apply ih hnodup.2
      · intro j hj
        rw [List.mem_cons, not_or]
        exact ⟨fun hjk => hnodup.1 (hjk ▸ hj), hseen.2 j hj⟩
      · rw [List.mem_cons] at hrepeat ⊢
        tauto

theorem Registry.ofTokens_eq_error {tokens before after : List Token} {token : Token}
    (htokens : tokens = before ++ token :: after) (hnodup : (before.map (·.handle)).Nodup)
    (hrepeat : token.handle ∈ before.map (·.handle)) :
    Registry.ofTokens tokens = .error (.duplicateToken token.handle) := by
  apply Registry.ofTokens_of_firstRepeat
  rw [htokens, List.map_append, List.map_cons]
  exact firstRepeat_append hnodup (by simp) (.inr hrepeat)

theorem exists_repeated {tokens : List Token} (h : ¬(tokens.map (·.handle)).Nodup) :
    ∃ before token after, tokens = before ++ token :: after
      ∧ (before.map (·.handle)).Nodup ∧ token.handle ∈ before.map (·.handle) := by
  induction tokens using List.reverseRecOn with
  | nil => simp at h
  | append_singleton earlier last ih =>
      by_cases hearlier : (earlier.map (·.handle)).Nodup
      · refine ⟨earlier, last, [], rfl, hearlier, ?_⟩
        by_contra hnew
        apply h
        rw [List.map_append, List.map_singleton, ← List.concat_eq_append]
        exact hearlier.concat hnew
      · obtain ⟨before, token, after, rfl, hnodup, hrepeat⟩ := ih hearlier
        exact ⟨before, token, after ++ [last], by simp, hnodup, hrepeat⟩

/-! ## Disordered bounds -/

variable {τ : Type}

theorem Token.toVariable_eq_error {token : Token} {index : Nat}
    (h : ¬token.bounds.isOrdered = true) :
    token.toVariable index = .error (.invalidBounds token.name token.bounds) := by
  rw [toVariable, if_neg h]

theorem Snapshot.compileVariables_eq_error {s : Snapshot τ} {token : Token}
    (h : IsFirst (fun token => ¬token.bounds.isOrdered = true) s.tokens token) :
    s.compileVariables = .error (.invalidBounds token.name token.bounds) := by
  obtain ⟨before, after, htokens, htoken, hbefore⟩ := h
  rw [compileVariables, htokens, List.zipIdx_append, List.zipIdx_cons]
  apply mapM_append_cons_eq_error
  · intro entry hentry
    have hordered := hbefore entry.1 (List.fst_mem_of_mem_zipIdx hentry)
    exact ⟨_, Token.toVariable_eq_ok_iff.2 ⟨Decidable.not_not.1 hordered, rfl⟩⟩
  · exact Token.toVariable_eq_error htoken

/-! ## Unregistered handles -/

namespace Registry

variable {r : Registry} {α β : Type} {keys more : List Nat}

/-- An attempt that fails for the first key that is not registered, and only then. -/
def Resolves (r : Registry) (keys : List Nat) (attempt : Except CompileError α) : Prop :=
  match keys.find? (· ∉ r.handles) with
  | some handle => attempt = .error (.unresolvedToken handle)
  | none => ∃ a, attempt = .ok a

theorem resolves_pure (a : α) : r.Resolves [] (pure a : Except CompileError α) :=
  ⟨a, rfl⟩

theorem Resolves.bind {attempt : Except CompileError α} {f : α → Except CompileError β}
    (h : r.Resolves keys attempt) (hf : ∀ a, r.Resolves more (f a)) :
    r.Resolves (keys ++ more) (attempt >>= f) := by
  unfold Resolves at h ⊢
  rw [List.find?_append]
  cases hkeys : keys.find? (· ∉ r.handles) with
  | some handle =>
      rw [hkeys] at h
      rw [h]
      rfl
  | none =>
      rw [hkeys] at h
      obtain ⟨a, rfl⟩ := h
      exact hf a

theorem Resolves.bind_pure {attempt : Except CompileError α} (h : r.Resolves keys attempt)
    (f : α → β) : r.Resolves keys (attempt >>= fun a => pure (f a)) := by
  have hbind := h.bind (f := fun a => pure (f a)) fun a => resolves_pure (f a)
  rwa [List.append_nil] at hbind

theorem resolves_map_iff {attempt : Except CompileError α} {f : α → β} :
    r.Resolves keys (attempt.map f) ↔ r.Resolves keys attempt := by
  unfold Resolves
  cases keys.find? (· ∉ r.handles) <;> cases attempt <;> simp [Except.map]

theorem resolves_mapM {γ : Type} {keys : γ → List Nat} {f : γ → Except CompileError β}
    (h : ∀ c, r.Resolves (keys c) (f c)) (l : List γ) :
    r.Resolves (l.flatMap keys) (l.mapM f) := by
  induction l with
  | nil => exact resolves_pure []
  | cons c rest ih =>
      rw [List.mapM_cons, List.flatMap_cons]
      exact (h c).bind fun b => ih.bind_pure (b :: ·)

theorem resolves_foldlM {γ : Type} {keys : γ → List Nat} {f : α → γ → Except CompileError α}
    (h : ∀ a c, r.Resolves (keys c) (f a c)) (l : List γ) (start : α) :
    r.Resolves (l.flatMap keys) (l.foldlM f start) := by
  induction l generalizing start with
  | nil => exact resolves_pure start
  | cons c rest ih =>
      rw [List.foldlM_cons, List.flatMap_cons]
      exact (h start c).bind ih

theorem resolves_column (handle : Nat) : r.Resolves [handle] (r.column handle) := by
  unfold Resolves
  by_cases h : handle ∈ r.handles
  · obtain ⟨column, hcolumn⟩ := List.getElem?_of_mem h
    simp [h, column_eq_ok_iff.2 hcolumn]
  · simp [h, column_of_not_mem h]

theorem resolves_replacePair (pair : Nat × Option Nat) :
    r.Resolves (pair.1 :: pair.2.toList) (replacePair r.column pair) := by
  match pair with
  | (handle, none) => exact (resolves_column handle).bind_pure fun c => (c, none)
  | (first, some second) =>
      exact (resolves_column first).bind fun a =>
        (resolves_column second).bind_pure fun b => (min a b, some (max a b))

variable [Term τ]

theorem resolves_term (monomial : τ) :
    r.Resolves (Term.columnList monomial) (r.term monomial) := by
  have hpair := r.resolves_replacePair (Term.columns monomial)
  rw [← Term.columns_replaceColumns] at hpair
  exact resolves_map_iff.1 hpair

theorem resolves_tallyCells (scale : Binary64) (tally : Tally τ) (cells : List (SymbolicCell τ)) :
    r.Resolves (mentionedHandles cells) (tallyCells r scale tally cells) := by
  induction cells generalizing tally with
  | nil => exact resolves_pure tally
  | cons cell rest ih =>
      rw [tallyCells]
      exact (resolves_term cell.monomial).bind fun t => ih _

end Registry

namespace Snapshot

variable [Term τ] {s : Snapshot τ}

theorem resolves_compileRows (s : Snapshot τ) (r : Registry) :
    r.Resolves (s.constraints.flatMap fun c => mentionedHandles c.cells) (s.compileRows r) := by
  apply Registry.resolves_mapM
  intro c
  have hcells := Registry.resolves_tallyCells (r := r) .one [] c.cells
  exact hcells.bind_pure fun cells => (⟨cells, c.relation, c.rightSide, c.name⟩ : Row τ)

theorem resolves_compileObjective (s : Snapshot τ) (r : Registry) :
    r.Resolves (s.goals.flatMap fun goal => mentionedHandles goal.cells)
      (s.compileObjective r) := by
  have htally : r.Resolves (s.goals.flatMap fun goal => mentionedHandles goal.cells)
      (s.objectiveTally r) := by
    apply Registry.resolves_foldlM
    intro tally goal
    exact Registry.resolves_tallyCells (goal.scale s.effectiveSense) tally goal.cells
  exact htally.bind_pure fun tally =>
    (⟨s.effectiveSense, tally.map fun entry => ⟨entry.1, entry.2⟩⟩ : Objective τ)

theorem resolves_parts (s : Snapshot τ) (r : Registry) (vars : List Variable) :
    r.Resolves s.references
      (do
        let rows ← s.compileRows r
        let objective ← s.compileObjective r
        return (⟨s.name, vars, .ofRows rows, objective⟩ : Model τ)) :=
  (s.resolves_compileRows r).bind fun rows =>
    (s.resolves_compileObjective r).bind_pure fun objective =>
      (⟨s.name, vars, .ofRows rows, objective⟩ : Model τ)

/-- What is left of compiling once the tokens are known to be in order. -/
theorem compile_eq_parts (options : CompileOptions) (hdistinct : s.handles.Nodup)
    (hordered : ∀ token ∈ s.tokens, token.bounds.isOrdered = true) :
    ∃ r : Registry, r.handles = s.handles
      ∧ s.compile options = (do
          let rows ← s.compileRows r
          let objective ← s.compileObjective r
          return ⟨s.name, s.tokens.mapIdx Token.columnVariable, .ofRows rows, objective⟩) := by
  let r : Registry := ⟨s.handles, hdistinct⟩
  have hregistry : Registry.ofTokens s.tokens = .ok r := Registry.ofTokens_eq_ok_iff.2 rfl
  have hvars : s.compileVariables = .ok (s.tokens.mapIdx Token.columnVariable) :=
    compileVariables_eq_ok_iff.2 ⟨hordered, rfl⟩
  refine ⟨r, rfl, ?_⟩
  rw [compile_eq_bind, hregistry]
  show s.compileInTurn r = _
  rw [compileInTurn, hvars]
  rfl

theorem FailsWith.compile_eq {error : CompileError} (h : s.FailsWith error)
    (options : CompileOptions) : s.compile options = .error error := by
  cases h with
  | repeated before after token htokens hnodup hrepeat =>
      rw [compile_eq_bind, Registry.ofTokens_eq_error htokens hnodup hrepeat]
      rfl
  | disordered token hdistinct hfirst =>
      have hregistry : Registry.ofTokens s.tokens = .ok ⟨s.handles, hdistinct⟩ :=
        Registry.ofTokens_eq_ok_iff.2 rfl
      rw [compile_eq_bind, hregistry]
      show s.compileInTurn _ = _
      rw [compileInTurn, compileVariables_eq_error hfirst]
      rfl
  | unregistered handle hdistinct hordered hfirst =>
      obtain ⟨r, hhandles, hcompile⟩ := compile_eq_parts options hdistinct hordered
      have hresolves := s.resolves_parts r (s.tokens.mapIdx Token.columnVariable)
      have hfind : s.references.find? (· ∉ r.handles) = some handle := by
        rw [hhandles]
        apply IsFirst.find?_eq
        simpa using hfirst
      rw [Registry.Resolves, hfind] at hresolves
      rw [hcompile, hresolves]

theorem Compiles.exists_compile (h : s.Compiles) (options : CompileOptions) :
    ∃ m, s.compile options = .ok m := by
  obtain ⟨r, hhandles, hcompile⟩ := compile_eq_parts options h.distinct h.ordered
  have hresolves := s.resolves_parts r (s.tokens.mapIdx Token.columnVariable)
  have hfind : s.references.find? (· ∉ r.handles) = none := by
    rw [hhandles, List.find?_eq_none]
    intro handle hhandle
    simpa using h.registered handle hhandle
  rw [Registry.Resolves, hfind] at hresolves
  rwa [hcompile]

theorem compiles_or_failsWith (s : Snapshot τ) : s.Compiles ∨ ∃ error, s.FailsWith error := by
  by_cases hdistinct : s.handles.Nodup
  · rcases forall_or_exists_isFirst (fun token => ¬token.bounds.isOrdered = true) s.tokens with
      hordered | ⟨token, htoken⟩
    · simp only [Decidable.not_not] at hordered
      rcases forall_or_exists_isFirst (· ∉ s.handles) s.references with
        hregistered | ⟨handle, hhandle⟩
      · simp only [Decidable.not_not] at hregistered
        exact .inl ⟨hdistinct, hordered, hregistered⟩
      · exact .inr ⟨_, .unregistered handle hdistinct hordered hhandle⟩
    · exact .inr ⟨_, .disordered token hdistinct htoken⟩
  · obtain ⟨before, token, after, htokens, hnodup, hrepeat⟩ := exists_repeated hdistinct
    exact .inr ⟨_, .repeated before after token htokens hnodup hrepeat⟩

theorem exists_compile_iff_compiles (s : Snapshot τ) (options : CompileOptions) :
    (∃ m, s.compile options = .ok m) ↔ s.Compiles := by
  constructor
  · intro h
    obtain ⟨m, hm⟩ := h
    rcases s.compiles_or_failsWith with hcompiles | ⟨error, herror⟩
    · exact hcompiles
    · rw [herror.compile_eq options] at hm
      cases hm
  · exact fun h => h.exists_compile options

/-- Compiling succeeds, or fails with the first failure: that of a repeated token, then that of a
token with disordered bounds, then that of an unregistered handle. -/
theorem compile_eq_error_iff_failsWith (s : Snapshot τ) (options : CompileOptions) :
    (∀ error, s.compile options = .error error ↔ s.FailsWith error)
      ∧ ((∃ m, s.compile options = .ok m) ↔ s.Compiles) := by
  have hfails : ∀ error, s.FailsWith error → s.compile options = .error error :=
    fun error h => h.compile_eq options
  have hcompiles : s.Compiles → ∃ m, s.compile options = .ok m := fun h => h.exists_compile options
  -- Every snapshot is of one of the two kinds, so neither outcome has another cause.
  rcases s.compiles_or_failsWith with hall | ⟨first, hfirst⟩
  · obtain ⟨m, hm⟩ := hcompiles hall
    constructor
    · intro error
      rw [hm]
      constructor
      · intro h
        cases h
      · intro h
        rw [hfails error h] at hm
        cases hm
    · exact ⟨fun _ => hall, hcompiles⟩
  · have herror := hfails first hfirst
    constructor
    · intro error
      constructor
      · intro h
        rw [herror] at h
        exact Except.error.inj h ▸ hfirst
      · exact hfails error
    · constructor
      · intro h
        obtain ⟨m, hm⟩ := h
        rw [herror] at hm
        cases hm
      · exact hcompiles

end Snapshot

end SparseProgram
