import Mathlib.Data.List.Forall2

/-!
# Attempts

When a chain of steps that may fail succeeds, and with what. A list of attempts stands beside the
list of its results, member by member. A chain whose steps are told with other failures and results
is told so as a whole.
-/

namespace SparseProgram

variable {ε α β : Type}

theorem bind_eq_ok_iff {x : Except ε α} {f : α → Except ε β} {b : β} :
    x >>= f = .ok b ↔ ∃ a, x = .ok a ∧ f a = .ok b := by
  cases x with
  | error e => simp [bind, Except.bind]
  | ok a => simp [bind, Except.bind]

theorem bind_eq_error {x : Except ε α} {e : ε} (h : x = .error e) (f : α → Except ε β) :
    x >>= f = .error e := by
  rw [h]
  rfl

theorem pure_eq_ok_iff {a b : α} : (pure a : Except ε α) = .ok b ↔ a = b := by
  simp [pure, Except.pure]

theorem mapM_eq_ok_iff {f : α → Except ε β} {l : List α} {results : List β} :
    l.mapM f = .ok results ↔ List.Forall₂ (fun a b => f a = .ok b) l results := by
  induction l generalizing results with
  | nil =>
      rw [List.mapM_nil, pure_eq_ok_iff, List.forall₂_nil_left_iff]
      exact eq_comm
  | cons a rest ih =>
      rw [List.mapM_cons, bind_eq_ok_iff]
      constructor
      · intro h
        rcases h with ⟨b, hb, htail⟩
        obtain ⟨bs, hbs, hpure⟩ := bind_eq_ok_iff.1 htail
        rw [← pure_eq_ok_iff.1 hpure]
        exact .cons hb (ih.1 hbs)
      · intro h
        cases h with
        | cons hb hrest => exact ⟨_, hb, bind_eq_ok_iff.2 ⟨_, ih.2 hrest, rfl⟩⟩

theorem mapM_eq_ok_iff_map {f : α → Except ε β} {P : α → Prop} {g : α → β}
    (h : ∀ a b, f a = .ok b ↔ P a ∧ b = g a) {l : List α} {results : List β} :
    l.mapM f = .ok results ↔ (∀ a ∈ l, P a) ∧ results = l.map g := by
  rw [mapM_eq_ok_iff]
  induction l generalizing results with
  | nil => simp
  | cons a rest ih =>
      rw [List.forall₂_cons_left_iff]
      constructor
      · intro hall
        rcases hall with ⟨b, bs, hb, hrest, rfl⟩
        obtain ⟨hP, rfl⟩ := (h a b).1 hb
        obtain ⟨hall, rfl⟩ := ih.1 hrest
        exact ⟨List.forall_mem_cons.2 ⟨hP, hall⟩, rfl⟩
      · intro hall
        rcases hall with ⟨hall, rfl⟩
        obtain ⟨hP, hrest⟩ := List.forall_mem_cons.1 hall
        exact ⟨g a, rest.map g, (h a (g a)).2 ⟨hP, rfl⟩, ih.2 ⟨hrest, rfl⟩, rfl⟩

/-- A list of attempts fails as the first member that fails. -/
theorem mapM_append_cons_eq_error {f : α → Except ε β} {before after : List α} {a : α} {e : ε}
    (hbefore : ∀ b ∈ before, ∃ r, f b = .ok r) (ha : f a = .error e) :
    (before ++ a :: after).mapM f = .error e := by
  induction before with
  | nil => rw [List.nil_append, List.mapM_cons, ha]; rfl
  | cons b rest ih =>
      rw [List.forall_mem_cons] at hbefore
      obtain ⟨r, hr⟩ := hbefore.1
      rw [List.cons_append, List.mapM_cons, hr, ih hbefore.2]
      rfl

/-! ## Attempts told otherwise -/

section Relabel

variable {ε' α' β' : Type} {failure : ε → ε'}

/-- An attempt with its failure and its result replaced. -/
def relabel (failure : ε → ε') (result : α → α') (x : Except ε α) : Except ε' α' :=
  (x.mapError failure).map result

theorem relabel_id_left (result : α → α') (x : Except ε α) : relabel id result x = x.map result := by
  cases x <;> rfl

theorem relabel_id_right (failure : ε → ε') (x : Except ε α) :
    relabel failure id x = x.mapError failure := by
  cases x <;> rfl

theorem map_relabel {γ : Type} (g : α' → γ) (result : α → α') (x : Except ε α) :
    (relabel failure result x).map g = relabel failure (g ∘ result) x := by
  cases x <;> rfl

theorem relabel_map {γ : Type} (g : γ → α) (result : α → α') (x : Except ε γ) :
    relabel failure result (x.map g) = relabel failure (result ∘ g) x := by
  cases x <;> rfl

theorem map_injective {g : α → β} (hg : Function.Injective g) :
    Function.Injective (Except.map g : Except ε α → Except ε β) := by
  intro x y h
  cases x with
  | error e =>
      cases y with
      | error e' => simpa [Except.map] using h
      | ok b => simp [Except.map] at h
  | ok a =>
      cases y with
      | error e' => simp [Except.map] at h
      | ok b =>
          have hab : g a = g b := by simpa [Except.map] using h
          rw [hg hab]

theorem bind_eq_relabel {x : Except ε α} {x' : Except ε' α'} {f : α → Except ε β}
    {f' : α' → Except ε' β'} {result : α → α'} {result' : β → β'}
    (hx : x' = relabel failure result x)
    (hf : ∀ a, f' (result a) = relabel failure result' (f a)) :
    x' >>= f' = relabel failure result' (x >>= f) := by
  subst hx
  cases x with
  | error e => rfl
  | ok a => exact hf a

theorem mapM_eq_relabel {f : α → Except ε β} {f' : α' → Except ε' β'} {member : α → α'}
    {result : β → β'} {l : List α}
    (h : ∀ a ∈ l, f' (member a) = relabel failure result (f a)) :
    (l.map member).mapM f' = relabel failure (List.map result) (l.mapM f) := by
  induction l with
  | nil => rfl
  | cons a rest ih =>
      rw [List.forall_mem_cons] at h
      rw [List.map_cons, List.mapM_cons, List.mapM_cons]
      exact bind_eq_relabel h.1 fun b => bind_eq_relabel (ih h.2) fun bs => rfl

theorem foldlM_eq_relabel {f : β → α → Except ε β} {f' : β' → α' → Except ε' β'}
    {member : α → α'} (result : β → β') {l : List α}
    (h : ∀ b, ∀ a ∈ l, f' (result b) (member a) = relabel failure result (f b a)) (start : β) :
    (l.map member).foldlM f' (result start) = relabel failure result (l.foldlM f start) := by
  induction l generalizing start with
  | nil => rfl
  | cons a rest ih =>
      rw [List.map_cons, List.foldlM_cons, List.foldlM_cons]
      exact bind_eq_relabel (h start a List.mem_cons_self)
        (ih fun b a ha => h b a (List.mem_cons_of_mem _ ha))

end Relabel

/-! ## Lists side by side -/

variable {R : α → β → Prop} {l : List α} {results : List β}

theorem map_eq_map_of_forall₂ {γ : Type} {f : α → γ} {g : β → γ}
    (h : List.Forall₂ R l results) (hR : ∀ a b, R a b → g b = f a) :
    results.map g = l.map f := by
  induction h with
  | nil => rfl
  | cons hab _ ih => rw [List.map_cons, List.map_cons, hR _ _ hab, ih]

theorem forall_of_forall₂ {Q : β → Prop} (h : List.Forall₂ R l results)
    (hR : ∀ a b, R a b → Q b) : ∀ b ∈ results, Q b := by
  induction h with
  | nil => simp
  | cons hab _ ih => exact List.forall_mem_cons.2 ⟨hR _ _ hab, ih⟩

theorem forall_iff_of_forall₂ {P : α → Prop} {Q : β → Prop} (h : List.Forall₂ R l results)
    (hR : ∀ a ∈ l, ∀ b, R a b → (P a ↔ Q b)) : (∀ a ∈ l, P a) ↔ ∀ b ∈ results, Q b := by
  induction h with
  | nil => simp
  | cons hab _ ih =>
      rw [List.forall_mem_cons] at hR
      rw [List.forall_mem_cons, List.forall_mem_cons, hR.1 _ hab, ih hR.2]

theorem forall₂_mapIdx {γ δ : Type} {S : γ → δ → Prop} {f : Nat → α → γ} {g : Nat → β → δ}
    (h : List.Forall₂ R l results) (hR : ∀ i a b, R a b → S (f i a) (g i b)) :
    List.Forall₂ S (l.mapIdx f) (results.mapIdx g) := by
  rw [List.forall₂_iff_get] at h ⊢
  refine ⟨by rw [List.length_mapIdx, List.length_mapIdx, h.1], ?_⟩
  intro i hi hi'
  rw [List.length_mapIdx] at hi hi'
  have hmember := h.2 i hi hi'
  simpa using hR i _ _ hmember

theorem forall₂_mapIdx_of_forall₂ {γ : Type} {S : α → γ → Prop} {f : Nat → β → γ}
    (h : List.Forall₂ R l results) (hR : ∀ i a b, R a b → S a (f i b)) :
    List.Forall₂ S l (results.mapIdx f) := by
  have hleft : l.mapIdx (fun _ a => a) = l := List.ext_getElem (by simp) (by simp)
  rw [← hleft]
  exact forall₂_mapIdx h hR

theorem forall₂_zip {γ δ : Type} {S : γ → δ → Prop} {others : List γ} {otherResults : List δ}
    (h : List.Forall₂ R l results) (h' : List.Forall₂ S others otherResults) :
    List.Forall₂ (fun a b => R a.1 b.1 ∧ S a.2 b.2) (l.zip others) (results.zip otherResults) := by
  induction h generalizing others otherResults with
  | nil => exact .nil
  | cons hab _ ih =>
      cases h' with
      | nil => exact .nil
      | cons hcd hrest => exact .cons ⟨hab, hcd⟩ (ih hrest)

/-- Two lists that stand beside the same list stand beside each other. -/
theorem forall₂_of_forall₂ {γ : Type} {S : α → γ → Prop} {T : β → γ → Prop} {others : List γ}
    (h : List.Forall₂ R l results) (h' : List.Forall₂ S l others)
    (hT : ∀ a b c, R a b → S a c → T b c) : List.Forall₂ T results others := by
  induction h generalizing others with
  | nil =>
      cases h'
      exact .nil
  | cons hab _ ih =>
      cases h' with
      | cons hac hrest => exact .cons (hT _ _ _ hab hac) (ih hrest)

end SparseProgram
