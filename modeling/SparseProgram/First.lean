import Mathlib.Tactic.Push

/-!
# First members

What a search from the front reports. A list that has a member with some property has a first one,
and nothing else than the first one is found.
-/

namespace SparseProgram

/-- A member that satisfies a condition which none before it does. -/
def IsFirst {α : Type} (P : α → Prop) (l : List α) (a : α) : Prop :=
  ∃ before after, l = before ++ a :: after ∧ P a ∧ ∀ b ∈ before, ¬P b

variable {α β : Type} {P : α → Prop} {l : List α}

theorem IsFirst.mem {a : α} (h : IsFirst P l a) : a ∈ l := by
  obtain ⟨before, after, rfl, -⟩ := h
  exact List.mem_append_right before List.mem_cons_self

theorem IsFirst.holds {a : α} (h : IsFirst P l a) : P a := by
  obtain ⟨before, after, -, ha, -⟩ := h
  exact ha

theorem exists_isFirst {a : α} (hmem : a ∈ l) (ha : P a) : ∃ first, IsFirst P l first := by
  induction l with
  | nil => cases hmem
  | cons b rest ih =>
      by_cases hb : P b
      · exact ⟨b, [], rest, rfl, hb, by simp⟩
      · have hrest : a ∈ rest := by
          rcases List.mem_cons.1 hmem with rfl | hrest
          · exact absurd ha hb
          · exact hrest
        obtain ⟨first, before, after, rfl, hfirst, hbefore⟩ := ih hrest
        exact ⟨first, b :: before, after, rfl, hfirst, List.forall_mem_cons.2 ⟨hb, hbefore⟩⟩

theorem forall_or_exists_isFirst (P : α → Prop) (l : List α) :
    (∀ a ∈ l, ¬P a) ∨ ∃ first, IsFirst P l first := by
  by_cases h : ∀ a ∈ l, ¬P a
  · exact .inl h
  · push Not at h
    obtain ⟨a, hmem, ha⟩ := h
    exact .inr (exists_isFirst hmem ha)

theorem IsFirst.find?_eq {p : α → Bool} {a : α} (h : IsFirst (p · = true) l a) :
    l.find? p = some a := by
  obtain ⟨before, after, rfl, ha, hbefore⟩ := h
  exact List.find?_eq_some_iff_append.2
    ⟨ha, before, after, rfl, fun b hb => by simpa using hbefore b hb⟩

theorem find?_eq_some_iff_isFirst {p : α → Bool} {a : α} :
    l.find? p = some a ↔ IsFirst (p · = true) l a := by
  refine ⟨?_, IsFirst.find?_eq⟩
  intro h
  obtain ⟨ha, before, after, hl, hbefore⟩ := List.find?_eq_some_iff_append.1 h
  exact ⟨before, after, hl, ha, fun b hb => by simpa using hbefore b hb⟩

theorem findSome?_eq_some_iff_isFirst {f : α → Option β} (hnone : ∀ a, f a = none ↔ ¬P a) {b : β} :
    l.findSome? f = some b ↔ ∃ a, IsFirst P l a ∧ f a = some b := by
  have hsome (a : α) : P a ↔ f a ≠ none := by rw [Ne, hnone, not_not]
  rw [List.findSome?_eq_some_iff]
  constructor
  · rintro ⟨before, a, after, hl, hb, hbefore⟩
    exact ⟨a, ⟨before, after, hl, (hsome a).2 (by simp [hb]), fun c hc => (hnone c).1 (hbefore c hc)⟩,
      hb⟩
  · rintro ⟨a, ⟨before, after, hl, -, hbefore⟩, hb⟩
    exact ⟨before, a, after, hl, hb, fun c hc => (hnone c).2 (hbefore c hc)⟩

theorem IsFirst.congr {Q : α → Prop} {a : α} (h : IsFirst P l a) (hPQ : ∀ b, P b ↔ Q b) :
    IsFirst Q l a := by
  obtain ⟨before, after, hl, ha, hbefore⟩ := h
  exact ⟨before, after, hl, (hPQ a).1 ha, fun b hb => (not_congr (hPQ b)).1 (hbefore b hb)⟩

theorem IsFirst.map {f : α → β} {Q : β → Prop} {a : α} (h : IsFirst (fun a => Q (f a)) l a) :
    IsFirst Q (l.map f) (f a) := by
  obtain ⟨before, after, rfl, ha, hbefore⟩ := h
  exact ⟨before.map f, after.map f, by simp, ha, List.forall_mem_map.2 hbefore⟩

end SparseProgram
