import SparseProgram.Proofs.Number.ExactValue
import SparseProgram.Proofs.Term.Order
import SparseProgram.Snapshot.Compile

/-!
# Laws of tallies

A tally is a finite map from terms to totals: its terms stay strictly increasing, and adding to one
term changes the total of this term only. At a point, a tally gains what is added to it, as long as
the one addition it makes does not round.
-/

namespace SparseProgram

namespace Tally

variable {τ : Type} {tally rest : Tally τ} {head s t : τ} {amount sum : Binary64}

def terms (tally : Tally τ) : List τ :=
  tally.map (·.1)

@[simp] theorem terms_cons (entry : τ × Binary64) :
    terms (entry :: tally) = entry.1 :: tally.terms :=
  rfl

def mapTerms {σ : Type} (f : τ → σ) (tally : Tally τ) : Tally σ :=
  tally.map fun (term, total) => (f term, total)

variable [Term τ]

theorem add_cons_of_lt (h : Term.compare t head = .lt) :
    add ((head, sum) :: rest) t amount = (t, .zero + amount) :: (head, sum) :: rest := by
  simp [add, h]

theorem add_cons_self :
    add ((head, sum) :: rest) head amount = (head, sum + amount) :: rest := by
  have h : Term.compare head head = .eq := Term.compare_eq_iff.2 rfl
  simp [add, h]

theorem add_cons_of_gt (h : Term.compare t head = .gt) :
    add ((head, sum) :: rest) t amount = (head, sum) :: add rest t amount := by
  simp [add, h]

/-! ## Terms -/

theorem mem_terms_add : s ∈ (tally.add t amount).terms ↔ s = t ∨ s ∈ tally.terms := by
  induction tally with
  | nil => simp [add]
  | cons entry rest ih =>
      obtain ⟨head, sum⟩ := entry
      cases hcompare : Term.compare t head with
      | lt => rw [add_cons_of_lt hcompare, terms_cons, List.mem_cons]
      | eq =>
          obtain rfl := Term.compare_eq_iff.1 hcompare
          simp [add_cons_self]
      | gt =>
          rw [add_cons_of_gt hcompare, terms_cons, terms_cons, List.mem_cons, List.mem_cons, ih]
          exact or_left_comm

def IsSorted (tally : Tally τ) : Prop :=
  tally.terms.Pairwise fun s t => Term.before s t = true

theorem isSorted_nil : IsSorted ([] : Tally τ) :=
  .nil

theorem isSorted_cons_iff :
    IsSorted ((head, sum) :: rest)
      ↔ (∀ s ∈ rest.terms, Term.before head s = true) ∧ rest.IsSorted :=
  List.pairwise_cons

theorem IsSorted.add (h : tally.IsSorted) : (tally.add t amount).IsSorted := by
  induction tally with
  | nil => exact List.pairwise_singleton _ _
  | cons entry rest ih =>
      obtain ⟨head, sum⟩ := entry
      have hcons := isSorted_cons_iff.1 h
      cases hcompare : Term.compare t head with
      | lt =>
          have hbefore := Term.before_iff.2 hcompare
          rw [add_cons_of_lt hcompare, isSorted_cons_iff]
          refine ⟨?_, h⟩
          intro s hs
          rcases List.mem_cons.1 hs with rfl | hrest
          · exact hbefore
          · exact Term.before_trans hbefore (hcons.1 s hrest)
      | eq =>
          obtain rfl := Term.compare_eq_iff.1 hcompare
          rw [add_cons_self]
          exact isSorted_cons_iff.2 hcons
      | gt =>
          have hbefore := Term.before_iff.2 (Term.compare_eq_gt_iff.1 hcompare)
          rw [add_cons_of_gt hcompare, isSorted_cons_iff]
          refine ⟨?_, ih hcons.2⟩
          intro s hs
          rcases mem_terms_add.1 hs with rfl | hrest
          · exact hbefore
          · exact hcons.1 s hrest

/-! ## Totals -/

/-- The total of a term, zero where the term is not mentioned. -/
def total : Tally τ → τ → Binary64
  | [], _ => .zero
  | (head, sum) :: rest, term =>
      if Term.compare term head = .eq then sum else total rest term

@[simp] theorem total_nil (t : τ) : total [] t = .zero :=
  rfl

@[simp] theorem total_cons_self : total ((head, sum) :: rest) head = sum := by
  have h : Term.compare head head = .eq := Term.compare_eq_iff.2 rfl
  simp [total, h]

theorem total_cons_of_ne (h : t ≠ head) : total ((head, sum) :: rest) t = total rest t := by
  have hcompare : Term.compare t head ≠ .eq := fun heq => h (Term.compare_eq_iff.1 heq)
  simp [total, hcompare]

theorem total_of_not_mem (h : t ∉ tally.terms) : tally.total t = .zero := by
  induction tally with
  | nil => rfl
  | cons entry rest ih =>
      rw [terms_cons, List.mem_cons, not_or] at h
      rw [total_cons_of_ne h.1, ih h.2]

theorem total_add_self (h : tally.IsSorted) :
    (tally.add t amount).total t = tally.total t + amount := by
  induction tally with
  | nil => rw [add, total_cons_self, total_nil]
  | cons entry rest ih =>
      obtain ⟨head, sum⟩ := entry
      have hcons := isSorted_cons_iff.1 h
      cases hcompare : Term.compare t head with
      | lt =>
          -- What comes before the first term is not mentioned later either.
          have hnew : t ∉ terms ((head, sum) :: rest) := by
            intro hmem
            have hbefore := Term.before_iff.2 hcompare
            rcases List.mem_cons.1 hmem with rfl | hrest
            · exact Term.ne_of_before hbefore rfl
            · exact Term.ne_of_before (Term.before_trans hbefore (hcons.1 t hrest)) rfl
          rw [add_cons_of_lt hcompare, total_cons_self, total_of_not_mem hnew]
      | eq =>
          obtain rfl := Term.compare_eq_iff.1 hcompare
          rw [add_cons_self, total_cons_self, total_cons_self]
      | gt =>
          have hne := Term.ne_of_before (Term.before_iff.2 (Term.compare_eq_gt_iff.1 hcompare))
          rw [add_cons_of_gt hcompare, total_cons_of_ne hne.symm, total_cons_of_ne hne.symm,
            ih hcons.2]

theorem total_add_of_ne (h : s ≠ t) : (tally.add t amount).total s = tally.total s := by
  induction tally with
  | nil => rw [add, total_cons_of_ne h]
  | cons entry rest ih =>
      obtain ⟨head, sum⟩ := entry
      cases hcompare : Term.compare t head with
      | lt => rw [add_cons_of_lt hcompare, total_cons_of_ne h]
      | eq =>
          obtain rfl := Term.compare_eq_iff.1 hcompare
          rw [add_cons_self, total_cons_of_ne h, total_cons_of_ne h]
      | gt =>
          rw [add_cons_of_gt hcompare]
          by_cases hs : s = head
          · rw [hs, total_cons_self, total_cons_self]
          · rw [total_cons_of_ne hs, total_cons_of_ne hs, ih]

/-! ## Values -/

def valueAt (p : Point) (tally : Tally τ) : Rat :=
  (tally.map fun (term, total) => total.value * Term.valueAt p term).sum

@[simp] theorem valueAt_nil (p : Point) : valueAt p ([] : Tally τ) = 0 :=
  rfl

@[simp] theorem valueAt_cons (p : Point) :
    valueAt p ((head, sum) :: rest) = sum.value * Term.valueAt p head + valueAt p rest := by
  simp [valueAt]

theorem valueAt_add {p : Point} (h : (tally.total t).AddsExactly amount) :
    (tally.add t amount).valueAt p = tally.valueAt p + amount.value * Term.valueAt p t := by
  induction tally with
  | nil => simp [add]
  | cons entry rest ih =>
      obtain ⟨head, sum⟩ := entry
      cases hcompare : Term.compare t head with
      | lt =>
          rw [add_cons_of_lt hcompare, valueAt_cons, Binary64.value_zero_add]
          ring
      | eq =>
          obtain rfl := Term.compare_eq_iff.1 hcompare
          rw [total_cons_self] at h
          rw [add_cons_self, valueAt_cons, valueAt_cons, h.value_add]
          ring
      | gt =>
          have hne := Term.ne_of_before (Term.before_iff.2 (Term.compare_eq_gt_iff.1 hcompare))
          rw [total_cons_of_ne hne.symm] at h
          rw [add_cons_of_gt hcompare, valueAt_cons, valueAt_cons, ih h]
          ring

end Tally

end SparseProgram
