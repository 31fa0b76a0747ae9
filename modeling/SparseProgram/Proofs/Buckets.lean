import Mathlib.Algebra.BigOperators.Group.List.Basic

/-!
# Buckets

A list split by a numeric key into one bucket for each key. The buckets together hold every member
once, and laid one behind the other they are the stable sort of the list by its key.
-/

namespace SparseProgram

variable {α : Type} {key : α → Nat}

def OrderedBy (key : α → Nat) (l : List α) : Prop :=
  l.Pairwise fun a b => key a ≤ key b

/-- Stable sorting by a key. -/
def sortBy (key : α → Nat) (l : List α) : List α :=
  l.mergeSort fun a b => decide (key a ≤ key b)

/-- The buckets of the keys below `count`, laid one behind the other. -/
def bucketsBelow (key : α → Nat) (count : Nat) (l : List α) : List α :=
  (List.range count).flatMap fun k => l.filter (key · == k)

theorem key_of_mem_bucket {a : α} {l : List α} {k : Nat} (h : a ∈ l.filter (key · == k)) :
    key a = k :=
  eq_of_beq (List.mem_filter.1 h).2

theorem bucketsBelow_succ (count : Nat) (l : List α) :
    bucketsBelow key (count + 1) l = bucketsBelow key count l ++ l.filter (key · == count) := by
  simp [bucketsBelow, List.range_succ]

theorem filter_bucketsBelow (p : α → Bool) (count : Nat) (l : List α) :
    (bucketsBelow key count l).filter p = bucketsBelow key count (l.filter p) := by
  induction count with
  | zero => rfl
  | succ count ih =>
      rw [bucketsBelow_succ, bucketsBelow_succ, List.filter_append, ih, List.filter_filter,
        List.filter_filter]
      simp only [Bool.and_comm]

theorem bucketsBelow_filter_lt (count : Nat) (l : List α) :
    bucketsBelow key count (l.filter fun a => decide (key a < count))
      = bucketsBelow key count l := by
  unfold bucketsBelow
  apply List.flatMap_congr
  intro k hk
  have hlt : k < count := List.mem_range.1 hk
  rw [List.filter_filter]
  apply List.filter_congr
  intro a _
  by_cases h : key a = k
  · simp [h, hlt]
  · simp [h]

theorem filter_lt_append_filter_eq {count : Nat} {l : List α} (h : OrderedBy key l)
    (hlt : ∀ a ∈ l, key a < count + 1) :
    (l.filter fun a => decide (key a < count)) ++ l.filter (key · == count) = l := by
  induction l with
  | nil => rfl
  | cons a rest ih =>
      obtain ⟨hhead, htail⟩ := List.pairwise_cons.1 h
      have hrest := ih htail fun b hb => hlt b (List.mem_cons_of_mem a hb)
      by_cases ha : key a < count
      · have hne : key a ≠ count := Nat.ne_of_lt ha
        simp [ha, hne, hrest]
      · have heq : key a = count := by
          have := hlt a List.mem_cons_self
          omega
        have hnone : (rest.filter fun b => decide (key b < count)) = [] := by
          apply List.filter_eq_nil_iff.2
          intro b hb
          have := hhead b hb
          simp only [decide_eq_true_eq]
          omega
        rw [hnone, List.nil_append] at hrest
        simp [heq, hnone, hrest]

theorem bucketsBelow_of_orderedBy {count : Nat} {l : List α} (h : OrderedBy key l)
    (hlt : ∀ a ∈ l, key a < count) : bucketsBelow key count l = l := by
  -- The last bucket is split off, and the members before it are in order among themselves.
  induction count generalizing l with
  | zero =>
      have hnil : l = [] := List.eq_nil_iff_forall_not_mem.2 fun a ha => by
        exact absurd (hlt a ha) (Nat.not_lt_zero _)
      rw [hnil]
      rfl
  | succ count ih =>
      have hsmall := ih (h.filter fun a => decide (key a < count)) fun a ha => by
        simpa using (List.mem_filter.1 ha).2
      rw [bucketsBelow_succ, ← bucketsBelow_filter_lt, hsmall]
      exact filter_lt_append_filter_eq h hlt

theorem filter_key_of_nodup {l : List α} (h : (l.map key).Nodup)
    (k : Nat) : l.filter (key · == k) = [] ∨ ∃ a, l.filter (key · == k) = [a] := by
  have hnodup : ((l.filter (key · == k)).map key).Nodup :=
    h.sublist (List.filter_sublist.map key)
  cases hbucket : l.filter (key · == k) with
  | nil => exact .inl rfl
  | cons a rest =>
      have hkey : ∀ b ∈ l.filter (key · == k), key b = k := fun b hb => key_of_mem_bucket hb
      rw [hbucket] at hnodup hkey
      cases rest with
      | nil => exact .inr ⟨a, rfl⟩
      | cons b rest =>
          have hab : key a = key b := by
            rw [hkey a List.mem_cons_self, hkey b (by simp)]
          simp [hab] at hnodup

/-! ## Stable sorting -/

private theorem keyOrder_trans (a b c : α) (hab : decide (key a ≤ key b) = true)
    (hbc : decide (key b ≤ key c) = true) : decide (key a ≤ key c) = true := by
  simp only [decide_eq_true_eq] at *
  omega

private theorem keyOrder_total (a b : α) :
    (decide (key a ≤ key b) || decide (key b ≤ key a)) = true := by
  simp only [Bool.or_eq_true, decide_eq_true_eq]
  omega

theorem orderedBy_sortBy (l : List α) : OrderedBy key (sortBy key l) := by
  have hsorted : (sortBy key l).Pairwise fun a b => decide (key a ≤ key b) = true :=
    List.pairwise_mergeSort keyOrder_trans keyOrder_total l
  exact hsorted.imp fun h => of_decide_eq_true h

theorem mem_sortBy {a : α} {l : List α} : a ∈ sortBy key l ↔ a ∈ l :=
  List.mem_mergeSort

theorem sortBy_perm (l : List α) : (sortBy key l).Perm l :=
  List.mergeSort_perm l _

theorem sortBy_of_orderedBy {l : List α} (h : OrderedBy key l) : sortBy key l = l :=
  List.mergeSort_of_pairwise (h.imp fun hab => decide_eq_true hab)

/-- Sorting is stable: it leaves every bucket as it is. -/
theorem filter_sortBy (l : List α) (k : Nat) :
    (sortBy key l).filter (key · == k) = l.filter (key · == k) := by
  have hequal : (l.filter (key · == k)).Pairwise fun a b => decide (key a ≤ key b) = true := by
    rw [List.pairwise_filter]
    apply List.pairwise_of_forall
    intro a b ha hb
    simp only [beq_iff_eq] at ha hb
    simp [ha, hb]
  have hsub : (l.filter (key · == k)).Sublist (sortBy key l) :=
    List.sublist_mergeSort keyOrder_trans keyOrder_total hequal List.filter_sublist
  have hfilter : (l.filter (key · == k)).Sublist ((sortBy key l).filter (key · == k)) := by
    simpa using hsub.filter (key · == k)
  -- A sublist of the same length is the whole list.
  refine (hfilter.eq_of_length ?_).symm
  exact ((sortBy_perm l).filter _).length_eq.symm

/-- The stable sort lays the buckets one behind the other. -/
theorem bucketsBelow_eq_sortBy {count : Nat} {l : List α} (hlt : ∀ a ∈ l, key a < count) :
    bucketsBelow key count l = sortBy key l := by
  have hsorted : bucketsBelow key count (sortBy key l) = sortBy key l :=
    bucketsBelow_of_orderedBy (orderedBy_sortBy l) fun a ha => hlt a (mem_sortBy.1 ha)
  rw [← hsorted]
  unfold bucketsBelow
  apply List.flatMap_congr
  intro k _
  exact (filter_sortBy l k).symm

theorem filter_sortBy_comm (p : α → Bool) {count : Nat} {l : List α}
    (hlt : ∀ a ∈ l, key a < count) : (sortBy key l).filter p = sortBy key (l.filter p) := by
  have hfiltered : ∀ a ∈ l.filter p, key a < count := fun a ha => hlt a (List.mem_filter.1 ha).1
  rw [← bucketsBelow_eq_sortBy hlt, filter_bucketsBelow, bucketsBelow_eq_sortBy hfiltered]

theorem sortBy_map {β : Type} (f : β → α) (l : List β) :
    sortBy key (l.map f) = (sortBy (fun b => key (f b)) l).map f := by
  unfold sortBy
  refine (List.map_mergeSort ?_).symm
  intro a _ b _
  rfl

/-! ## Sums -/

theorem sum_buckets {M : Type} [AddCommMonoid M] (f : α → M) {count : Nat} {l : List α}
    (hlt : ∀ a ∈ l, key a < count) :
    ((List.range count).map fun k => ((l.filter (key · == k)).map f).sum).sum = (l.map f).sum := by
  have hperm : (bucketsBelow key count l).Perm l := by
    rw [bucketsBelow_eq_sortBy hlt]
    exact sortBy_perm l
  calc
    ((List.range count).map fun k => ((l.filter (key · == k)).map f).sum).sum
        = ((bucketsBelow key count l).map f).sum := by
      unfold bucketsBelow
      rw [List.map_flatMap, List.flatMap_def, List.sum_flatten, List.map_map]
      rfl
    _ = (l.map f).sum := (hperm.map f).sum_eq

end SparseProgram
