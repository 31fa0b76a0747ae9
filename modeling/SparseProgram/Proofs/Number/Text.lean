import SparseProgram.Number.Shortest

/-!
# Text of numbers

Decimal text can be read back: sign, whole digits and places stand apart in it. So different
numbers have different texts. No text has a blank in it, and none is a sign alone.
-/

namespace SparseProgram

attribute [local instance] naturalPower

namespace Decimal

variable {d e : Decimal}

def unsignedText (d : Decimal) : List Char :=
  wholeDigits (d.digits / 10 ^ d.places) ++ d.fraction

theorem text_eq (d : Decimal) :
    d.text = (if d.negative then ['-'] else []) ++ d.unsignedText := by
  simp only [text, unsignedText, List.append_assoc]

theorem eq_point_or_isDigit_of_mem {c : Char} (h : c ∈ d.unsignedText) :
    c = '.' ∨ c.isDigit = true := by
  rw [unsignedText, List.mem_append] at h
  rcases h with hwhole | hfraction
  · exact .inr (isDigit_of_mem_wholeDigits hwhole)
  · rw [fraction] at hfraction
    split at hfraction
    · cases hfraction
    · rcases List.mem_cons.1 hfraction with rfl | hlast
      · exact .inl rfl
      · exact .inr (isDigit_of_mem_lastDigits hlast)

theorem any_isDigit_text (d : Decimal) : d.text.any Char.isDigit = true := by
  obtain ⟨c, hc⟩ := List.exists_mem_of_ne_nil (wholeDigits (d.digits / 10 ^ d.places))
    Nat.toDigits_ne_nil
  refine List.any_eq_true.2 ⟨c, ?_, isDigit_of_mem_wholeDigits hc⟩
  rw [text_eq, unsignedText]
  exact List.mem_append_right _ (List.mem_append_left _ hc)

theorem ne_break_of_mem_text {c : Char} (h : c ∈ d.text) : c ≠ ' ' ∧ c ≠ '\n' := by
  rw [text_eq, List.mem_append] at h
  rcases h with hsign | hunsigned
  · split at hsign
    · rw [List.mem_singleton.1 hsign]
      decide
    · cases hsign
  · rcases eq_point_or_isDigit_of_mem hunsigned with rfl | hdigit
    · decide
    · constructor <;> rintro rfl <;> exact absurd hdigit (by decide)

/-! ## Reading back -/

theorem minus_mem_text_iff : '-' ∈ d.text ↔ d.negative = true := by
  have hnone : '-' ∉ d.unsignedText := by
    intro h
    rcases eq_point_or_isDigit_of_mem h with hpoint | hdigit
    · exact absurd hpoint (by decide)
    · exact absurd hdigit (by decide)
  rw [text_eq, List.mem_append]
  cases d.negative <;> simp [hnone]

/-- The whole digits end where the first other character stands. -/
theorem split_unsignedText (d : Decimal) :
    d.unsignedText.takeWhile Char.isDigit = wholeDigits (d.digits / 10 ^ d.places)
      ∧ d.unsignedText.dropWhile Char.isDigit = d.fraction := by
  have hdigits : ∀ c ∈ wholeDigits (d.digits / 10 ^ d.places), c.isDigit = true :=
    fun c hc => isDigit_of_mem_wholeDigits hc
  have hpoint : ('.' : Char).isDigit = false := by decide
  rw [unsignedText, List.takeWhile_append_of_pos hdigits, List.dropWhile_append_of_pos hdigits,
    fraction]
  split <;> simp [hpoint]

theorem places_of_fraction (h : d.fraction = e.fraction) :
    d.places = e.places ∧ lastDigits d.places d.digits = lastDigits e.places e.digits := by
  unfold fraction at h
  split at h
  · rename_i hd
    split at h
    · rename_i he
      rw [hd, he]
      exact ⟨rfl, rfl⟩
    · cases h
  · split at h
    · cases h
    · have hlast := (List.cons.inj h).2
      have hlength := congrArg List.length hlast
      rw [length_lastDigits, length_lastDigits] at hlength
      exact ⟨hlength, hlast⟩

theorem text_inj (h : d.text = e.text) : d = e := by
  have hnegative : d.negative = e.negative := by
    rw [Bool.eq_iff_iff, ← minus_mem_text_iff, ← minus_mem_text_iff, h]
  have hunsigned : d.unsignedText = e.unsignedText := by
    rw [text_eq, text_eq, hnegative] at h
    exact List.append_cancel_left h
  obtain ⟨hdwhole, hdfraction⟩ := d.split_unsignedText
  obtain ⟨hewhole, hefraction⟩ := e.split_unsignedText
  rw [hunsigned, hewhole] at hdwhole
  rw [hunsigned, hefraction] at hdfraction
  obtain ⟨hplaces, hlast⟩ := places_of_fraction hdfraction.symm
  have hdigits : d.digits = e.digits := by
    rw [← d.digitsValue_text, ← e.digitsValue_text, hdwhole, hlast]
  cases d
  cases e
  simp_all

end Decimal

namespace Binary64

variable {x y : Binary64}

theorem toList_text_finite (negative : Bool) (m : Magnitude) :
    (finite negative m).text.toList = (shortest negative m).text :=
  String.toList_ofList

theorem any_isDigit_text (x : Binary64) : x.text.toList.any Char.isDigit = x.isFinite := by
  match x with
  | nan => decide
  | infinite negative => cases negative <;> decide
  | finite negative m =>
      rw [toList_text_finite]
      exact (shortest negative m).any_isDigit_text

/-- Different numbers have different texts, and the two zeros too. -/
theorem text_inj (h : x.text = y.text) : x = y := by
  have hfinite : x.isFinite = y.isFinite := by
    rw [← any_isDigit_text, ← any_isDigit_text, h]
  match x, y with
  | nan, nan => rfl
  | nan, infinite negative => cases negative <;> revert h <;> decide
  | infinite negative, nan => cases negative <;> revert h <;> decide
  | infinite a, infinite b => cases a <;> cases b <;> revert h <;> decide
  | finite a m, finite b n =>
      have hdecimal : shortest a m = shortest b n := by
        apply Decimal.text_inj
        rw [← toList_text_finite, ← toList_text_finite, h]
      rw [← toBinary64_shortest a m, ← toBinary64_shortest b n, hdecimal]

theorem text_ne_sign (x : Binary64) : x.text ≠ "+" ∧ x.text ≠ "-" := by
  match x with
  | nan => decide
  | infinite negative => cases negative <;> decide
  | finite negative m =>
      have hdigit : (finite negative m).text.toList.any Char.isDigit = true := any_isDigit_text _
      constructor
      · intro hsign
        rw [hsign] at hdigit
        exact absurd hdigit (by decide)
      · intro hsign
        rw [hsign] at hdigit
        exact absurd hdigit (by decide)

end Binary64

end SparseProgram
