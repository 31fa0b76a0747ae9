import Mathlib.Data.List.Basic
import SparseProgram.Json.Parser
import SparseProgram.Json.Printer
import SparseProgram.Proofs.Number.Text

/-!
# Reading printed numbers

A number reads back with its sign, and is told from an integer by its point. The text must end
there, as it does before a comma or a closing bracket.
-/

namespace SparseProgram

attribute [local instance] naturalPower

namespace Json

/-- What may stand behind a value. -/
def Closes (rest : List Char) : Prop :=
  ∀ c ∈ rest.head?, c = ',' ∨ c = ']' ∨ c = '\x7d'

variable {rest digits : List Char}

theorem Closes.head_ne (h : Closes rest) {c : Char} (hc : c ≠ ',' ∧ c ≠ ']' ∧ c ≠ '\x7d') :
    rest.head? ≠ some c := by
  intro hhead
  have hclose := h c hhead
  simp_all

theorem Closes.isDigit_head (h : Closes rest) : ∀ c ∈ rest.head?, c.isDigit = false := by
  intro c hc
  obtain rfl | rfl | rfl := h c hc <;> decide

theorem readDigits_append (hne : digits ≠ []) (hdigits : ∀ c ∈ digits, c.isDigit = true)
    (hrest : ∀ c ∈ rest.head?, c.isDigit = false) :
    readDigits (digits ++ rest) = some (digits, rest) := by
  have hsplit : rest.takeWhile Char.isDigit = [] ∧ rest.dropWhile Char.isDigit = rest := by
    cases rest with
    | nil => exact ⟨rfl, rfl⟩
    | cons c rest => simp [hrest c rfl]
  rw [readDigits, List.takeWhile_append_of_pos hdigits, List.dropWhile_append_of_pos hdigits,
    hsplit.1, hsplit.2, List.append_nil]
  simp [hne]

theorem head?_wholeDigits {n : Nat} (h : n ≠ 0) : (wholeDigits n).head? ≠ some '0' := by
  induction n using Nat.strongRecOn with
  | _ n ih =>
    rw [wholeDigits]
    by_cases hsmall : n < 10
    · rw [Nat.toDigits_of_lt_base hsmall]
      simpa [Nat.digitChar_eq_zero] using h
    · rw [Nat.toDigits_of_base_le (by decide) (Nat.le_of_not_lt hsmall),
        List.head?_append_of_ne_nil _ Nat.toDigits_ne_nil]
      exact ih (n / 10) (by omega) (by omega)

/-- Whole digits are read up to the first other character. -/
theorem readWhole_wholeDigits (n : Nat) (hrest : ∀ c ∈ rest.head?, c.isDigit = false) :
    readWhole (wholeDigits n ++ rest) = some (wholeDigits n, rest) := by
  have hplain : ¬((wholeDigits n).head? = some '0' ∧ (wholeDigits n).length ≠ 1) := by
    by_cases h : n = 0
    · subst h
      decide
    · exact fun hzero => head?_wholeDigits h hzero.1
  have hne : wholeDigits n ≠ [] := Nat.toDigits_ne_nil
  rw [readWhole, readDigits_append hne (fun c => isDigit_of_mem_wholeDigits) hrest]
  simp [bind, Option.bind, hplain]

theorem readSign_append (negative : Bool) (hdigits : digits.head? ≠ some '-') :
    readSign ((if negative then ['-'] else []) ++ digits) = some (negative, digits) := by
  cases negative with
  | true => rfl
  | false =>
      cases digits with
      | nil => rfl
      | cons c digits =>
          have hc : c ≠ '-' := by simpa using hdigits
          simp [readSign, hc]

theorem readExponent_of_closes (h : Closes rest) : readExponent rest = some (none, rest) := by
  cases rest with
  | nil => rfl
  | cons c rest =>
      have hlower : c ≠ 'e' := by simpa using h.head_ne (c := 'e') (by decide)
      have hupper : c ≠ 'E' := by simpa using h.head_ne (c := 'E') (by decide)
      simp [readExponent, hlower, hupper]

theorem readFraction_of_closes (h : Closes rest) : readFraction rest = some (none, rest) := by
  cases rest with
  | nil => rfl
  | cons c rest =>
      have hpoint : c ≠ '.' := by simpa using h.head_ne (c := '.') (by decide)
      simp [readFraction, hpoint]

theorem head?_wholeDigits_append (n : Nat) (rest : List Char) :
    ∃ c digits, wholeDigits n ++ rest = c :: digits ∧ c.isDigit = true := by
  cases h : wholeDigits n with
  | nil => exact absurd h Nat.toDigits_ne_nil
  | cons c digits =>
      exact ⟨c, digits ++ rest, rfl, isDigit_of_mem_wholeDigits (n := n) (by simp [h])⟩

theorem head?_wholeDigits_append_ne (n : Nat) (rest : List Char) :
    (wholeDigits n ++ rest).head? ≠ some '-' := by
  obtain ⟨c, digits, happend, hdigit⟩ := head?_wholeDigits_append n rest
  rw [happend]
  rintro ⟨⟩
  cases hdigit

theorem readNumber_decimal (d : Decimal) (hplaces : 0 < d.places) (hrest : Closes rest) :
    readNumber (d.text ++ rest) = some (real d.toBinary64, rest) := by
  have hplaces' : d.places ≠ 0 := by omega
  have htext : d.text ++ rest = (if d.negative then ['-'] else [])
      ++ (wholeDigits (d.digits / 10 ^ d.places)
        ++ '.' :: (lastDigits d.places d.digits ++ rest)) := by
    simp [Decimal.text, Decimal.fraction, hplaces']
  have hsign := readSign_append d.negative
    (head?_wholeDigits_append_ne (d.digits / 10 ^ d.places)
      ('.' :: (lastDigits d.places d.digits ++ rest)))
  have hwhole : readWhole (wholeDigits (d.digits / 10 ^ d.places)
      ++ '.' :: (lastDigits d.places d.digits ++ rest)) = some _ :=
    readWhole_wholeDigits _ (by simp)
  have hne : lastDigits d.places d.digits ≠ [] := by
    rw [← List.length_pos_iff, length_lastDigits]
    exact hplaces
  have hfraction := readDigits_append hne (fun c => isDigit_of_mem_lastDigits) hrest.isDigit_head
  have hvalue : (⟨d.negative, digitsValue (wholeDigits (d.digits / 10 ^ d.places)
      ++ lastDigits d.places d.digits), (lastDigits d.places d.digits).length⟩ : Decimal) = d := by
    rw [d.digitsValue_text, length_lastDigits]
  rw [htext, readNumber, hsign]
  simp only [bind, Option.bind, hwhole, readFraction, hfraction, Option.map_some,
    readExponent_of_closes hrest, numberValue, Option.getD_some, hvalue]
  rfl

theorem readNumber_printInt (n : Int) (hrest : Closes rest) :
    readNumber (printInt n ++ rest) = some (int n, rest) := by
  have hsign := readSign_append (decide (n < 0)) (head?_wholeDigits_append_ne n.natAbs rest)
  have hwhole := readWhole_wholeDigits n.natAbs hrest.isDigit_head
  have hvalue : numberValue (decide (n < 0)) (wholeDigits n.natAbs) none none = int n := by
    rw [numberValue, digitsValue_wholeDigits]
    by_cases hnegative : n < 0
    · have hne : n ≠ 0 := by omega
      have habs : -(n.natAbs : Int) = n := by omega
      simp only [hnegative, decide_true, Bool.true_and, if_true, habs]
      simp [hne]
    · have habs : (n.natAbs : Int) = n := by omega
      simp [hnegative, habs]
  have htext : printInt n ++ rest
      = (if decide (n < 0) = true then ['-'] else []) ++ (wholeDigits n.natAbs ++ rest) := by
    simp [printInt]
  rw [htext, readNumber, hsign]
  simp only [bind, Option.bind, hwhole, readFraction_of_closes hrest,
    readExponent_of_closes hrest, hvalue]
  rfl

theorem readExponent_digits (hne : digits ≠ []) (hdigits : ∀ c ∈ digits, c.isDigit = true)
    (hrest : ∀ c ∈ rest.head?, c.isDigit = false) :
    readExponent ('e' :: (digits ++ rest)) = some (some (digitsValue digits : Int), rest) := by
  have hsign : readExponentSign (digits ++ rest) = some (false, digits ++ rest) := by
    cases digits with
    | nil => exact absurd rfl hne
    | cons c digits =>
        have hdigit : c.isDigit = true := hdigits c List.mem_cons_self
        have hminus : c ≠ '-' := by rintro rfl; cases hdigit
        have hplus : c ≠ '+' := by rintro rfl; cases hdigit
        simp [readExponentSign, hminus, hplus]
  simp [readExponent, hsign, readDigits_append hne hdigits hrest]

theorem numberValue_beyond (negative : Bool) :
    numberValue negative ['1'] none (some (digitsValue ['9', '9', '9'] : Int))
      = real (.infinite negative) := by
  have hlimit : (1 : Nat) < 10 ^ Decimal.digitLimit := Nat.one_lt_pow (by decide) (by decide)
  show real (Decimal.scaled ⟨negative, 1, 0⟩ 999) = _
  rw [Decimal.scaled, if_pos hlimit]
  rfl

theorem readNumber_printReal {x : Binary64} (hx : x ≠ .nan) (hrest : Closes rest) :
    readNumber (printReal x ++ rest) = some (real x, rest) := by
  match x with
  | .nan => exact absurd rfl hx
  | .infinite negative =>
      have hsign : readSign ((if negative then ['-'] else [])
          ++ '1' :: 'e' :: (['9', '9', '9'] ++ rest)) = some (negative, _) :=
        readSign_append negative (by simp)
      have hwhole : readWhole ('1' :: 'e' :: (['9', '9', '9'] ++ rest))
          = some (['1'], 'e' :: (['9', '9', '9'] ++ rest)) := rfl
      have hfraction : readFraction ('e' :: (['9', '9', '9'] ++ rest))
          = some (none, 'e' :: (['9', '9', '9'] ++ rest)) := rfl
      have hnines : ∀ c ∈ ['9', '9', '9'], c.isDigit = true := by
        intro c hc
        obtain rfl : c = '9' := by simpa using hc
        rfl
      have hexponent := readExponent_digits (by simp) hnines hrest.isDigit_head
      have htext : printReal (.infinite negative) ++ rest
          = (if negative then ['-'] else []) ++ '1' :: 'e' :: (['9', '9', '9'] ++ rest) := by
        simp [printReal]
      rw [htext, readNumber, hsign]
      simp only [bind, Option.bind, hwhole, hfraction, hexponent, numberValue_beyond]
      rfl
  | .finite negative m =>
      rw [printReal, readNumber_decimal _ (withPoint_places_pos _) hrest, toBinary64_withPoint,
        Binary64.toBinary64_shortest]

end Json

end SparseProgram
