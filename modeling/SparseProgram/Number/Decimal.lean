import SparseProgram.Number.Binary64

/-!
# Decimal notation

Decimals with a fixed number of places, their positional text, and the binary64 number nearest
to them.
-/

namespace SparseProgram

attribute [local instance] naturalPower

/-- The number `± digits / 10 ^ places`. -/
structure Decimal where
  negative : Bool
  digits : Nat
  places : Nat
  deriving DecidableEq

def wholeDigits (n : Nat) : List Char :=
  Nat.toDigits 10 n

/-- The last `width` decimal digits of `n`, leading zeros included. -/
def lastDigits : Nat → Nat → List Char
  | 0, _ => []
  | width + 1, n => lastDigits width (n / 10) ++ [Nat.digitChar (n % 10)]

@[simp] theorem length_lastDigits (width n : Nat) : (lastDigits width n).length = width := by
  induction width generalizing n with
  | zero => rfl
  | succ width ih => simp [lastDigits, ih]

def digitsValue (cs : List Char) : Nat :=
  Nat.ofDigitChars 10 cs 0

theorem digitsValue_wholeDigits (n : Nat) : digitsValue (wholeDigits n) = n :=
  Nat.ofDigitChars_toDigits (by decide) (by decide)

theorem isDigit_of_mem_wholeDigits {n : Nat} {c : Char} (h : c ∈ wholeDigits n) :
    c.isDigit = true :=
  Nat.isDigit_of_mem_toDigits (by decide) (by decide) h

theorem isDigit_digitChar_mod (n : Nat) : (Nat.digitChar (n % 10)).isDigit = true := by
  have h : n % 10 < 10 := Nat.mod_lt _ (by decide)
  revert h
  generalize n % 10 = k
  intro h
  match k, h with
  | 0, _ | 1, _ | 2, _ | 3, _ | 4, _ | 5, _ | 6, _ | 7, _ | 8, _ | 9, _ => decide

theorem isDigit_of_mem_lastDigits {width n : Nat} {c : Char} (h : c ∈ lastDigits width n) :
    c.isDigit = true := by
  induction width generalizing n with
  | zero => cases h
  | succ width ih =>
      rcases List.mem_append.1 h with h | h
      · exact ih h
      · rw [List.mem_singleton.1 h]
        exact isDigit_digitChar_mod n

theorem digitChar_value (n : Nat) : (Nat.digitChar (n % 10)).toNat - '0'.toNat = n % 10 := by
  have h : n % 10 < 10 := Nat.mod_lt _ (by decide)
  revert h
  generalize n % 10 = k
  intro h
  match k, h with
  | 0, _ | 1, _ | 2, _ | 3, _ | 4, _ | 5, _ | 6, _ | 7, _ | 8, _ | 9, _ => decide

theorem ofDigitChars_lastDigits (width n init : Nat) :
    Nat.ofDigitChars 10 (lastDigits width n) init = init * 10 ^ width + n % 10 ^ width := by
  induction width generalizing n with
  | zero => simp [lastDigits, Nat.ofDigitChars, Nat.mod_one]
  | succ width ih =>
      rw [lastDigits, Nat.ofDigitChars_append, ih]
      simp only [Nat.ofDigitChars, List.foldl_cons, List.foldl_nil, digitChar_value]
      rw [Nat.pow_succ, Nat.mul_comm (10 ^ width) 10, Nat.mod_mul]
      rw [← Nat.mul_assoc, Nat.mul_add, Nat.mul_comm init 10, Nat.mul_assoc]
      omega

namespace Decimal

/-- The nearest number; the sign stays on a zero. -/
def toBinary64 (d : Decimal) : Binary64 :=
  Binary64.ofRatio d.negative d.digits (10 ^ d.places)

theorem toBinary64_succ_places (negative : Bool) (digits places : Nat) :
    toBinary64 ⟨negative, digits * 10, places + 1⟩ = toBinary64 ⟨negative, digits, places⟩ := by
  apply Binary64.ofUnits_congr
  rw [Nat.mul_right_comm, Nat.pow_succ]
  exact roundRatio_mul_right _ _ (by decide)

/-- The number nearest to `digits * 10 ^ power`. Powers far beyond the range of finite numbers
are decided by the size of the digits alone. -/
def ofPower (negative : Bool) (digits : Nat) (power : Int) : Binary64 :=
  if digits = 0 then toBinary64 ⟨negative, 0, 0⟩
  else if 400 < power then .infinite negative
  else if power < -(400 + (digits.log2 : Int)) then toBinary64 ⟨negative, 0, 0⟩
  else toBinary64 ⟨negative, digits * 10 ^ power.toNat, (-power).toNat⟩

/-- Drops the zeros at the end of some places. -/
def dropZeros (negative : Bool) : Nat → Nat → Decimal
  | digits, 0 => ⟨negative, digits, 0⟩
  | digits, places + 1 =>
      if digits % 10 = 0 then dropZeros negative (digits / 10) places
      else ⟨negative, digits, places + 1⟩

def digitLimit : Nat :=
  768

/-- The first digits of a number that has more than are looked at, with a one for the others. -/
def ofManyDigits (d : Decimal) (exponent : Int) : Binary64 :=
  let surplus := (wholeDigits d.digits).length - digitLimit
  if surplus = 0 then ofPower d.negative d.digits (exponent - d.places)
  else
    ofPower d.negative (d.digits / 10 ^ surplus * 10 + 1) (exponent - d.places + surplus - 1)

/-- The number nearest to `d * 10 ^ exponent`. No number that is halfway between two others has
more digits than are looked at, so the one that stands for further digits decides only where these
are zeros before the point: a number halfway is then taken to lie above. -/
def scaled (d : Decimal) (exponent : Int) : Binary64 :=
  if d.digits < 10 ^ digitLimit then ofPower d.negative d.digits (exponent - d.places)
  else ofManyDigits (dropZeros d.negative d.digits d.places) exponent

/-- Digits after the point, with the point, if there are any places. -/
def fraction (d : Decimal) : List Char :=
  if d.places = 0 then [] else '.' :: lastDigits d.places d.digits

/-- Sign and all digits; never an exponent. -/
def text (d : Decimal) : List Char :=
  (if d.negative then ['-'] else []) ++ wholeDigits (d.digits / 10 ^ d.places) ++ d.fraction

theorem digitsValue_text (d : Decimal) :
    digitsValue (wholeDigits (d.digits / 10 ^ d.places) ++ lastDigits d.places d.digits)
      = d.digits := by
  have hwhole := digitsValue_wholeDigits (d.digits / 10 ^ d.places)
  rw [digitsValue] at hwhole ⊢
  rw [Nat.ofDigitChars_append, hwhole, ofDigitChars_lastDigits]
  exact Nat.div_add_mod' _ _

end Decimal

end SparseProgram
