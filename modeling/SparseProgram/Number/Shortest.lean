import SparseProgram.Number.Decimal

/-!
# Shortest decimals

The decimal with the fewest digits that reads back to a given number: powers of ten are tried
from the coarsest down, and on each the two neighbours of the number. The nearer one that reads
back wins, the upper one on a tie. The result reads back whatever the search does
(`toBinary64_shortest`).
-/

namespace SparseProgram

attribute [local instance] naturalPower

/-- Digits and places of a decimal whose sign is not settled. -/
structure Candidate where
  digits : Nat
  places : Nat
  deriving DecidableEq

namespace Candidate

def signed (c : Candidate) (negative : Bool) : Decimal :=
  ⟨negative, c.digits, c.places⟩

def readsBack (c : Candidate) (m : Magnitude) : Bool :=
  roundRatio (c.digits * Binary64.unitsPerOne) (10 ^ c.places) == some m

theorem toBinary64_of_readsBack {c : Candidate} {m : Magnitude} (h : c.readsBack m = true)
    (negative : Bool) : (c.signed negative).toBinary64 = .finite negative m :=
  Binary64.ofUnits_eq_finite (eq_of_beq h)

end Candidate

/-- The neighbour of `m` among the multiples of `10 ^ exponent` that reads back, the nearer one
if both do. -/
def neighbourOnGrid (m : Magnitude) (exponent : Int) : Option Candidate :=
  let step := 10 ^ exponent.toNat
  let places := (-exponent).toNat
  let num := m.val * 10 ^ places
  let den := Binary64.unitsPerOne * step
  let lower : Candidate := ⟨num / den * step, places⟩
  let upper : Candidate := ⟨(num / den + 1) * step, places⟩
  let nearerFirst := if 2 * (num % den) < den then [lower, upper] else [upper, lower]
  nearerFirst.find? (·.readsBack m)

def exactCandidate (m : Magnitude) : Candidate :=
  ⟨m.val * 5 ^ Binary64.unitExponent, Binary64.unitExponent⟩

/-- A power of ten above a magnitude other than zero, and not far above: its exponent exceeds that
of the first digit by one to three. -/
def powerAbove (m : Magnitude) : Int :=
  ((m.val.log2 : Int) - Binary64.unitExponent) * 30103 / 100000 + 2

/-- The grids that can hold the shortest decimal, the coarsest first. Seventeen digits always
suffice. -/
def gridExponents (m : Magnitude) : List Int :=
  let start := powerAbove m
  (List.range 21).map fun (k : Nat) => start - (k : Int)

def shortestCandidate (m : Magnitude) : Candidate :=
  if m.val = 0 then ⟨0, 0⟩
  else ((gridExponents m).findSome? (neighbourOnGrid m)).getD (exactCandidate m)

theorem readsBack_of_neighbourOnGrid {m : Magnitude} {exponent : Int} {c : Candidate}
    (h : neighbourOnGrid m exponent = some c) : c.readsBack m = true := by
  have hfound := List.find?_some h
  exact hfound

theorem readsBack_exactCandidate (m : Magnitude) : (exactCandidate m).readsBack m = true := by
  have hten : (10 : Nat) ^ Binary64.unitExponent
      = Binary64.unitsPerOne * 5 ^ Binary64.unitExponent := by
    rw [Binary64.unitsPerOne_eq, ← Nat.mul_pow]
  have hfive : 0 < 5 ^ Binary64.unitExponent := Nat.pow_pos (by decide)
  have hround := roundRatio_mul m Binary64.unitsPerOne_pos
  rw [← roundRatio_mul_right _ _ hfive, ← hten, Nat.mul_right_comm] at hround
  exact beq_of_eq hround

theorem readsBack_shortestCandidate (m : Magnitude) :
    (shortestCandidate m).readsBack m = true := by
  unfold shortestCandidate
  split
  · next hzero =>
    obtain ⟨n, hn⟩ := m
    subst hzero
    have hround := roundRatio_mul ⟨0, hn⟩ (by decide : 0 < 10 ^ 0)
    refine beq_of_eq (Eq.trans ?_ hround)
    simp only [Nat.zero_mul]
  · cases hfound : (gridExponents m).findSome? (neighbourOnGrid m) with
    | none => exact readsBack_exactCandidate m
    | some c =>
        obtain ⟨exponent, _, hexp⟩ := List.exists_of_findSome?_eq_some hfound
        exact readsBack_of_neighbourOnGrid hexp

namespace Binary64

def shortest (negative : Bool) (m : Magnitude) : Decimal :=
  (shortestCandidate m).signed negative

theorem toBinary64_shortest (negative : Bool) (m : Magnitude) :
    (shortest negative m).toBinary64 = finite negative m :=
  Candidate.toBinary64_of_readsBack (readsBack_shortestCandidate m) negative

def text : Binary64 → String
  | nan => "NaN"
  | infinite negative => if negative then "-inf" else "inf"
  | finite negative m => String.ofList (shortest negative m).text

end Binary64

end SparseProgram
