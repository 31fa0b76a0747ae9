import SparseProgram.Number.Rounding

/-!
# Binary64 numbers

Double precision as a data type: one NaN, two infinities and signed magnitudes. Equality of the
type tells the two zeros apart and holds of NaN; the comparisons `sameNumber`, `lessThan` and
`atMost` are those of arithmetic, false wherever NaN takes part.
-/

namespace SparseProgram

attribute [local instance] naturalPower

inductive Binary64 where
  | nan
  | infinite (negative : Bool)
  | finite (negative : Bool) (magnitude : Magnitude)
  deriving DecidableEq

namespace Binary64

def zero : Binary64 :=
  finite false ⟨0, representable_zero⟩

instance : Inhabited Binary64 := ⟨zero⟩

/-- A unit is one halved this often. -/
def unitExponent : Nat :=
  1074

@[irreducible] def unitsPerOne : Nat :=
  2 ^ unitExponent

theorem unitsPerOne_eq : unitsPerOne = 2 ^ unitExponent := by
  unfold unitsPerOne
  rfl

theorem unitsPerOne_pos : 0 < unitsPerOne := by
  rw [unitsPerOne_eq]
  exact Nat.two_pow_pos _

theorem representable_unitsPerOne : Representable unitsPerOne := by
  have hlt : 1 * 2 ^ unitExponent < infinityUnits := by
    rw [Nat.one_mul, infinityUnits_eq]
    exact Nat.pow_lt_pow_right (by decide) (by decide)
  have h := representable_mul_two_pow (by decide) hlt
  rwa [Nat.one_mul, ← unitsPerOne_eq] at h

def one : Binary64 :=
  finite false ⟨unitsPerOne, representable_unitsPerOne⟩

def infinity : Binary64 :=
  infinite false

def negativeInfinity : Binary64 :=
  infinite true

def isFinite : Binary64 → Bool
  | finite _ _ => true
  | _ => false

def signed (negative : Bool) (units : Nat) : Int :=
  if negative then -(units : Int) else units

@[simp] theorem natAbs_signed (negative : Bool) (units : Nat) :
    (signed negative units).natAbs = units := by
  cases negative <;> simp [signed]

/-! ## Comparison -/

/-- Position on the number line in units, the infinities one step beyond the finite numbers. -/
def rank : Binary64 → Option Int
  | nan => none
  | infinite negative => some (signed negative infinityUnits)
  | finite negative m => some (signed negative m.val)

theorem rank_eq_none_iff {x : Binary64} : x.rank = none ↔ x = nan := by
  cases x <;> simp [rank]

def compareRanks (relation : Int → Int → Bool) (x y : Binary64) : Bool :=
  match x.rank, y.rank with
  | some a, some b => relation a b
  | _, _ => false

def sameNumber (x y : Binary64) : Bool :=
  compareRanks (· == ·) x y

def lessThan (x y : Binary64) : Bool :=
  compareRanks (fun a b => decide (a < b)) x y

def atMost (x y : Binary64) : Bool :=
  compareRanks (fun a b => decide (a ≤ b)) x y

theorem sameNumber_iff {x y : Binary64} :
    x.sameNumber y = true ↔ x ≠ nan ∧ x.rank = y.rank := by
  unfold sameNumber compareRanks
  rw [Ne, ← rank_eq_none_iff]
  cases x.rank <;> cases y.rank <;> simp

theorem sameNumber_self {x : Binary64} : x.sameNumber x = true ↔ x ≠ nan := by
  simp [sameNumber_iff]

theorem sameNumber_comm (x y : Binary64) : x.sameNumber y = y.sameNumber x := by
  unfold sameNumber compareRanks
  cases x.rank <;> cases y.rank <;> simp [Bool.beq_comm]

theorem sameNumber_trans {x y z : Binary64} (hxy : x.sameNumber y = true)
    (hyz : y.sameNumber z = true) : x.sameNumber z = true := by
  rw [sameNumber_iff] at *
  exact ⟨hxy.1, hxy.2.trans hyz.2⟩

/-- The sign of a zero does not count. -/
def isZero (x : Binary64) : Bool :=
  x.sameNumber zero

def isNegative (x : Binary64) : Bool :=
  x.lessThan zero

/-! ## Arithmetic -/

/-- The number nearest to `num / den` units. -/
def ofUnits (negative : Bool) (num den : Nat) : Binary64 :=
  match roundRatio num den with
  | some m => finite negative m
  | none => infinite negative

theorem ofUnits_eq_finite {negative : Bool} {num den : Nat} {m : Magnitude}
    (h : roundRatio num den = some m) : ofUnits negative num den = finite negative m := by
  simp only [ofUnits, h]

theorem ofUnits_congr {negative : Bool} {num den num' den' : Nat}
    (h : roundRatio num den = roundRatio num' den') :
    ofUnits negative num den = ofUnits negative num' den' := by
  simp only [ofUnits, h]

theorem ofUnits_mul (negative : Bool) (m : Magnitude) {den : Nat} (hden : 0 < den) :
    ofUnits negative (m.val * den) den = finite negative m :=
  ofUnits_eq_finite (roundRatio_mul m hden)

/-- The number nearest to the fraction `num / den`. -/
def ofRatio (negative : Bool) (num den : Nat) : Binary64 :=
  ofUnits negative (num * unitsPerOne) den

def ofInt (n : Int) : Binary64 :=
  ofRatio (decide (n < 0)) n.natAbs 1

def neg : Binary64 → Binary64
  | nan => nan
  | infinite negative => infinite !negative
  | finite negative m => finite (!negative) m

def abs : Binary64 → Binary64
  | nan => nan
  | infinite _ => infinite false
  | finite _ m => finite false m

/-- A sum of exactly zero is negative only if both summands are negative zeros. -/
def add : Binary64 → Binary64 → Binary64
  | nan, _ => nan
  | _, nan => nan
  | infinite a, infinite b => if a = b then infinite a else nan
  | infinite a, finite _ _ => infinite a
  | finite _ _, infinite b => infinite b
  | finite a m, finite b n =>
      let total := signed a m.val + signed b n.val
      if total = 0 then finite (a && b) ⟨0, representable_zero⟩
      else ofUnits (decide (total < 0)) total.natAbs 1

def mul : Binary64 → Binary64 → Binary64
  | nan, _ => nan
  | _, nan => nan
  | infinite a, infinite b => infinite (a ^^ b)
  | infinite a, finite b m => if m.val = 0 then nan else infinite (a ^^ b)
  | finite a m, infinite b => if m.val = 0 then nan else infinite (a ^^ b)
  | finite a m, finite b n => ofUnits (a ^^ b) (m.val * n.val) unitsPerOne

instance : Neg Binary64 := ⟨neg⟩

instance : Add Binary64 := ⟨add⟩

instance : Mul Binary64 := ⟨mul⟩

@[simp] theorem neg_neg (x : Binary64) : - -x = x := by
  show neg (neg x) = x
  cases x <;> simp [neg]

/-- Adding to zero keeps a number, a negative zero apart. -/
theorem zero_add {x : Binary64} (h : x ≠ -zero) : zero + x = x := by
  show add zero x = x
  match x with
  | nan => rfl
  | infinite negative => rfl
  | finite negative m =>
      by_cases hm : m.val = 0
      · obtain ⟨n, hn⟩ := m
        subst hm
        cases negative
        · rfl
        · exact absurd rfl h
      · have hpos : 0 < m.val := Nat.pos_of_ne_zero hm
        have hround : ofUnits negative m.val 1 = finite negative m := by
          simpa using ofUnits_mul negative m Nat.one_pos
        cases negative
        · simpa [add, zero, signed, hm, Int.not_ofNat_neg] using hround
        · simpa [add, zero, signed, hm, hpos] using hround

theorem one_mul (x : Binary64) : one * x = x := by
  show mul one x = x
  match x with
  | nan => rfl
  | infinite negative => simp [one, mul, Nat.ne_of_gt unitsPerOne_pos]
  | finite negative m => simp [one, mul, Nat.mul_comm unitsPerOne, ofUnits_mul _ _ unitsPerOne_pos]

/-! ## Bit patterns -/

/-- The lower bits of a pattern are the fraction field. -/
def fractionBits : Nat :=
  52

/-- Next to the fraction comes the exponent field, and then the sign. -/
def exponentBits : Nat :=
  11

def lastExponent : Nat :=
  2047

def signWeight (negative : Bool) : Nat :=
  if negative then 2 ^ (fractionBits + exponentBits) else 0

/-- The units of an exponent field below the last and a fraction field. -/
def fieldUnits (exponent fraction : Nat) : Nat :=
  (if exponent = 0 then fraction else 2 ^ fractionBits + fraction) * 2 ^ (exponent - 1)

theorem representable_fieldUnits {exponent fraction : Nat} (he : exponent < lastExponent)
    (hf : fraction < 2 ^ fractionBits) : Representable (fieldUnits exponent fraction) := by
  have hsig : (if exponent = 0 then fraction else 2 ^ fractionBits + fraction)
      < 2 ^ precision := by
    have htwice : 2 ^ precision = 2 ^ fractionBits + 2 ^ fractionBits := by decide
    split <;> omega
  apply representable_mul_two_pow (Nat.le_of_lt hsig)
  refine Nat.lt_of_lt_of_le (Nat.mul_lt_mul_of_pos_right hsig (Nat.two_pow_pos _)) ?_
  rw [← Nat.pow_add, infinityUnits_eq]
  refine Nat.pow_le_pow_right (by decide) ?_
  unfold lastExponent at he
  unfold lastGridExponent
  omega

def ofBits (bits : Nat) : Binary64 :=
  let fraction := bits % 2 ^ fractionBits
  let exponent := bits / 2 ^ fractionBits % 2 ^ exponentBits
  let negative := decide (bits / 2 ^ (fractionBits + exponentBits) % 2 = 1)
  if h : exponent < lastExponent then
    finite negative
      ⟨fieldUnits exponent fraction,
        representable_fieldUnits h (Nat.mod_lt _ (Nat.two_pow_pos _))⟩
  else if fraction = 0 then infinite negative
  else nan

/-- The bit pattern of a number; NaN has the quiet one. -/
def toBits : Binary64 → Nat
  | nan => lastExponent * 2 ^ fractionBits + 2 ^ (fractionBits - 1)
  | infinite negative => signWeight negative + lastExponent * 2 ^ fractionBits
  | finite negative m =>
      signWeight negative + gridExponent m.val * 2 ^ fractionBits
        + m.val / 2 ^ gridExponent m.val

end Binary64

end SparseProgram
