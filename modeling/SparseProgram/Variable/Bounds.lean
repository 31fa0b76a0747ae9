import SparseProgram.Number.Binary64

/-!
# Bounds

The interval of a variable. An infinite bound of its own side is no bound at all; bounds of
either zero split a line in the same way.
-/

namespace SparseProgram

structure Bounds where
  lower : Binary64
  upper : Binary64
  deriving DecidableEq

inductive BoundShape where
  | free
  | nonNegative
  | nonPositive
  | other
  deriving DecidableEq

namespace Bounds

def free : Bounds :=
  ⟨.negativeInfinity, .infinity⟩

def lowerIsFree (b : Bounds) : Bool :=
  b.lower.sameNumber .negativeInfinity

def upperIsFree (b : Bounds) : Bool :=
  b.upper.sameNumber .infinity

def isFree (b : Bounds) : Bool :=
  b.lowerIsFree && b.upperIsFree

def isFixed (b : Bounds) : Bool :=
  b.lower.sameNumber b.upper

/-- The lower bound is at most the upper one; not so if either is NaN. -/
def isOrdered (b : Bounds) : Bool :=
  b.lower.atMost b.upper

def shape (b : Bounds) : BoundShape :=
  match b.lowerIsFree, b.upperIsFree with
  | true, true => .free
  | false, true => if b.lower.isZero then .nonNegative else .other
  | true, false => if b.upper.isZero then .nonPositive else .other
  | false, false => .other

/-- The lower bound can stay a bound when all others become rows. -/
def lowerIsPlain (b : Bounds) : Bool :=
  b.lowerIsFree || b.lower.isZero

def upperIsPlain (b : Bounds) : Bool :=
  b.upperIsFree || b.upper.isZero

def isPlain (b : Bounds) : Bool :=
  b.lowerIsPlain && b.upperIsPlain

end Bounds

end SparseProgram
