/-!
# Terms

A term names the columns whose values it multiplies: one column in linear models, one or two in
quadratic ones. Terms are ordered by their first column and then by their second, where a term of
one column comes before the products that begin with it.
-/

namespace SparseProgram

/-- A column, or a product of two columns as given. -/
inductive QuadraticTerm where
  | linear (column : Nat)
  | product (first second : Nat)
  deriving DecidableEq

def sortedPair : Nat × Option Nat → Nat × Option Nat
  | (column, none) => (column, none)
  | (first, some second) => (min first second, some (max first second))

/-- Replaces one or two columns, the first one first; two columns come out in order. -/
def replacePair {ε : Type} (f : Nat → Except ε Nat) :
    Nat × Option Nat → Except ε (Nat × Option Nat)
  | (column, none) => return (← f column, none)
  | (first, some second) => do
      let a ← f first
      let b ← f second
      return (min a b, some (max a b))

class Term (τ : Type) where
  linear : Nat → τ
  columns : τ → Nat × Option Nat
  /-- Replaces each column, the first one first; the columns of a product come out in order. -/
  replaceColumns {ε : Type} : (Nat → Except ε Nat) → τ → Except ε τ
  /-- Products exist. -/
  isQuadratic : Bool
  columns_linear (column : Nat) : columns (linear column) = (column, none)
  columns_injective {s t : τ} : columns s = columns t → s = t
  columns_replaceColumns {ε : Type} (f : Nat → Except ε Nat) (t : τ) :
    (replaceColumns f t).map columns = replacePair f (columns t)

namespace Term

instance : Term Nat where
  linear column := column
  columns column := (column, none)
  replaceColumns f column := f column
  isQuadratic := false
  columns_linear _ := rfl
  columns_injective h := congrArg Prod.fst h
  columns_replaceColumns f t := by
    cases h : f t with
    | error e => simp [replacePair, h, Except.map, bind, Except.bind]
    | ok column => simp [replacePair, h, Except.map, bind, Except.bind, pure, Except.pure]

end Term

namespace QuadraticTerm

def columns : QuadraticTerm → Nat × Option Nat
  | linear column => (column, none)
  | product first second => (first, some second)

def replaceColumns {ε : Type} (f : Nat → Except ε Nat) : QuadraticTerm → Except ε QuadraticTerm
  | linear column => return linear (← f column)
  | product first second => do
      let a ← f first
      let b ← f second
      return product (min a b) (max a b)

theorem columns_injective {s t : QuadraticTerm} (h : s.columns = t.columns) : s = t := by
  cases s <;> cases t <;> simp_all [columns]

theorem columns_replaceColumns {ε : Type} (f : Nat → Except ε Nat) (t : QuadraticTerm) :
    (t.replaceColumns f).map columns = replacePair f t.columns := by
  cases t with
  | linear column =>
      cases h : f column with
      | error e => simp [replaceColumns, replacePair, columns, h, Except.map, bind, Except.bind]
      | ok c => simp [replaceColumns, replacePair, columns, h, Except.map, bind, Except.bind, pure,
          Except.pure]
  | product first second =>
      cases h : f first with
      | error e => simp [replaceColumns, replacePair, columns, h, Except.map, bind, Except.bind]
      | ok a =>
          cases h' : f second with
          | error e =>
              simp [replaceColumns, replacePair, columns, h, h', Except.map, bind, Except.bind]
          | ok b =>
              simp [replaceColumns, replacePair, columns, h, h', Except.map, bind, Except.bind,
                pure, Except.pure]

instance : Term QuadraticTerm where
  linear := linear
  columns := columns
  replaceColumns := replaceColumns
  isQuadratic := true
  columns_linear _ := rfl
  columns_injective := columns_injective
  columns_replaceColumns := columns_replaceColumns

end QuadraticTerm

namespace Term

variable {τ : Type} [Term τ]

/-- The columns of a term with those of a product in order. Terms that share them are alike: they
differ at most in the order of two factors. -/
def sortedColumns (t : τ) : Nat × Option Nat :=
  sortedPair (columns t)

def columnList (t : τ) : List Nat :=
  (columns t).1 :: (columns t).2.toList

/-- A missing second column comes first. -/
def compareSecond : Option Nat → Option Nat → Ordering
  | none, none => .eq
  | none, some _ => .lt
  | some _, none => .gt
  | some a, some b => Ord.compare a b

def compareColumns (a b : Nat × Option Nat) : Ordering :=
  (Ord.compare a.1 b.1).then (compareSecond a.2 b.2)

def compare (s t : τ) : Ordering :=
  compareColumns (columns s) (columns t)

theorem compareSecond_eq_iff {a b : Option Nat} : compareSecond a b = .eq ↔ a = b := by
  cases a <;> cases b <;> simp [compareSecond]

theorem compareSecond_swap (a b : Option Nat) :
    (compareSecond a b).swap = compareSecond b a := by
  cases a <;> cases b <;> simp [compareSecond, Nat.compare_swap]

theorem compare_eq_iff {s t : τ} : compare s t = .eq ↔ s = t := by
  constructor
  · intro h
    apply columns_injective
    rw [compare, compareColumns, Ordering.then_eq_eq] at h
    exact Prod.ext (Nat.compare_eq_eq.1 h.1) (compareSecond_eq_iff.1 h.2)
  · intro h
    subst h
    simp [compare, compareColumns, compareSecond_eq_iff]

theorem compare_swap (s t : τ) : (compare s t).swap = compare t s := by
  simp [compare, compareColumns, Ordering.swap_then, compareSecond_swap, Nat.compare_swap]

def before (s t : τ) : Bool :=
  compare s t == .lt

end Term

end SparseProgram
