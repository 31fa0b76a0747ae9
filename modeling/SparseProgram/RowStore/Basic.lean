import SparseProgram.Named
import SparseProgram.Number.Binary64
import SparseProgram.Term

/-!
# Row stores

Constraint rows in sparse form: one run of cells for all rows, each cell with its row number, and
beside it the relation, right-hand side and name of every row. The number of rows is the number of
right-hand sides. Rows can also be read with a position that moves over the cells: each is cut out
between two positions, and there is no outcome at all if a cut does not lie within the cells.
-/

namespace SparseProgram

inductive Relation where
  | lessEqual
  | greaterEqual
  | equal
  deriving DecidableEq

namespace Relation

instance : Named Relation where
  members := [lessEqual, greaterEqual, equal]
  name
    | lessEqual => "LessEqual"
    | greaterEqual => "GreaterEqual"
    | equal => "Equal"

def symbol : Relation → String
  | lessEqual => "<="
  | greaterEqual => ">="
  | equal => "="

end Relation

structure Cell (τ : Type) where
  row : Nat
  term : τ
  coefficient : Binary64
  deriving DecidableEq

structure Row (τ : Type) where
  cells : List (τ × Binary64)
  relation : Relation
  rightSide : Binary64
  name : String
  deriving DecidableEq

/-- Nothing in the type relates the four lists; `RowStore.firstDefect` says whether they agree. -/
@[ext]
structure RowStore (τ : Type) where
  cells : List (Cell τ)
  relations : List Relation
  rightSides : List Binary64
  names : List String
  deriving DecidableEq

/-- The cells of consecutive rows: each takes the cells of its number from the front. -/
def slicesFrom {τ : Type} (cells : List (Cell τ)) (row : Nat) : Nat → List (List (Cell τ))
  | 0 => []
  | count + 1 =>
      cells.takeWhile (·.row == row)
        :: slicesFrom (cells.dropWhile (·.row == row)) (row + 1) count

@[simp] theorem length_slicesFrom {τ : Type} (cells : List (Cell τ)) (row count : Nat) :
    (slicesFrom cells row count).length = count := by
  induction count generalizing cells row with
  | zero => rfl
  | succ count ih => simp [slicesFrom, ih]

namespace RowStore

variable {τ : Type}

def empty : RowStore τ :=
  ⟨[], [], [], []⟩

def size (s : RowStore τ) : Nat :=
  s.rightSides.length

def isEmpty (s : RowStore τ) : Bool :=
  s.rightSides.isEmpty

/-- Appends a row; its cells take the next row number. -/
def push (s : RowStore τ) (row : Row τ) : RowStore τ where
  cells := s.cells ++ row.cells.map fun (term, coefficient) => ⟨s.size, term, coefficient⟩
  relations := s.relations ++ [row.relation]
  rightSides := s.rightSides ++ [row.rightSide]
  names := s.names ++ [row.name]

@[simp] theorem size_push (s : RowStore τ) (row : Row τ) : (s.push row).size = s.size + 1 := by
  simp [size, push]

def pushAll (s : RowStore τ) (rows : List (Row τ)) : RowStore τ :=
  rows.foldl push s

@[simp] theorem size_pushAll (s : RowStore τ) (rows : List (Row τ)) :
    (s.pushAll rows).size = s.size + rows.length := by
  induction rows generalizing s with
  | nil => rfl
  | cons row rest ih =>
      show ((s.push row).pushAll rest).size = s.size + (rest.length + 1)
      rw [ih, size_push]
      omega

def ofRows (rows : List (Row τ)) : RowStore τ :=
  empty.pushAll rows

/-- The cells of each row. Cells out of order, and those behind them, belong to none. -/
def slices (s : RowStore τ) : List (List (Cell τ)) :=
  slicesFrom s.cells 0 s.size

@[simp] theorem length_slices (s : RowStore τ) : s.slices.length = s.size :=
  length_slicesFrom _ _ _

end RowStore

/-! ## Reading by position -/

/-- The members from one position up to another. Cutting backwards or beyond the end is fatal. -/
def cut {α : Type} (l : List α) (start stop : Nat) : Option (List α) :=
  if start ≤ stop ∧ stop ≤ l.length then some ((l.drop start).take (stop - start)) else none

variable {τ : Type}

def readRow (cells : List (Cell τ)) (start row : Nat) : Option (List (Cell τ) × Nat) := do
  let rest ← cut cells start cells.length
  let stop := start + (rest.takeWhile (·.row == row)).length
  let slice ← cut cells start stop
  return (slice, stop)

def readRows (cells : List (Cell τ)) (start row : Nat) : Nat → Option (List (List (Cell τ)))
  | 0 => some []
  | count + 1 => do
      let (slice, stop) ← readRow cells start row
      let later ← readRows cells stop (row + 1) count
      return slice :: later

def RowStore.readSlices (s : RowStore τ) : Option (List (List (Cell τ))) :=
  readRows s.cells 0 0 s.size

end SparseProgram
