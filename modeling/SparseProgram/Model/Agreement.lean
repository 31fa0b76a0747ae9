import SparseProgram.Model.Basic

/-!
# Agreement of models

Two models agree if they differ at most in the signs of zeros: all numbers are compared as
numbers, so a model with a NaN does not agree with itself.
-/

namespace SparseProgram

def agreeAll {α : Type} (agree : α → α → Bool) : List α → List α → Bool
  | [], [] => true
  | a :: as, b :: bs => agree a b && agreeAll agree as bs
  | _, _ => false

def agreeOption {α : Type} (agree : α → α → Bool) : Option α → Option α → Bool
  | none, none => true
  | some a, some b => agree a b
  | _, _ => false

namespace Bounds

def agrees (a b : Bounds) : Bool :=
  a.lower.sameNumber b.lower && a.upper.sameNumber b.upper

end Bounds

namespace Variable

def agrees (v w : Variable) : Bool :=
  v.index == w.index && v.bounds.agrees w.bounds && v.kind == w.kind && v.name == w.name
    && agreeOption Binary64.sameNumber v.value w.value

end Variable

variable {τ : Type} [DecidableEq τ]

namespace Cell

def agrees (a b : Cell τ) : Bool :=
  a.row == b.row && a.term == b.term && a.coefficient.sameNumber b.coefficient

end Cell

namespace RowStore

def agrees (s t : RowStore τ) : Bool :=
  agreeAll Cell.agrees s.cells t.cells && s.relations == t.relations
    && agreeAll Binary64.sameNumber s.rightSides t.rightSides && s.names == t.names

end RowStore

namespace Objective

def agrees (a b : Objective τ) : Bool :=
  a.sense == b.sense
    && agreeAll (fun x y => x.term == y.term && x.coefficient.sameNumber y.coefficient)
      a.cells b.cells

end Objective

namespace Model

def variablesAgree (m n : Model τ) : Bool :=
  agreeAll Variable.agrees m.vars n.vars

def agrees (m n : Model τ) : Bool :=
  m.name == n.name && m.variablesAgree n && m.constraints.agrees n.constraints
    && m.objective.agrees n.objective

end Model

end SparseProgram
