import SparseProgram.Number.Shortest
import SparseProgram.Snapshot.Basic

/-!
# Registries

Handles numbered in the order of registration. The column of a token is its position, and no two
tokens share a handle.
-/

namespace SparseProgram

inductive CompileError where
  | unresolvedToken (handle : Nat)
  | duplicateToken (handle : Nat)
  | invalidBounds (name : String) (bounds : Bounds)
  deriving DecidableEq

namespace CompileError

def message : CompileError → String
  | unresolvedToken handle =>
      s!"cell references token {handle}, which is not registered in the model"
  | duplicateToken handle => s!"token {handle} is registered more than once"
  | invalidBounds name bounds =>
      s!"token `{name}` has invalid bounds [{bounds.lower.text}, {bounds.upper.text}]"

end CompileError

/-- The first member that occurs in `seen` or earlier in the list. -/
def firstRepeat (seen : List Nat) : List Nat → Option Nat
  | [] => none
  | k :: rest => if k ∈ seen then some k else firstRepeat (k :: seen) rest

theorem firstRepeat_eq_none_iff {seen keys : List Nat} :
    firstRepeat seen keys = none ↔ keys.Nodup ∧ ∀ k ∈ keys, k ∉ seen := by
  induction keys generalizing seen with
  | nil => simp [firstRepeat]
  | cons k rest ih =>
      by_cases h : k ∈ seen
      · simp [firstRepeat, h]
      · simp only [firstRepeat, h, if_false, ih, List.nodup_cons, List.mem_cons, not_or]
        grind

structure Registry where
  handles : List Nat
  distinct : handles.Nodup

namespace Registry

def ofTokens (tokens : List Token) : Except CompileError Registry :=
  match h : firstRepeat [] (tokens.map (·.handle)) with
  | some handle => .error (.duplicateToken handle)
  | none => .ok ⟨tokens.map (·.handle), (firstRepeat_eq_none_iff.1 h).1⟩

def size (r : Registry) : Nat :=
  r.handles.length

def isEmpty (r : Registry) : Bool :=
  r.handles.isEmpty

def column (r : Registry) (handle : Nat) : Except CompileError Nat :=
  match r.handles.idxOf? handle with
  | some column => .ok column
  | none => .error (.unresolvedToken handle)

/-- The term that a monomial of handles stands for. -/
def term {τ : Type} [Term τ] (r : Registry) (monomial : τ) : Except CompileError τ :=
  Term.replaceColumns r.column monomial

end Registry

end SparseProgram
