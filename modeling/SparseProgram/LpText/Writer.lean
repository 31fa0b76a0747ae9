import SparseProgram.LpText.Layout

/-!
# Writing renderings

Pieces are handed to a writer in order. A writer may take any part of what it is offered, or fail;
taking nothing counts as a failure. After the first failure it is offered nothing more.
-/

namespace SparseProgram

abbrev Bytes := List UInt8

def utf8 (s : String) : Bytes :=
  s.toUTF8.data.toList

inductive Response (ε : Type) where
  | accepted (count : Nat)
  | failed (error : ε)

structure Writer (σ ε : Type) where
  offer : σ → Bytes → Response ε × σ

inductive WriteError (ε : Type) where
  /-- A nonempty offer of which nothing was taken. -/
  | nothingTaken
  | writer (error : ε)
  deriving DecidableEq

structure WriteState (σ : Type) where
  writer : σ
  received : Bytes

inductive WriteOutcome (ε : Type) where
  | complete
  /-- The rendering broke off after everything before was written. -/
  | brokenOff
  | failed (error : WriteError ε)
  deriving DecidableEq

namespace Writer

variable {σ ε : Type}

def writeAll (w : Writer σ ε) (s : WriteState σ) (bytes : Bytes) :
    WriteState σ × Option (WriteError ε) :=
  if _ : bytes = [] then (s, none)
  else
    match w.offer s.writer bytes with
    | (.failed error, next) => (⟨next, s.received⟩, some (.writer error))
    | (.accepted count, next) =>
        if _ : count = 0 then (⟨next, s.received⟩, some .nothingTaken)
        else w.writeAll ⟨next, s.received ++ bytes.take count⟩ (bytes.drop count)
termination_by bytes.length
decreasing_by
  have hpos : 0 < bytes.length := List.length_pos_iff.2 ‹_›
  rw [List.length_drop]
  omega

def writePieces (w : Writer σ ε) (s : WriteState σ) :
    List String → WriteState σ × Option (WriteError ε)
  | [] => (s, none)
  | piece :: rest =>
      match w.writeAll s (utf8 piece) with
      | (s, some error) => (s, some error)
      | (s, none) => w.writePieces s rest

/-- Writes a rendering up to its end or to where it breaks off. -/
def write (w : Writer σ ε) (s : WriteState σ) (r : Rendering) :
    WriteState σ × WriteOutcome ε :=
  match w.writePieces s r.pieces with
  | (s, some error) => (s, .failed error)
  | (s, none) => (s, if r.breaksOff then .brokenOff else .complete)

end Writer

/-! ## Writers of limited room -/

inductive DiskFull where
  | diskFull
  deriving DecidableEq

namespace WriteError

def message : WriteError DiskFull → String
  | nothingTaken => "failed to write whole buffer"
  | writer .diskFull => "disk full"

end WriteError

/-- A medium with room for some bytes, of which it takes at most `chunk` at a time. Where it can
take nothing it does so silently or with an error; `failsOnce` makes it take everything again after
one such failure. -/
structure LimitedMedium where
  chunk : Nat
  silent : Bool
  failsOnce : Bool

structure LimitedState where
  room : Nat
  hasFailed : Bool

namespace LimitedMedium

def writer (medium : LimitedMedium) : Writer LimitedState DiskFull where
  offer s bytes :=
    let wanted := min medium.chunk bytes.length
    if s.hasFailed && medium.failsOnce then (.accepted wanted, s)
    else
      let count := min wanted s.room
      if count = 0 then
        (if medium.silent then .accepted 0 else .failed .diskFull, { s with hasFailed := true })
      else (.accepted count, { s with room := s.room - count })

end LimitedMedium

namespace Model

/-- Writes the LP text of a model to an empty medium with room for `limit` bytes. -/
def writeLimited {τ : Type} [Term τ] (m : Model τ) (medium : LimitedMedium) (limit : Nat) :
    Bytes × WriteOutcome DiskFull :=
  let (s, outcome) := medium.writer.write ⟨⟨limit, false⟩, []⟩ m.render
  (s.received, outcome)

end Model

end SparseProgram
