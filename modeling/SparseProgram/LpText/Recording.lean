import SparseProgram.LpText.Writer

/-!
# Recorded writers

A writer together with its calls: what it was offered each time, and what it answered. Recording
changes nothing of what the writer does.
-/

namespace SparseProgram

structure WriterCall (ε : Type) where
  offered : Bytes
  response : Response ε

namespace WriterCall

variable {ε : Type}

def taken (call : WriterCall ε) : Bytes :=
  match call.response with
  | .accepted count => call.offered.take count
  | .failed _ => []

def failure? (call : WriterCall ε) : Option (WriteError ε) :=
  match call.response with
  | .accepted count => if count = 0 then some .nothingTaken else none
  | .failed error => some (.writer error)

end WriterCall

namespace Writer

variable {σ ε : Type}

/-- The same writer, with its calls in their order as a second part of the state. -/
def recorded (w : Writer σ ε) : Writer (σ × List (WriterCall ε)) ε where
  offer s bytes :=
    let (response, next) := w.offer s.1 bytes
    (response, (next, s.2 ++ [⟨bytes, response⟩]))

/-- A write to a writer that has had no call yet, with the calls that it makes. -/
def writeRecorded (w : Writer σ ε) (start : σ) (r : Rendering) :
    WriteState (σ × List (WriterCall ε)) × WriteOutcome ε :=
  w.recorded.write ⟨(start, []), []⟩ r

end Writer

end SparseProgram
