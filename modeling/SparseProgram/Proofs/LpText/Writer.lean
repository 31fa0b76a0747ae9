import SparseProgram.LpText.Recording

/-!
# Writers that fail

Every piece of a rendering is offered until it is taken. The calls of a write deliver all its bytes
or end with the first call that fails, so that what was received is always a prefix of the text.
-/

namespace SparseProgram

variable {σ ε : Type}

theorem utf8_append (s t : String) : utf8 (s ++ t) = utf8 s ++ utf8 t := by
  simp only [utf8, String.toUTF8, String.toByteArray_append, ByteArray.toList_data_append]

theorem utf8_join (pieces : List String) : utf8 (String.join pieces) = pieces.flatMap utf8 := by
  induction pieces with
  | nil => rfl
  | cons piece rest ih => rw [String.join_cons, utf8_append, ih, List.flatMap_cons]

theorem Rendering.utf8_writtenText (r : Rendering) :
    utf8 r.writtenText = r.pieces.flatMap utf8 :=
  utf8_join r.pieces

namespace WriterCall

theorem taken_of_failure {call : WriterCall ε} {error : WriteError ε}
    (h : call.failure? = some error) : call.taken = [] := by
  obtain ⟨offered, response⟩ := call
  cases response with
  | accepted count =>
      by_cases hzero : count = 0
      · simp [taken, hzero]
      · simp [failure?, hzero] at h
  | failed error => rfl

end WriterCall

/-! ## Deliveries -/

/-- Calls that deliver bytes in their order: all of them, or those before the one call that fails,
which is the last. -/
def Delivers (bytes : Bytes) (calls : List (WriterCall ε)) : Option (WriteError ε) → Prop
  | none => (∀ call ∈ calls, call.failure? = none) ∧ calls.flatMap (·.taken) = bytes
  | some error =>
      ∃ before last, calls = before ++ [last] ∧ (∀ call ∈ before, call.failure? = none)
        ∧ last.failure? = some error ∧ before.flatMap (·.taken) <+: bytes

namespace Delivers

variable {bytes more : Bytes} {calls later : List (WriterCall ε)} {failure : Option (WriteError ε)}

theorem nothing : Delivers [] ([] : List (WriterCall ε)) none :=
  ⟨fun _ hcall => absurd hcall List.not_mem_nil, rfl⟩

theorem append (h : Delivers bytes calls none) (hlater : Delivers more later failure) :
    Delivers (bytes ++ more) (calls ++ later) failure := by
  obtain ⟨hclean, htaken⟩ := h
  cases failure with
  | none =>
      refine ⟨List.forall_mem_append.2 ⟨hclean, hlater.1⟩, ?_⟩
      rw [List.flatMap_append, htaken, hlater.2]
  | some error =>
      obtain ⟨before, last, rfl, hbefore, hlast, hprefix⟩ := hlater
      refine ⟨calls ++ before, last, (List.append_assoc ..).symm,
        List.forall_mem_append.2 ⟨hclean, hbefore⟩, hlast, ?_⟩
      rw [List.flatMap_append, htaken]
      exact (List.prefix_append_right_inj bytes).2 hprefix

/-- What comes behind a failure is not offered. -/
theorem stop {error : WriteError ε} (h : Delivers bytes calls (some error)) (more : Bytes) :
    Delivers (bytes ++ more) calls (some error) := by
  obtain ⟨before, last, hcalls, hbefore, hlast, hprefix⟩ := h
  exact ⟨before, last, hcalls, hbefore, hlast, hprefix.trans (List.prefix_append bytes more)⟩

theorem taken_prefix (h : Delivers bytes calls failure) : calls.flatMap (·.taken) <+: bytes := by
  cases failure with
  | none => exact h.2 ▸ List.prefix_rfl
  | some error =>
      obtain ⟨before, last, rfl, -, hlast, hprefix⟩ := h
      simpa [WriterCall.taken_of_failure hlast] using hprefix

theorem eq_none_of_clean (h : Delivers bytes calls failure)
    (hclean : ∀ call ∈ calls, call.failure? = none) : failure = none := by
  cases failure with
  | none => rfl
  | some error =>
      obtain ⟨before, last, rfl, -, hlast, -⟩ := h
      rw [hclean last (by simp)] at hlast
      cases hlast

/-- The first call that fails is the last one, and the delivery fails as it does. -/
theorem eq_some_of_first {before after : List (WriterCall ε)} {call : WriterCall ε}
    {error : WriteError ε} (h : Delivers bytes (before ++ call :: after) failure)
    (hcall : call.failure? = some error) : after = [] ∧ failure = some error := by
  cases failure with
  | none =>
      rw [h.1 call (by simp)] at hcall
      cases hcall
  | some other =>
      obtain ⟨clean, last, hcalls, hclean, hlast, -⟩ := h
      rcases List.eq_nil_or_concat after with rfl | ⟨between, end', rfl⟩
      · obtain ⟨-, hlast_eq⟩ := List.append_inj' hcalls rfl
        obtain rfl : call = last := by simpa using hlast_eq
        exact ⟨rfl, hlast.symm.trans hcall⟩
      · -- The failed call would stand among those before the last one.
        have hsplit : (before ++ call :: between) ++ [end'] = clean ++ [last] := by
          simpa using hcalls
        obtain ⟨hbefore, -⟩ := List.append_inj' hsplit rfl
        have hnone := hclean call (hbefore ▸ by simp)
        rw [hnone] at hcall
        cases hcall

end Delivers

namespace Writer

variable {w : Writer σ ε} {bytes : Bytes}

/-! ## One call -/

theorem writeAll_nil (s : WriteState σ) : w.writeAll s [] = (s, none) := by
  rw [writeAll]
  rfl

theorem writeAll_of_failed {s : WriteState σ} {error : ε} {next : σ} (hne : bytes ≠ [])
    (h : w.offer s.writer bytes = (.failed error, next)) :
    w.writeAll s bytes = (⟨next, s.received⟩, some (.writer error)) := by
  rw [writeAll]
  simp only [hne, dite_false, h]

theorem writeAll_of_accepted {s : WriteState σ} {count : Nat} {next : σ} (hne : bytes ≠ [])
    (h : w.offer s.writer bytes = (.accepted count, next)) :
    w.writeAll s bytes
      = if count = 0 then (⟨next, s.received⟩, some .nothingTaken)
        else w.writeAll ⟨next, s.received ++ bytes.take count⟩ (bytes.drop count) := by
  rw [writeAll]
  by_cases hcount : count = 0
  · simp only [hne, dite_false, h, hcount, dite_true, if_true]
  · simp only [hne, dite_false, h, hcount, if_false]

/-! ## Recorded runs -/

def forget (s : WriteState (σ × List (WriterCall ε))) : WriteState σ :=
  ⟨s.writer.1, s.received⟩

/-- The state after some more calls, none of which offers nothing. -/
structure Extends (s : WriteState (σ × List (WriterCall ε))) (calls : List (WriterCall ε))
    (next : WriteState (σ × List (WriterCall ε))) : Prop where
  log : next.writer.2 = s.writer.2 ++ calls
  received : next.received = s.received ++ calls.flatMap (·.taken)
  offered : ∀ call ∈ calls, call.offered ≠ []

theorem Extends.refl (s : WriteState (σ × List (WriterCall ε))) : Extends s [] s :=
  ⟨(List.append_nil _).symm, (List.append_nil _).symm, by simp⟩

theorem Extends.trans {s next last : WriteState (σ × List (WriterCall ε))}
    {calls later : List (WriterCall ε)} (h : Extends s calls next)
    (hlater : Extends next later last) : Extends s (calls ++ later) last where
  log := by rw [hlater.log, h.log, List.append_assoc]
  received := by rw [hlater.received, h.received, List.flatMap_append, List.append_assoc]
  offered := List.forall_mem_append.2 ⟨h.offered, hlater.offered⟩

/-- A recorded step does what the writer does, and its calls deliver the bytes. -/
structure Records (s : WriteState (σ × List (WriterCall ε))) (bytes : Bytes)
    (recorded : WriteState (σ × List (WriterCall ε)) × Option (WriteError ε))
    (plain : WriteState σ × Option (WriteError ε)) : Prop where
  plain_eq : plain = (forget recorded.1, recorded.2)
  delivers : ∃ calls, Extends s calls recorded.1 ∧ Delivers bytes calls recorded.2

variable {s : WriteState (σ × List (WriterCall ε))}
  {recorded : WriteState (σ × List (WriterCall ε)) × Option (WriteError ε)}
  {plain : WriteState σ × Option (WriteError ε)}

theorem Records.nothing : Records s [] (s, none) (forget s, none) :=
  ⟨rfl, [], .refl s, .nothing⟩

theorem Records.refused (call : WriterCall ε) {error : WriteError ε} {next : σ}
    (hne : call.offered ≠ []) (h : call.failure? = some error) :
    Records s call.offered (⟨(next, s.writer.2 ++ [call]), s.received⟩, some error)
      (⟨next, s.received⟩, some error) := by
  have hextends : Extends s [call] ⟨(next, s.writer.2 ++ [call]), s.received⟩ :=
    ⟨rfl, by simp [WriterCall.taken_of_failure h], by simpa using hne⟩
  exact ⟨rfl, [call], hextends, [], call, rfl, by simp, h, List.nil_prefix⟩

/-- After a call that takes something, the rest is delivered by the calls that follow. -/
theorem Records.accepted {count : Nat} {next : σ} (hne : bytes ≠ []) (hcount : count ≠ 0)
    (h : Records ⟨(next, s.writer.2 ++ [⟨bytes, .accepted count⟩]),
      s.received ++ bytes.take count⟩ (bytes.drop count) recorded plain) :
    Records s bytes recorded plain := by
  let call : WriterCall ε := ⟨bytes, .accepted count⟩
  have hextends : Extends s [call]
      ⟨(next, s.writer.2 ++ [call]), s.received ++ bytes.take count⟩ :=
    ⟨rfl, by simp [call, WriterCall.taken], by simpa [call] using hne⟩
  have hdelivers : Delivers (bytes.take count) [call] none :=
    ⟨by simp [call, WriterCall.failure?, hcount], by simp [call, WriterCall.taken]⟩
  obtain ⟨later, hlater, hrest⟩ := h.delivers
  refine ⟨h.plain_eq, [call] ++ later, hextends.trans hlater, ?_⟩
  have hall := hdelivers.append hrest
  rwa [List.take_append_drop] at hall

/-- One call after the other, each offered what the one before has left. -/
theorem records_writeAll (w : Writer σ ε) (s : WriteState (σ × List (WriterCall ε)))
    (bytes : Bytes) :
    Records s bytes (w.recorded.writeAll s bytes) (w.writeAll (forget s) bytes) := by
  by_cases hne : bytes = []
  · subst hne
    rw [writeAll_nil, writeAll_nil]
    exact .nothing
  · cases hoffer : w.offer s.writer.1 bytes with
    | mk response next =>
      have hrecorded : w.recorded.offer s.writer bytes
          = (response, (next, s.writer.2 ++ [⟨bytes, response⟩])) := by
        simp only [Writer.recorded, hoffer]
      cases response with
      | failed error =>
          rw [writeAll_of_failed hne hrecorded, writeAll_of_failed hne hoffer]
          exact .refused ⟨bytes, .failed error⟩ hne rfl
      | accepted count =>
          rw [writeAll_of_accepted hne hrecorded, writeAll_of_accepted hne hoffer]
          by_cases hcount : count = 0
          · subst hcount
            exact .refused ⟨bytes, .accepted 0⟩ hne rfl
          · rw [if_neg hcount, if_neg hcount]
            exact (records_writeAll w _ (bytes.drop count)).accepted hne hcount
termination_by bytes.length
decreasing_by
  have hpos : 0 < bytes.length := List.length_pos_iff.2 hne
  rw [List.length_drop]
  omega

theorem records_writePieces (w : Writer σ ε) (s : WriteState (σ × List (WriterCall ε)))
    (pieces : List String) :
    Records s (pieces.flatMap utf8) (w.recorded.writePieces s pieces)
      (w.writePieces (forget s) pieces) := by
  induction pieces generalizing s with
  | nil => exact .nothing
  | cons piece rest ih =>
      obtain ⟨hplain, calls, hcalls, hdelivers⟩ := records_writeAll w s (utf8 piece)
      rw [writePieces, writePieces, hplain, List.flatMap_cons]
      cases hpiece : w.recorded.writeAll s (utf8 piece) with
      | mk next failure =>
        rw [hpiece] at hcalls hdelivers
        cases failure with
        | some error => exact ⟨rfl, calls, hcalls, hdelivers.stop _⟩
        | none =>
            obtain ⟨hrest, later, hlater, hmore⟩ := ih next
            exact ⟨hrest, calls ++ later, hcalls.trans hlater, hdelivers.append hmore⟩

def outcomeOf (r : Rendering) : Option (WriteError ε) → WriteOutcome ε
  | some error => .failed error
  | none => if r.breaksOff then .brokenOff else .complete

theorem write_eq (w : Writer σ ε) (s : WriteState σ) (r : Rendering) :
    w.write s r
      = ((w.writePieces s r.pieces).1, outcomeOf r (w.writePieces s r.pieces).2) := by
  rw [write]
  cases w.writePieces s r.pieces with
  | mk next failure => cases failure <;> rfl

end Writer

namespace Model

variable {τ : Type} [Term τ]

/-- Writing LP text stops at the first call that fails. What was received is a prefix of the text,
and if no call fails it is the whole text, or all of it up to where it breaks off. -/
theorem write_stops_at_first_failure (m : Model τ) (w : Writer σ ε) (start : σ) :
    let run := w.writeRecorded start m.render
    let calls := run.1.writer.2
    w.write ⟨start, []⟩ m.render = (Writer.forget run.1, run.2)
      ∧ run.1.received = calls.flatMap (·.taken)
      ∧ (∀ call ∈ calls, call.offered ≠ [])
      ∧ run.1.received <+: utf8 m.render.writtenText
      ∧ ((∀ call ∈ calls, call.failure? = none) →
          (∀ text, m.lpText? = some text → run.1.received = utf8 text ∧ run.2 = .complete)
            ∧ (m.lpText? = none →
                run.1.received = utf8 m.render.writtenText ∧ run.2 = .brokenOff))
      ∧ ∀ before call after error, calls = before ++ call :: after →
          call.failure? = some error → after = [] ∧ run.2 = .failed error := by
  intro run calls
  obtain ⟨hplain, log, hextends, hdelivers⟩ :=
    Writer.records_writePieces w ⟨(start, []), []⟩ m.render.pieces
  rw [← Rendering.utf8_writtenText] at hdelivers
  have hrun : run = _ := Writer.write_eq w.recorded ⟨(start, []), []⟩ m.render
  have hcalls : calls = log := by
    show run.1.writer.2 = log
    rw [hrun]
    exact hextends.log
  have hreceived : run.1.received = log.flatMap (·.taken) := by
    rw [hrun]
    exact hextends.received
  rw [hcalls, hreceived]
  refine ⟨?_, rfl, hextends.offered, hdelivers.taken_prefix, ?_, ?_⟩
  · have hforget : Writer.forget (⟨(start, []), []⟩ : WriteState (σ × List (WriterCall ε)))
        = ⟨start, []⟩ := rfl
    rw [hforget] at hplain
    rw [Writer.write_eq, hplain, hrun]
  · intro hclean
    have hnone := hdelivers.eq_none_of_clean hclean
    rw [hnone] at hdelivers
    have houtcome : run.2 = if m.render.breaksOff then .brokenOff else .complete := by
      rw [hrun, hnone]
      rfl
    rw [hdelivers.2, houtcome, lpText?, Rendering.text?]
    cases m.render.breaksOff <;> simp
  · rintro before call after error rfl hcall
    obtain ⟨hlast, hfailure⟩ := hdelivers.eq_some_of_first hcall
    refine ⟨hlast, ?_⟩
    rw [hrun, hfailure]
    rfl

def floor : Model Nat where
  name := "floor"
  vars := [⟨0, ⟨.zero, .infinity⟩, .continuous, "x", none⟩]
  constraints := .ofRows [⟨[(0, .one)], .greaterEqual, .ofInt 2, "floor"⟩]
  objective := ⟨.minimum, [⟨0, .ofInt 3⟩]⟩

def fullOnce : Writer LimitedState DiskFull :=
  LimitedMedium.writer ⟨7, false, true⟩

theorem write_floor_fullOnce :
    let run := fullOnce.writeRecorded ⟨20, false⟩ floor.render
    floor.lpText?
        = some "Minimum\n + 3 x\n\nSubject To\n floor: + x >= 2\n\nBounds\n x >= 0\n\nEnd\n"
      ∧ run.2 = .failed (.writer .diskFull)
      ∧ run.1.received.length = 20
      ∧ run.1.received <+: utf8 floor.render.writtenText := by
  have hfloor := floor.write_stops_at_first_failure fullOnce ⟨20, false⟩
  exact ⟨by decide +kernel, by decide +kernel, by decide +kernel, hfloor.2.2.2.1⟩

end Model

end SparseProgram
