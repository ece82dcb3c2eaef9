import LibStomp.Stream.Accumulators

/-!
# What `stomp_io.c` records when it fails

Every failure of `stomp_write` and of `stomp_read` sets the module's `error` record,
whatever it held before.  The texts differ, but all of them begin in one of three
ways.

## Main results

* `stompWrite_recorded`, `stompRead_recorded` — what fails has recorded such a text.
-/

namespace LibStomp.Stream.ErrorTexts

open LibStomp.Model
open LibStomp.Stream.ReadLine
open LibStomp.Stream.Accumulators

/-! ## The texts -/

/-- What the texts of the module begin with. -/
def beginnings : List CString :=
  [.lit "unable to read data", .lit "protocol error", .lit "I/O error"]

/-- A text the module records for a failure of `stomp_write` or `stomp_read`. -/
def IsIoText (text : CString) : Prop := ∃ b ∈ beginnings, b.bytes <+: text.bytes

instance (text : CString) : Decidable (IsIoText text) :=
  inferInstanceAs (Decidable (∃ b ∈ beginnings, b.bytes <+: text.bytes))

theorem IsIoText.append {text : CString} (h : IsIoText text) (more : CString) :
    IsIoText (text ++ more) := by
  obtain ⟨b, hb, hbegins⟩ := h
  exact ⟨b, hb, hbegins.trans (List.prefix_append _ _)⟩

/-- The record holds such a text. -/
def Recorded (io : Io) : Prop := ∃ text, io.error.message = some text ∧ IsIoText text

theorem recorded_statusSet {text : CString} (h : IsIoText text) (io : Io) :
    Recorded (io.statusSet text) := ⟨text, rfl, h⟩

theorem recorded_setError (A : Apr) {msgPrefix : CString} (h : IsIoText msgPrefix)
    (rc : AprError) (io : Io) : Recorded (Io.setError A msgPrefix rc io) :=
  recorded_statusSet ((h.append _).append _) io

section Failing

variable {α : Type} {x : IoM α} {io io' : Io} {rc : AprError}

/-- What fails with a note leaves what the note sets. -/
theorem recorded_onError {note : AprError → Io → Io}
    (hnote : ∀ rc io, Recorded (note rc io)) (h : onError x note io = .error rc io') :
    Recorded io' := by
  obtain ⟨io₁, -, rfl⟩ := onError_eq_error h
  exact hnote rc io₁

theorem recorded_failWith {rc' : AprError} {text : CString} (htext : IsIoText text)
    (h : (failWith rc' text : IoM α) io = .error rc io') : Recorded io' := by
  obtain ⟨-, rfl⟩ := EStateM.Result.error.inj h
  exact recorded_statusSet htext io

end Failing

/-! ## The functions -/

section Functions

variable {A : Apr} {io io' : Io} {rc : AprError}

theorem stompWrite_recorded {O : HashOrder} {frame : Frame}
    (h : stompWrite A O frame io = .error rc io') : Recorded io' :=
  recorded_onError (recorded_setError A (by decide +kernel)) h

theorem stompReadLine_recorded (h : stompReadLine A io = .error rc io') :
    Recorded io' := by
  have hread := stompReadLine_scan A io
  split at hread
  · cases hread.symm.trans h
  · exact recorded_failWith (by decide +kernel) (hread.symm.trans h)
  · obtain ⟨-, rfl⟩ := EStateM.Result.error.inj (hread.symm.trans h)
    exact recorded_setError A (by decide +kernel) _ _

/-- Each round of the header loop takes a line off the stream, so it does not run out
of rounds. -/
theorem readHeaders_recorded {fuel : Nat} :
    ∀ {io : Io} {headers : Hash}, io.socket.inbox.length < fuel →
      readHeaders A fuel headers io = .error rc io' → Recorded io' := by
  induction fuel with
  | zero =>
      intro io headers hfuel _
      omega
  | succ fuel ih =>
      intro io headers hfuel h
      rw [readHeaders] at h
      rcases bind_eq_error h with hline | ⟨⟨p, length⟩, io₁, hline, hrest⟩
      · exact stompReadLine_recorded hline
      simp only [] at hrest
      by_cases hzero : length = 0
      · rw [if_pos hzero] at hrest
        cases hrest
      rw [if_neg hzero] at hrest
      cases hcolon : (CString.ofBuffer p).splitColon with
      | none =>
          rw [hcolon] at hrest
          refine recorded_failWith (IsIoText.append (IsIoText.append ?_ _) _) hrest
          decide +kernel
      | some pair =>
          rw [hcolon] at hrest
          obtain ⟨l, -, htaken, -⟩ := readLine_ok hline
          have hlen := congrArg List.length htaken.consumed
          rw [List.length_append, List.length_cons] at hlen
          exact ih (by omega) hrest

theorem readCounted_recorded {contentLength : CString}
    (h : readCounted contentLength io = .error rc io') : Recorded io' := by
  rw [readCounted] at h
  rcases bind_eq_error h with hbody | ⟨received, io₁, -, hrest⟩
  · exact recorded_onError (fun _ => recorded_statusSet (by decide +kernel)) hbody
  rcases bind_eq_error hrest with hend | ⟨endbuffer, io₂, -, hlast⟩
  · exact recorded_onError (fun _ => recorded_statusSet (by decide +kernel)) hend
  split at hlast
  · exact recorded_failWith (by decide +kernel) hlast
  · cases hlast

theorem readBody_recorded {command : CString} {headers : Hash}
    (h : readBody A command headers io = .error rc io') : Recorded io' := by
  rw [readBody] at h
  cases hlength : headers.lookup (.lit "content-length") with
  | some contentLength =>
      rw [hlength] at h
      rcases bind_eq_error h with hcounted | ⟨r, io₁, -, hrest⟩
      · exact readCounted_recorded hcounted
      · cases hrest
  | none =>
      rw [hlength] at h
      rcases bind_eq_error h with hbuffer | ⟨r, io₁, -, hrest⟩
      · exact recorded_onError (fun _ => recorded_statusSet (by decide +kernel)) hbuffer
      · cases hrest

/-- **A frame that cannot be read leaves a text of this call in the record.** -/
theorem stompRead_recorded (h : stompRead A io = .error rc io') : Recorded io' := by
  rw [stompRead] at h
  rcases bind_eq_error h with hline | ⟨⟨p, length⟩, io₁, -, hrest⟩
  · exact stompReadLine_recorded hline
  rcases bind_eq_error hrest with hget | ⟨io₂, io₃, hget, hblock⟩
  · cases hget
  obtain ⟨rfl, rfl⟩ := EStateM.Result.ok.inj hget
  rcases bind_eq_error hblock with hheaders | ⟨headers, io₄, -, hbody⟩
  · exact readHeaders_recorded (Nat.lt_succ_self _) hheaders
  · exact readBody_recorded hbody

end Functions

end LibStomp.Stream.ErrorTexts
