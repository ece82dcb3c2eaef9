import LibStomp.Stream.Grammar
import LibStomp.Stream.SendCalls

/-!
# What `stomp_write` does

`stomp_write` sends a frame in many small buffers and gives up at the first send
that fails.  Its bytes are those of the grammar: `encode`.  What a caller needs to
know of the calls it makes is `Writes`: they append these bytes to those the peer
has accepted, or fail after a proper prefix of them; nothing else of the state
that a later call reads is touched.

## Main results

* `stompWrite_exact` — the calls of `stomp_write`, for every schedule of partial
  and failing sends.
* `stompWrite_writes` — the same without the calls.
-/

namespace LibStomp.Stream.WriteFrame

open LibStomp.Model
open LibStomp.Verified.Lines
open LibStomp.Stream.Grammar
open LibStomp.Stream.ReadLine
open LibStomp.Stream.SendCalls

/-! ## What is accepted -/

/-- No scheduled send fails. -/
def Sending (io : Io) : Prop :=
  ∀ turn ∈ io.socket.sends, ∃ extra, turn = .upTo extra

/-- `io'` is `io` after the peer has accepted `sent`. -/
structure Accepted (io io' : Io) (sent : Bytes) : Prop where
  state : ∃ sends error, io' =
    { io with
      socket :=
        { io.socket with outbox := io.socket.outbox ++ sent, sends := sends }
      error := error }
  sends : io'.socket.sends <:+ io.socket.sends

theorem Accepted.outbox {io io' : Io} {sent : Bytes} (h : Accepted io io' sent) :
    io'.socket.outbox = io.socket.outbox ++ sent := by
  obtain ⟨⟨sends, error, rfl⟩, -⟩ := h
  rfl

theorem Accepted.inbox {io io' : Io} {sent : Bytes} (h : Accepted io io' sent) :
    io'.socket.inbox = io.socket.inbox := by
  obtain ⟨⟨sends, error, rfl⟩, -⟩ := h
  rfl

theorem Accepted.recvs {io io' : Io} {sent : Bytes} (h : Accepted io io' sent) :
    io'.socket.recvs = io.socket.recvs := by
  obtain ⟨⟨sends, error, rfl⟩, -⟩ := h
  rfl

theorem Accepted.endline {io io' : Io} {sent : Bytes} (h : Accepted io io' sent) :
    io'.endline = io.endline := by
  obtain ⟨⟨sends, error, rfl⟩, -⟩ := h
  rfl

theorem Accepted.waits {io io' : Io} {sent : Bytes} (h : Accepted io io' sent) :
    io'.socket.waits = io.socket.waits := by
  obtain ⟨⟨sends, error, rfl⟩, -⟩ := h
  rfl

/-- `x` appends `bs` to what the peer has accepted, or fails after accepting a
proper prefix, and fails only when a scheduled send does. -/
def Writes (x : IoM Unit) (bs : Bytes) : Prop :=
  ∀ io,
    (∃ io', x io = .ok () io' ∧ Accepted io io' bs) ∨
    (∃ rc io' sent more, x io = .error rc io' ∧ bs = sent ++ more ∧ more ≠ [] ∧
      Accepted io io' sent ∧ ¬ Sending io)

section Outcomes

variable {x : IoM Unit} {bs : Bytes} (hx : Writes x bs) {io io' : Io}
include hx

/-- A success means that everything was accepted. -/
theorem Writes.accepted (h : x io = .ok () io') : Accepted io io' bs := by
  rcases hx io with ⟨io'', hok, hacc⟩ | ⟨rc, io'', sent, more, herror, -⟩
  · obtain rfl := (EStateM.Result.ok.inj (h.symm.trans hok)).2
    exact hacc
  · cases h.symm.trans herror

/-- A failure leaves out the end. -/
theorem Writes.cut {rc : AprError} (h : x io = .error rc io') :
    ∃ sent more, bs = sent ++ more ∧ more ≠ [] ∧ Accepted io io' sent ∧
      ¬ Sending io := by
  rcases hx io with ⟨io'', hok, -⟩ | ⟨rc', io'', sent, more, herror, hrest⟩
  · cases h.symm.trans hok
  · obtain rfl := (EStateM.Result.error.inj (h.symm.trans herror)).2
    exact ⟨sent, more, hrest⟩

/-- If no send fails there is no failure. -/
theorem Writes.completes (hs : Sending io) :
    ∃ io', x io = .ok () io' ∧ Accepted io io' bs := by
  rcases hx io with hok | ⟨rc, io', sent, more, -, -, -, -, hno⟩
  · exact hok
  · exact absurd hs hno

end Outcomes

/-- What the calls got accepted is in the outbox. -/
theorem accepted_of_sent {io io' : Io} {cs : List SendCall} (h : Sent io cs io') :
    Accepted io io' (acceptedBytes cs) := by
  obtain ⟨hsocket, hsends⟩ := h.calls.socket
  refine ⟨⟨io'.socket.sends, io'.error, ?_⟩, hsends⟩
  rw [← hsocket, ← h.endline]

/-- Whoever counts the calls knows what was accepted. -/
theorem writes_of_sends {x : IoM Unit} {bs : Bytes} (h : Sends x bs) :
    Writes x bs := by
  intro io
  rcases h io with ⟨cs, io', hok, hsent, -, rfl⟩ |
    ⟨cs, data, rc, io', sent, more, herror, hsent, ⟨-, rfl⟩, hsplit, hmore⟩
  · exact .inl ⟨io', hok, accepted_of_sent hsent⟩
  · refine .inr ⟨rc, io', _, more, herror, hsplit, hmore, ?_, fun hs => ?_⟩
    · rw [← acceptedBytes_failed cs data rc]
      exact accepted_of_sent hsent
    · obtain ⟨extra, hextra⟩ := hs _ (hsent.calls.fail_mem
        (List.mem_append_right _ (List.mem_singleton_self _)))
      cases hextra

/-! ## A frame -/

/-- The header line of a table entry. -/
def headerLine (h : Header) : Bytes := h.1.bytes ++ colon :: h.2.bytes

/-- The header line `stomp_write` adds. -/
def lengthLine (frame : Frame) : Bytes :=
  ascii "content-length:" ++ (aprItoa (announcedLength frame)).bytes

theorem natAbs_announcedLength_le (frame : Frame) :
    (announcedLength frame).natAbs ≤ 2 ^ 31 := by
  unfold announcedLength
  cases frame.body with
  | none => exact natAbs_cInt_le _
  | some body =>
      simp only []
      split <;> exact natAbs_cInt_le _

/-- The line `stomp_write` adds is short. -/
theorem wraps_lengthLine (frame : Frame) : wraps (lengthLine frame) = false := by
  have hlen := length_aprItoa_le (natAbs_announcedLength_le frame)
  have hname : (ascii "content-length:").length = 15 := by decide
  refine wraps_of_short ?_ ?_
  · intro h
    have := congrArg List.length h
    rw [lengthLine, List.length_append, hname, List.length_nil] at this
    omega
  · rw [lengthLine, List.length_append, hname]
    unfold CString.strlen at hlen
    omega

/-- The header lines of a frame, in the order they are written. -/
def headerLines (O : HashOrder) (frame : Frame) : List Bytes :=
  match frame.headers with
  | some headers => (O.iter headers).map headerLine ++ [lengthLine frame]
  | none => []

/-- The octets of the body that are written. -/
def sentBody (frame : Frame) : Bytes :=
  match frame.body with
  | some body => body.take (toSize (sentLength frame body)).toNat
  | none => []

/-- The bytes `stomp_write` sends for a frame. -/
def encode (O : HashOrder) (frame : Frame) : Bytes :=
  frameBytes frame.command.bytes (headerLines O frame) (sentBody frame)

private theorem writeHeaders_sends (A : Apr) (headers : List Header) :
    Sends (writeHeaders A headers) (joinLines lf (headers.map headerLine)) := by
  induction headers with
  | nil => exact sends_pure
  | cons h rest ih =>
      have hline :=
        (((ih.buffer A [lf]).buffer A h.2.bytes).buffer A [colon]).buffer A
          h.1.bytes
      exact hline.of_eq (by simp [joinLines, headerLine])

theorem writeFrame_sends (A : Apr) (O : HashOrder) (frame : Frame) :
    Sends (writeFrame A O frame) (encode O frame) := by
  have hend := stompWriteBuffer_sends A [nul, lf]
  unfold writeFrame encode frameBytes
  cases hh : frame.headers with
  | none =>
      cases hb : frame.body with
      | none =>
          simp only [headerLines, sentBody, hh, hb]
          have hframe :=
            ((hend.buffer A [lf]).buffer A [lf]).buffer A frame.command.bytes
          exact hframe.of_eq (by simp)
      | some body =>
          simp only [headerLines, sentBody, hh, hb]
          have hbody :=
            hend.buffer A (body.take (toSize (sentLength frame body)).toNat)
          have hframe :=
            ((hbody.buffer A [lf]).buffer A [lf]).buffer A frame.command.bytes
          exact hframe.of_eq (by simp)
  | some headers =>
      have hheaders := writeHeaders_sends A (O.iter headers)
      cases hb : frame.body with
      | none =>
          simp only [headerLines, sentBody, hh, hb]
          have hblank := (hend.buffer A [lf]).buffer A [lf]
          have hlength :=
            (hblank.buffer A (aprItoa (announcedLength frame)).bytes).buffer A
              (ascii "content-length:")
          have hframe :=
            ((hheaders.bind hlength).buffer A [lf]).buffer A frame.command.bytes
          exact hframe.of_eq (by simp [joinLines, lengthLine])
      | some body =>
          simp only [headerLines, sentBody, hh, hb]
          have hbody :=
            hend.buffer A (body.take (toSize (sentLength frame body)).toNat)
          have hblank := (hbody.buffer A [lf]).buffer A [lf]
          have hlength :=
            (hblank.buffer A (aprItoa (announcedLength frame)).bytes).buffer A
              (ascii "content-length:")
          have hframe :=
            ((hheaders.bind hlength).buffer A [lf]).buffer A frame.command.bytes
          exact hframe.of_eq (by simp [joinLines, lengthLine])

theorem stompWrite_sends (A : Apr) (O : HashOrder) (frame : Frame) :
    Sends (stompWrite A O frame) (encode O frame) :=
  (writeFrame_sends A O frame).onError fun _ _ => ⟨_, rfl⟩

/-- **`stomp_write` sends the encoding of the frame or a proper prefix of it**, and
says which. -/
theorem stompWrite_writes (A : Apr) (O : HashOrder) (frame : Frame) :
    Writes (stompWrite A O frame) (encode O frame) :=
  writes_of_sends (stompWrite_sends A O frame)

/-- **Writing is exact under partial sends.**  Whatever the schedule, the bytes the
calls of `stomp_write` get accepted, one call after another, are a prefix of the
encoding; either this is all of it, no call failed and `stomp_write` succeeds, or
it is not, and `stomp_write` returns the status of the only call that failed, the
last one it made. -/
theorem stompWrite_exact (A : Apr) (O : HashOrder) (frame : Frame) (io : Io) :
    ∃ cs io', Calls io.socket cs io'.socket ∧
      io'.socket.outbox = io.socket.outbox ++ acceptedBytes cs ∧
      acceptedBytes cs <+: encode O frame ∧
      ((stompWrite A O frame io = .ok () io' ∧
          acceptedBytes cs = encode O frame ∧ ∀ c ∈ cs, c.Succeeds) ∨
        ∃ rc before data, stompWrite A O frame io = .error rc io' ∧
          acceptedBytes cs ≠ encode O frame ∧
          cs = before ++ [⟨data, .error rc⟩] ∧ ∀ c ∈ before, c.Succeeds) := by
  rcases stompWrite_sends A O frame io with
    ⟨cs, io', hok, hsent, hall, hbytes⟩ |
    ⟨cs, data, rc, io', sent, more, herror, hsent, ⟨hall, hbytes⟩, hsplit, hmore⟩
  · exact ⟨cs, io', hsent.calls, (accepted_of_sent hsent).outbox,
      hbytes ▸ List.prefix_refl _, .inl ⟨hok, hbytes, hall⟩⟩
  · have hfailed := (acceptedBytes_failed cs data rc).trans hbytes
    refine ⟨_, io', hsent.calls, (accepted_of_sent hsent).outbox, ?_,
      .inr ⟨rc, cs, data, herror, ?_, rfl, hall⟩⟩
    · rw [hfailed, hsplit]
      exact List.prefix_append _ _
    · rw [hfailed, hsplit]
      simpa using hmore

end LibStomp.Stream.WriteFrame
