import LibStomp.Session.ReceivedBodies

/-!
# The codes of a receive

`stomp_receive` returns `STOMP_SUCCESS` for a frame whose command begins with
`MESSAGE`, but also when a read times out, and `STOMP_SUCCESS | STOMP_NO_DATA` when
the wait fails, whatever it fails with.  What a code promises is `Tells`; the states
in which the promise is kept are those of `Truthful`.

## Main results

* `frame_eq_iff` — when the frame a read returns is the one it took off the stream.
* `tells_iff` — the code of a receive tells what happened if and only if the state
  before it was such a one.
-/

namespace LibStomp.Session.ReceiveCodes

open LibStomp.Model
open LibStomp.Verified.Lines
open LibStomp.Stream.Grammar
open LibStomp.Stream.ReadLine
open LibStomp.Stream.ReadFrame
open LibStomp.Stream.ReadBody
open LibStomp.Stream.ReadSuccess
open LibStomp.Stream.ReadStatus
open LibStomp.Stream.Receiving
open LibStomp.Stream.WholeFrames
open LibStomp.Session.Steps
open LibStomp.Session.ReceivedBodies

/-! ## The frame on the stream and the frame that is returned -/

/-- The receives bring the payload of a frame with its end: a counted payload in one
piece, the newline behind the NUL of an uncounted one. -/
def Delivered (io : Io) (wire : WireFrame) : Prop :=
  match contentLength wire.lines with
  | some v =>
      pieceSize (io.socket.recvs.drop (headLength wire)) (announced v) = announced v
  | none => supply (advance (headLength wire + (wire.payload.length + 1)) io) ≠ []

/-- The body of the frame is the payload, with the NUL that ends it if it is not
counted. -/
theorem wire_body (wire : WireFrame) :
    ∃ j, wire.frame.body = some (wire.payload ++ List.replicate j nul) := by
  unfold WireFrame.frame denote
  cases contentLength wire.lines with
  | some v => exact ⟨0, by simp [frameOf]⟩
  | none => exact ⟨1, rfl⟩

theorem countP_ne_nul {s : Bytes} (h : nul ∉ s) : s.countP (· != nul) = s.length :=
  List.countP_eq_length.mpr fun _ hb => by simpa using ne_of_mem_of_not_mem hb h

theorem countP_replicate_nul (n : Nat) :
    (List.replicate n nul).countP (· != nul) = 0 :=
  List.countP_eq_zero.mpr fun _ hb => by simp [List.eq_of_mem_replicate hb]

/-- NULs at the end do not make up for octets in front. -/
theorem eq_nil_of_padded {s p : Bytes} {i j : Nat} (hs : nul ∉ s)
    (h : s ++ p ++ List.replicate i nul = p ++ List.replicate j nul) : s = [] := by
  have hcount := congrArg (List.countP (· != nul)) h
  rw [List.countP_append, List.countP_append, List.countP_append, countP_ne_nul hs,
    countP_replicate_nul, countP_replicate_nul] at hcount
  exact List.length_eq_zero_iff.mp (by omega)

theorem unwrapped_of_cutOff {wire : WireFrame} (h : cutOff wire.lines = []) :
    Unwrapped wire := by
  intro l hl
  have hkept := List.takeWhile_eq_self_iff.mp (linesRead_of_cutOff h) l hl
  simpa using hkept

/-- The head of a frame has this many octets. -/
theorem length_head {wire : WireFrame} {inbox t : Bytes} (hin : inbox = wire.bytes ++ t) :
    inbox.length - (wire.payload ++ nul :: lf :: t).length = headLength wire := by
  rw [hin, wire.bytes_append, headLength]
  simp only [List.length_append, List.length_cons]
  omega

/-- Where the newline of the end was taken, it was received: otherwise the stream would
be left in front of it. -/
private theorem newline_received {io : Io} {text payload : Bytes}
    (hend : endlineOf io (supply io) = lf)
    (h : text ++ nul :: lf :: (behindEnd (supply io) io).socket.inbox =
      payload ++ nul :: io.socket.inbox) :
    payload = text ∧ supply io ≠ [] := by
  by_cases hnone : supply io = []
  · have hinbox : (behindEnd (supply io) io).socket.inbox = io.socket.inbox := by
      rw [behindEnd, if_pos hnone]
      rfl
    rw [hinbox] at h
    have hends : text ++ [nul, lf] = payload ++ [nul] := by
      refine List.append_cancel_right (?_ : _ ++ io.socket.inbox = _)
      simpa using h
    have hlast : lf = nul := by simpa using congrArg List.getLast? hends
    exact absurd hlast (by decide)
  · obtain ⟨b, t, hsupply⟩ := List.exists_cons_of_ne_nil hnone
    have hb : b = lf := by rwa [hsupply] at hend
    subst hb
    have hinbox : io.socket.inbox = lf :: (behindEnd (supply io) io).socket.inbox := by
      obtain ⟨hin, -, -⟩ := supply_append (p := [lf]) hsupply
      rw [behindEnd, if_neg hnone]
      exact hin
    rw [hinbox] at h
    exact ⟨(List.append_cancel_right h).symm, hnone⟩

section Frames

variable {io io' : Io} {frame : Frame} {wire : WireFrame} (h : FrameRead io frame io')
include h

/-- When a read leaves the stream behind a text with its end, this text was received, in
one piece if it is counted and otherwise with the newline. -/
private theorem text_of_read {command last text : Bytes} {ls : List Bytes} {k : Nat}
    (hhead : scanHead io.socket.inbox =
      .head command ls last (text ++ nul :: lf :: io'.socket.inbox))
    (hk : k = io.socket.inbox.length - (text ++ nul :: lf :: io'.socket.inbox).length) :
    (∃ i, frame.body = some (text ++ List.replicate i nul)) ∧
      match contentLength ls with
      | some v => pieceSize (io.socket.recvs.drop k) (announced v) = text.length
      | none => supply (advance (k + (text.length + 1)) io) ≠ [] := by
  cases h with
  | @counted _ _ _ received _ _ v hhead' hv hrest hpos hpiece =>
      obtain ⟨-, rfl, -, rfl⟩ := HeadScan.head.inj (hhead.symm.trans hhead')
      obtain rfl := List.append_cancel_right hrest
      rw [← hk] at hpiece
      simp only [hv]
      exact ⟨⟨announced v - text.length, rfl⟩, hpiece.symm⟩
  | @uncounted io₁ _ _ payload _ _ hhead' hv hnul hrest hio hend =>
      obtain ⟨-, rfl, -, rfl⟩ := HeadScan.head.inj (hhead.symm.trans hhead')
      rw [← hk] at hio
      obtain ⟨rfl, hreceived⟩ := newline_received hend hrest
      rw [hio] at hreceived
      simp only [hv]
      exact ⟨⟨1, rfl⟩, hreceived⟩

/-- Such a read has read the whole head. -/
private theorem unwrapped_of_read
    (hin : io.socket.inbox = wire.bytes ++ io'.socket.inbox)
    (hframe : frame = wire.frame) : Unwrapped wire := by
  obtain ⟨last, hhead⟩ := scanHead_frameBytes wire.command_clean wire.lines_header hin
  obtain ⟨⟨i, hbody⟩, -⟩ := text_of_read h hhead rfl
  obtain ⟨j, hbody'⟩ := wire_body wire
  rw [hframe] at hbody
  exact unwrapped_of_cutOff (eq_nil_of_padded (nul_notMem_cutOff wire.lines_header)
    (Option.some.inj (hbody.symm.trans hbody')))

private theorem delivered_of_read
    (hin : io.socket.inbox = wire.bytes ++ io'.socket.inbox)
    (hunwrapped : Unwrapped wire) : Delivered io wire := by
  have hhead := scanHead_wire hunwrapped io'.socket.inbox
  rw [← hin] at hhead
  obtain ⟨-, hbrought⟩ := text_of_read h hhead (length_head hin).symm
  unfold Delivered
  cases hv : contentLength wire.lines with
  | some v =>
      rw [hv] at hbrought
      exact hbrought.trans (announced_of_payloadOk wire.payload_ok hv).symm
  | none =>
      rw [hv] at hbrought
      exact hbrought

/-- What the receives bring is read as the frame that is there. -/
private theorem frame_of_delivered {t : Bytes} (hin : io.socket.inbox = wire.bytes ++ t)
    (hunwrapped : Unwrapped wire) (hbrought : Delivered io wire) :
    io.socket.inbox = wire.bytes ++ io'.socket.inbox ∧ frame = wire.frame := by
  have hhead := scanHead_wire hunwrapped t
  rw [← hin] at hhead
  have hlength := length_head hin
  unfold Delivered at hbrought
  cases h with
  | @counted _ _ _ received _ _ v hhead' hv hrest hpos hpiece =>
      obtain ⟨rfl, rfl, -, rfl⟩ := HeadScan.head.inj (hhead.symm.trans hhead')
      have hsize := announced_of_payloadOk wire.payload_ok hv
      simp only [hv] at hbrought
      rw [hlength, hbrought, hsize] at hpiece
      obtain ⟨rfl, hmore⟩ := List.append_inj hrest.symm hpiece
      obtain ⟨-, rfl⟩ := List.cons.inj (List.cons.inj hmore).2
      refine ⟨hin, ?_⟩
      rw [WireFrame.frame, denote, hv, hsize]
      simp [padded]
  | @uncounted io₁ _ _ payload _ _ hhead' hv hnul hrest hio hend =>
      obtain ⟨rfl, rfl, -, rfl⟩ := HeadScan.head.inj (hhead.symm.trans hhead')
      simp only [hv] at hbrought
      obtain ⟨rfl, hmore⟩ := append_cons_inj (wire.payload_ok.nul_notMem hv) hnul hrest
      rw [hlength] at hio
      rw [← hio] at hbrought
      refine ⟨?_, ?_⟩
      · rw [hin, behindEnd, if_neg hbrought, advance_inbox, ← hmore]
        rfl
      · rw [WireFrame.frame, denote, hv]

/-- **The frame a read returns is the one it takes off the stream** if and only if the
code reads its head as it stands and is given its payload. -/
theorem frame_eq_iff :
    (io.socket.inbox = wire.bytes ++ io'.socket.inbox ∧ frame = wire.frame) ↔
      (∃ t, io.socket.inbox = wire.bytes ++ t) ∧ Unwrapped wire ∧
        Delivered io wire := by
  constructor
  · rintro ⟨hin, hframe⟩
    have hunwrapped := unwrapped_of_read h hin hframe
    exact ⟨⟨_, hin⟩, hunwrapped, delivered_of_read h hin hunwrapped⟩
  · rintro ⟨⟨t, hin⟩, hunwrapped, hbrought⟩
    exact frame_of_delivered h hin hunwrapped hbrought

end Frames

/-! ## The body in the message -/

/-- The body of the message object is the payload with nothing but NULs behind it, and
`message->size` covers it. -/
structure HoldsBody (message : Message) (payload : Bytes) : Prop where
  body : ∃ j, message.body = some (payload ++ List.replicate (j + 1) nul)
  size : payload.length ≤ message.size.toNat

/-- The copy keeps the payload: a counted one without a NUL but for its last octet, an
uncounted one whose length, its NUL included, is a `size_t`. -/
def Kept (wire : WireFrame) : Prop :=
  match contentLength wire.lines with
  | some _ => nul ∉ wire.payload.dropLast
  | none => wire.payload.length + 1 < 2 ^ 64

/-- A copied text holds what it is, and one NUL more where there is room. -/
theorem holdsBody_formatted {text payload : Bytes} {len : Nat} (hnul : nul ∉ text)
    (hle : text.length ≤ len) :
    HoldsBody (formatted text len) payload ↔
      (payload = text ∨ payload = text ++ [nul]) ∧ payload.length ≤ len ∧
        payload.length ≤ (text.length + 1) % 2 ^ 64 := by
  constructor
  · rintro ⟨⟨j, hbody⟩, hcovered⟩
    rw [formatted_size] at hcovered
    have hbytes := Option.some.inj hbody
    have hlen := congrArg List.length hbytes
    simp only [List.length_append, List.length_replicate] at hlen
    have hcount := congrArg (List.countP (· != nul)) hbytes
    rw [List.countP_append, List.countP_append, countP_ne_nul hnul,
      countP_replicate_nul, countP_replicate_nul] at hcount
    have hlonger := List.countP_le_length (p := (· != nul)) (l := payload)
    refine ⟨?_, by omega, hcovered⟩
    have hbegins : payload <+: text ++ [nul] := by
      refine List.prefix_of_prefix_length_le ⟨_, hbytes.symm⟩
        ⟨_, (padding_eq hle).symm⟩ ?_
      rw [List.length_append, List.length_singleton]
      omega
    rcases List.prefix_concat_iff.mp hbegins with hwhole | hbegins
    · exact .inr hwhole
    · exact .inl (hbegins.eq_of_length_le (by omega))
  · rintro ⟨rfl | rfl, hfits, hcovered⟩
    · refine ⟨⟨len - payload.length, ?_⟩, by rwa [formatted_size]⟩
      rw [show len - payload.length + 1 = len + 1 - payload.length by omega]
      rfl
    · rw [List.length_append, List.length_singleton] at hfits
      refine ⟨⟨len - text.length - 1, ?_⟩, by rwa [formatted_size]⟩
      rw [show len - text.length - 1 + 1 = len - text.length by omega, ← padding_eq hle]
      rfl

/-- The text of a payload is the payload but for one NUL at the end. -/
theorem eq_text_iff (payload : Bytes) :
    (payload = (CString.ofBuffer payload).bytes ∨
      payload = (CString.ofBuffer payload).bytes ++ [nul]) ↔ nul ∉ payload.dropLast := by
  rw [← prefix_text_iff, List.prefix_concat_iff, or_comm]
  refine or_congr_right ⟨fun h => ?_, fun h => ?_⟩
  · exact ⟨[], (List.append_nil _).trans h⟩
  · exact h.eq_of_length_le (List.takeWhile_sublist _).length_le

private theorem holdsBody_counted (payload : Bytes) (hsize : payload.length < 2 ^ 63) :
    HoldsBody (formatted (CString.ofBuffer payload).bytes payload.length) payload ↔
      nul ∉ payload.dropLast := by
  have hle : (CString.ofBuffer payload).bytes.length ≤ payload.length :=
    (List.takeWhile_sublist _).length_le
  rw [holdsBody_formatted (CString.nulFree _) hle, ← eq_text_iff]
  refine and_iff_left_of_imp fun htext => ⟨Nat.le_refl _, ?_⟩
  rcases htext with heq | heq
  · have hlen := congrArg List.length heq
    omega
  · have hlen := congrArg List.length heq
    rw [List.length_append, List.length_singleton] at hlen
    omega

private theorem holdsBody_uncounted {payload : Bytes} {len : Nat} (hnul : nul ∉ payload)
    (hlen : len = (payload.length + 1) % 2 ^ 64) :
    HoldsBody (formatted (payload.take len) len) payload ↔
      payload.length + 1 < 2 ^ 64 := by
  have hle : (payload.take len).length ≤ len := by
    rw [List.length_take]
    exact Nat.min_le_left _ _
  rw [holdsBody_formatted (fun hm => hnul (List.mem_of_mem_take hm)) hle]
  constructor
  · rintro ⟨-, hfits, -⟩
    omega
  · intro hfits
    rw [Nat.mod_eq_of_lt hfits] at hlen
    rw [hlen, List.take_of_length_le (by omega), Nat.mod_eq_of_lt hfits]
    exact ⟨.inl rfl, by omega, by omega⟩

/-- **The message holds the body of a frame that was returned** if and only if the copy
keeps it. -/
theorem holdsBody_iff_kept {io io' : Io} {frame : Frame} {wire : WireFrame} {t : Bytes}
    (h : FrameRead io frame io') (hin : io.socket.inbox = wire.bytes ++ t)
    (hunwrapped : Unwrapped wire) (hbrought : Delivered io wire) (message : Message) :
    HoldsBody (messageOf message frame) wire.payload ↔ Kept wire := by
  have hhead := scanHead_wire hunwrapped t
  rw [← hin] at hhead
  obtain ⟨len, hlen⟩ : ∃ len, len = copiedLength wire.lines
      (wire.payload ++ nul :: lf :: t) (io.socket.recvs.drop (headLength wire)) :=
    ⟨_, rfl⟩
  obtain ⟨hmessage, -, -⟩ := messageOf_of_read h hhead message
    (hlen.trans (by rw [length_head hin]))
  rw [hmessage, copied_append]
  unfold Delivered at hbrought
  unfold copiedLength at hlen
  unfold Kept copied
  cases hv : contentLength wire.lines with
  | some v =>
      simp only [hv] at hbrought hlen ⊢
      have hlength := wire.payload_ok.length_eq hv
      have hlt := aprAtoi64_lt v
      rw [hlen, hbrought, announced_of_payloadOk wire.payload_ok hv]
      exact holdsBody_counted wire.payload (by omega)
  | none =>
      have hnul := wire.payload_ok.nul_notMem hv
      simp only [hv] at hlen ⊢
      rw [ofBuffer_cons_nul, CString.strlen, ofBuffer_of_nulFree hnul] at hlen
      rw [ofBuffer_of_nulFree hnul, ← hlen]
      exact holdsBody_uncounted hnul hlen

/-! ## What a code promises -/

/-- What the code of a receive, which leaves the message object and the messenger as
`message` and `w'`, tells about it: the success that a `MESSAGE` frame was taken off the
stream and the object holds its body, the absence of data that the wait timed out and
nothing was taken, and a failure that it was neither. -/
def Tells (A : Apr) (endline : UInt8) (w : World) (socket : Socket)
    (code : StatusCode) (message : Message) (w' : World) : Prop :=
  match code with
  | .success => ∃ (wire : WireFrame) (w₁ : World) (socket' : Socket),
      wire.command = ascii "MESSAGE" ∧
        ReadStep A endline w socket (.frame wire.frame) w₁ ∧
        w₁.messenger.connection = some socket' ∧
        socket.inbox = wire.bytes ++ socket'.inbox ∧ HoldsBody message wire.payload
  | .successNoData => socket.waits.head? = some (some .timeup) ∧
      w'.messenger.connection.map (·.inbox) = some socket.inbox
  | .failure => socket.waits.head? ≠ some (some .timeup) ∧
      ∀ (wire : WireFrame) (w₁ : World), wire.command = ascii "MESSAGE" →
        ¬ ReadStep A endline w socket (.frame wire.frame) w₁
  | .noData => False

/-- The stream begins with a `MESSAGE` frame whose head has no line of a length that
narrows to zero, whose payload the receives bring, and whose body the copy keeps. -/
def MessageAhead (io : Io) : Prop :=
  ∃ (wire : WireFrame) (t : Bytes), io.socket.inbox = wire.bytes ++ t ∧
    wire.command = ascii "MESSAGE" ∧ Unwrapped wire ∧ Delivered io wire ∧ Kept wire

/-- The states in which the code of a receive tells what happens: a wait that fails times
out, the frame does not time out, and if it can be read and begins with `MESSAGE` there
is a message ahead. -/
def Truthful (io : Io) : Prop :=
  match io.socket.waits with
  | some rc :: _ => rc = .timeup
  | _ => readStatus io ≠ some .timeup ∧
      (readStatus io = none → ascii "MESSAGE" <+: io.socket.inbox → MessageAhead io)

/-- A stream begins with a text without a newline when its first line does. -/
theorem prefix_line_iff {p command rest : Bytes} (hp : lf ∉ p) :
    p <+: command ++ lf :: rest ↔ p <+: command := by
  refine ⟨fun h => ?_, fun h => h.trans (List.prefix_append _ _)⟩
  rcases Nat.lt_or_ge command.length p.length with hlt | hle
  · have hline : command ++ [lf] <+: command ++ lf :: rest :=
      ⟨rest, by rw [List.append_assoc]; rfl⟩
    have hshort := List.prefix_of_prefix_length_le hline h (by simp; omega)
    exact absurd (hshort.subset (by simp)) hp
  · exact List.prefix_of_prefix_length_le h (List.prefix_append _ _) hle

/-! ## One receive -/

/-- After a wait that does not fail only the frame matters. -/
theorem truthful_of_ready {io io' : Io} (h : stompIoCanRead io = (true, io')) :
    io.socket.waits.head? ≠ some (some .timeup) ∧
      (Truthful io ↔ readStatus io ≠ some .timeup ∧
        (readStatus io = none → ascii "MESSAGE" <+: io.socket.inbox →
          MessageAhead io)) := by
  obtain ⟨hwaits, -⟩ := stompIoCanRead_ready h
  unfold Truthful
  split
  · exact absurd ‹_› (hwaits _ _)
  · refine ⟨fun hhead => ?_, Iff.rfl⟩
    obtain ⟨rest, hrest⟩ := List.head?_eq_some_iff.mp hhead
    exact hwaits _ _ hrest

/-- Readings in the same state are the same. -/
theorem readStep_frame_unique {A : Apr} {endline : UInt8} {w w₁ w₂ : World}
    {socket : Socket} {f : Frame} {r : Reading}
    (hf : ReadStep A endline w socket (.frame f) w₁)
    (hr : ReadStep A endline w socket r w₂) : r = .frame f ∧ w₂ = w₁ := by
  cases hf with
  | frame hwait hread =>
      cases hr with
      | notReady hwait' => cases hwait.symm.trans hwait'
      | failed hwait' hread' =>
          obtain ⟨-, rfl⟩ := Prod.mk.inj (hwait.symm.trans hwait')
          cases hread.symm.trans hread'
      | frame hwait' hread' =>
          obtain ⟨-, rfl⟩ := Prod.mk.inj (hwait.symm.trans hwait')
          obtain ⟨rfl, rfl⟩ := EStateM.Result.ok.inj (hread.symm.trans hread')
          exact ⟨rfl, rfl⟩

section Receive

variable {A : Apr} {endline : UInt8} {w w₁ : World} {socket : Socket}
variable {message : Message} {frame : Frame}

/-- A reading that was ready was made after such a wait. -/
theorem truthful_of_reading {r : Reading} (hread : ReadStep A endline w socket r w₁)
    (hready : r ≠ .notReady) :
    socket.waits.head? ≠ some (some .timeup) ∧
      (Truthful (w.toIo endline socket) ↔
        readStatus (w.toIo endline socket) ≠ some .timeup ∧
        (readStatus (w.toIo endline socket) = none →
          ascii "MESSAGE" <+: socket.inbox → MessageAhead (w.toIo endline socket))) := by
  cases hread with
  | notReady => exact absurd rfl hready
  | failed hwait => exact truthful_of_ready hwait
  | frame hwait => exact truthful_of_ready hwait

/-- The command of a frame that was read is that of a message when the stream says so. -/
private theorem startsWith_iff (hread : ReadStep A endline w socket (.frame frame) w₁) :
    frame.command.startsWith (.lit "MESSAGE") = true ↔
      ascii "MESSAGE" <+: socket.inbox := by
  obtain ⟨io, hstomp, -⟩ := ReadStep.of_frame hread
  obtain ⟨command, ls, last, rest, hhead, hcommand, -⟩ :=
    (frameRead_of_stompRead A hstomp).head
  obtain ⟨hin, hclean, -⟩ := scanHead_text hhead
  have hinbox : socket.inbox = command ++ lf :: (joinLines lf ls ++ last ++ lf :: rest) :=
    hin
  rw [hinbox, prefix_line_iff (by decide), hcommand, CString.startsWith,
    List.isPrefixOf_iff_prefix, ofBuffer_of_nulFree hclean.2]
  rfl

/-- A success after a frame was read. -/
private theorem tells_success_iff {w' : World}
    (hread : ReadStep A endline w socket (.frame frame) w₁) :
    Tells A endline w socket .success (messageOf message frame) w' ↔
      MessageAhead (w.toIo endline socket) := by
  obtain ⟨io, hstomp, rfl⟩ := ReadStep.of_frame hread
  have hfound := frameRead_of_stompRead A hstomp
  constructor
  · rintro ⟨wire, w₂, socket', hcommand, hread', hsocket, hin, hbody⟩
    obtain ⟨hsame, rfl⟩ := readStep_frame_unique hread hread'
    obtain rfl : socket' = io.socket := (Option.some.inj hsocket).symm
    obtain ⟨-, hunwrapped, hbrought⟩ :=
      (frame_eq_iff hfound).mp ⟨hin, (Reading.frame.inj hsame).symm⟩
    exact ⟨wire, _, hin, hcommand, hunwrapped, hbrought,
      (holdsBody_iff_kept hfound hin hunwrapped hbrought message).mp hbody⟩
  · rintro ⟨wire, t, hin, hcommand, hunwrapped, hbrought, hkept⟩
    have hbody :=
      (holdsBody_iff_kept hfound hin hunwrapped hbrought message).mpr hkept
    obtain ⟨hin', rfl⟩ := (frame_eq_iff hfound).mpr ⟨⟨t, hin⟩, hunwrapped, hbrought⟩
    exact ⟨wire, _, io.socket, hcommand, hread, rfl, hin', hbody⟩

private theorem tells_iff_truthful {message' : Message} {code : StatusCode} {w' : World}
    (h : Received A endline w socket message code message' w') :
    Tells A endline w socket code message' w' ↔ Truthful (w.toIo endline socket) := by
  cases h with
  | noData hread =>
      cases hread with
      | notReady hwait =>
          obtain ⟨rc, rest, hwaits⟩ := stompIoCanRead_notReady hwait
          have hwaits' : socket.waits = some rc :: rest := hwaits
          unfold Tells Truthful
          rw [hwaits, hwaits']
          simp only [List.head?_cons, Option.some.injEq]
          refine and_iff_left ?_
          show some _ = some socket.inbox
          rw [(socket_of_stompIoCanRead hwait).1]
          rfl
  | message hread hcommand =>
      have hbegins := (startsWith_iff hread).mp hcommand
      rw [tells_success_iff hread, (truthful_of_reading hread nofun).2,
        readStatus_of_frame hread]
      exact ⟨fun hahead => ⟨nofun, fun _ _ => hahead⟩, fun h => h.2 rfl hbegins⟩
  | foreign hread hcommand =>
      have hbegins := mt (startsWith_iff hread).mpr
        (by rw [hcommand]; exact Bool.false_ne_true)
      obtain ⟨hwaits, htruthful⟩ := truthful_of_reading hread nofun
      rw [htruthful, readStatus_of_frame hread]
      refine iff_of_true ⟨hwaits, fun wire w₂ hmessage hread' => ?_⟩
        ⟨nofun, fun _ hm => absurd hm hbegins⟩
      obtain ⟨hsame, -⟩ := readStep_frame_unique hread hread'
      obtain rfl := (Reading.frame.inj hsame).symm
      rw [WireFrame.frame, denote_command, hmessage] at hcommand
      exact absurd hcommand (by decide)
  | timeup hread =>
      rw [(truthful_of_reading hread nofun).2, readStatus_of_failed hread]
      refine iff_of_false ?_ fun h => h.1 rfl
      rintro ⟨wire, w₂, socket', -, hread', -⟩
      obtain ⟨hsame, -⟩ := readStep_frame_unique hread' hread
      cases hsame
  | failed hread hrc =>
      obtain ⟨hwaits, htruthful⟩ := truthful_of_reading hread nofun
      rw [htruthful, readStatus_of_failed hread]
      refine iff_of_true ⟨hwaits, fun wire w₂ _ hread' => ?_⟩
        ⟨fun h => hrc (Option.some.inj h), nofun⟩
      obtain ⟨hsame, -⟩ := readStep_frame_unique hread' hread
      cases hsame

end Receive

/-- **The code of a receive tells what happened exactly in the truthful states**, for
every messenger and message object and every behaviour of the socket. -/
theorem tells_iff (A : Apr) (net : Net) (w w' : World) (socket : Socket)
    (message message' : Message) (code : StatusCode)
    (hsocket : w.messenger.connection = some socket)
    (h : stompReceive A net message w = some (code, message', w')) :
    Tells A net.endline w socket code message' w' ↔
      Truthful (w.toIo net.endline socket) := by
  obtain ⟨socket₁, hsocket₁, hreceived⟩ := received_of_receive h
  obtain rfl := Option.some.inj (hsocket.symm.trans hsocket₁)
  exact tells_iff_truthful hreceived

/-- A message whose body is `abc` is told as such. -/
theorem tells_abc :
    ∃ message' w', stompReceive .sample (.quiet []) stompMessageCreate
        (reading (countedMessage (ascii "abc") rfl).bytes) =
          some (.success, message', w') ∧
      Tells .sample 0 (reading (countedMessage (ascii "abc") rfl).bytes)
        (Io.fresh (countedMessage (ascii "abc") rfl).bytes).socket .success message' w' := by
  obtain ⟨w', hrun⟩ := receive_reading (.quiet []) stompMessageCreate
    (countedMessage (ascii "abc") rfl) (by decide) (by decide) (by decide)
  refine ⟨_, w', hrun, (tells_iff .sample (.quiet []) _ _ _ _ _ _ rfl hrun).mpr ?_⟩
  refine ⟨by decide, fun _ _ => ⟨countedMessage (ascii "abc") rfl, [],
    (List.append_nil _).symm, rfl, by decide, ?_, ?_⟩⟩
  · rfl
  · show nul ∉ (ascii "abc").dropLast
    decide

/-- The peer has sent the beginning of a frame and falls silent. -/
def stalled : World :=
  (stompMessengerInit 0).withIo
    { Io.fresh (ascii "MES") with
      socket := { (Io.fresh (ascii "MES")).socket with atEnd := .timeup } }

/-- That is told as a success. -/
theorem tells_fails :
    ¬ ∀ (A : Apr) (net : Net) (w w' : World) (socket : Socket)
      (message message' : Message) (code : StatusCode),
        w.messenger.connection = some socket →
        stompReceive A net message w = some (code, message', w') →
          Tells A net.endline w socket code message' w' := by
  intro h
  obtain ⟨socket, hsocket⟩ : ∃ socket, stalled.messenger.connection = some socket :=
    ⟨_, rfl⟩
  have hstatus : readStatus (stalled.toIo nul socket) = some .timeup := by
    obtain rfl := Option.some.inj hsocket
    decide
  have hframe := readFrame_ready .sample nul hsocket (by cases hsocket; rfl)
  have herror := statusOf_stompRead .sample (stalled.toIo nul socket)
  rw [hstatus] at herror
  cases hread : stompRead .sample (stalled.toIo nul socket) with
  | ok frame io =>
      rw [hread] at herror
      cases herror
  | error rc io =>
      rw [hread] at herror hframe
      obtain rfl : rc = .timeup := Option.some.inj herror
      have hrun : stompReceive .sample (.quiet []) stompMessageCreate stalled =
          some (.success, stompMessageCreate, stalled.withIo io) := by
        unfold stompReceive
        rw [show (Net.quiet []).endline = nul from rfl, hframe]
        rfl
      have htells := h _ _ _ _ _ _ _ _ hsocket hrun
      obtain ⟨socket₁, hsocket₁, hreceived⟩ := received_of_receive hrun
      obtain rfl := Option.some.inj (hsocket.symm.trans hsocket₁)
      obtain rfl := Option.some.inj hsocket
      exact ((tells_iff_truthful hreceived).mp htells).1 hstatus

end LibStomp.Session.ReceiveCodes
