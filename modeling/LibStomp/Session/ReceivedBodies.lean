import LibStomp.Session.Steps
import LibStomp.Stream.ReadStatus
import LibStomp.Stream.ReadSuccess
import LibStomp.Stream.WholeFrames

/-!
# The body of a received message

`stomp_receive` hands the body of a frame, a counted buffer, to
`stomp_message_format`, which copies it with `strncpy` and measures the copy with
`strlen`.  What arrives in the message object is therefore the text in front of the
first NUL of what `stomp_read` took for the body.

## Main results

* `holdsPayload_iff` — when the octets of a counted body arrive in the message.
-/

namespace LibStomp.Session.ReceivedBodies

open LibStomp.Model
open LibStomp.Verified.Lines
open LibStomp.Stream.Grammar
open LibStomp.Stream.ReadLine
open LibStomp.Stream.ReadFrame
open LibStomp.Stream.ReadBody
open LibStomp.Stream.ReadSuccess
open LibStomp.Stream.ReadStatus
open LibStomp.Stream.Receiving
open LibStomp.Stream.WholeFrames
open LibStomp.Session.Steps

/-! ## The copy -/

/-- The first octets of `message->body` are the payload, and `message->size` covers
them. -/
def HoldsPayload (message : Message) (payload : Bytes) : Prop :=
  ∃ body, message.body = some body ∧ body.take payload.length = payload ∧
    payload.length ≤ message.size.toNat

/-- The message object after a text was copied out of a buffer of `len` octets. -/
def formatted (text : Bytes) (len : Nat) : Message where
  size := UInt64.ofNat (text.length + 1)
  body := some (text ++ List.replicate (len + 1 - text.length) nul)

theorem stompMessageFormat_eq (message : Message) (data : Bytes) (len : UInt64) :
    stompMessageFormat message data len =
      formatted (CString.ofBuffer (data.take len.toNat)).bytes len.toNat := rfl

/-- There is room for one octet behind the text, and it is a NUL. -/
theorem padding_eq {text : Bytes} {len : Nat} (hle : text.length ≤ len) :
    text ++ List.replicate (len + 1 - text.length) nul =
      (text ++ [nul]) ++ List.replicate (len - text.length) nul := by
  rw [show len + 1 - text.length = len - text.length + 1 by omega,
    List.replicate_succ, List.append_assoc, List.singleton_append]

theorem formatted_size (text : Bytes) (len : Nat) :
    (formatted text len).size.toNat = (text.length + 1) % 2 ^ 64 :=
  UInt64.toNat_ofNat'

/-- A copied text shows a payload that it begins with, the NUL behind it included. -/
theorem holdsPayload_formatted {text payload : Bytes} {len : Nat}
    (hle : text.length ≤ len) (hlt : len < 2 ^ 64) (hne : payload ≠ []) :
    HoldsPayload (formatted text len) payload ↔
      payload <+: text ++ [nul] ∧ text.length + 1 < 2 ^ 64 := by
  have hpos : 0 < payload.length := List.length_pos_iff.mpr hne
  constructor
  · rintro ⟨body, hbody, htake, hcovered⟩
    obtain rfl := Option.some.inj hbody
    rw [formatted_size] at hcovered
    refine ⟨?_, by omega⟩
    rw [padding_eq hle] at htake
    refine List.prefix_of_prefix_length_le (htake ▸ List.take_prefix _ _)
      (List.prefix_append _ _) ?_
    rw [List.length_append, List.length_singleton]
    omega
  · rintro ⟨hbegins, hfits⟩
    have hlen := hbegins.length_le
    rw [List.length_append, List.length_singleton] at hlen
    refine ⟨_, rfl, ?_, by rw [formatted_size]; omega⟩
    rw [padding_eq hle]
    exact (List.prefix_iff_eq_take.mp (hbegins.trans (List.prefix_append _ _))).symm

/-! ## The text that is copied -/

/-- The text that is copied when the body is looked for at `rest`, behind the header
block `ls`.  The length of an uncounted body, its NUL included, is a `size_t`. -/
def copied (ls : List Bytes) (rest : Bytes) : Bytes :=
  let text := (CString.ofBuffer rest).bytes
  match contentLength ls with
  | some _ => text
  | none => text.take ((text.length + 1) % 2 ^ 64)

/-- The length with which it is copied, when the receives are scheduled as `turns`. -/
def copiedLength (ls : List Bytes) (rest : Bytes) (turns : List Turn) : Nat :=
  match contentLength ls with
  | some v => pieceSize turns (announced v)
  | none => ((CString.ofBuffer rest).strlen + 1) % 2 ^ 64

/-- What is behind a NUL is not copied. -/
theorem copied_append (ls : List Bytes) (s u : Bytes) :
    copied ls (s ++ nul :: u) = copied ls s := by
  unfold copied
  rw [ofBuffer_cons_nul]

/-- The copy of a buffer that was received. -/
private theorem messageOf_padded (message : Message) (command : CString)
    (headers : Hash) (n : Nat) {received : Bytes} (hlt : received.length < 2 ^ 64) :
    messageOf message (frameOf command headers (padded n received) received.length) =
      formatted (CString.ofBuffer received).bytes received.length := by
  have hsize : (UInt64.ofNat received.length).toNat = received.length := by
    rw [UInt64.toNat_ofNat']
    omega
  have hdata : (padded n received).take received.length = received := by
    rw [padded, List.take_left]
  rw [messageOf, frameOf, stompMessageFormat_eq, hsize]
  show formatted (CString.ofBuffer ((padded n received).take _)).bytes _ = _
  rw [hdata]

/-- The copy of a text with its NUL. -/
private theorem messageOf_terminated (message : Message) (command : CString)
    (headers : Hash) {payload : Bytes} {len : Nat} (hnul : nul ∉ payload)
    (hlen : len = (payload.length + 1) % 2 ^ 64) :
    messageOf message
        (frameOf command headers (payload ++ [nul]) (payload.length + 1)) =
      formatted (payload.take len) len := by
  have hdata : (CString.ofBuffer ((payload ++ [nul]).take len)).bytes =
      payload.take len := by
    rcases Nat.lt_or_ge payload.length len with hlt | hge
    · rw [List.take_of_length_le (by simp; omega), ofBuffer_terminated,
        ofBuffer_of_nulFree hnul, List.take_of_length_le (Nat.le_of_lt hlt)]
    · rw [List.take_append_of_le_length hge]
      exact ofBuffer_of_nulFree fun hm => hnul (List.mem_of_mem_take hm)
  rw [messageOf, frameOf, stompMessageFormat_eq, UInt64.toNat_ofNat', ← hlen]
  show formatted (CString.ofBuffer ((payload ++ [nul]).take len)).bytes len = _
  rw [hdata]

/-- **What a frame that was read leaves in the message object.** -/
theorem messageOf_of_read {io io' : Io} {frame : Frame} (h : FrameRead io frame io')
    {command last rest : Bytes} {ls : List Bytes}
    (hhead : scanHead io.socket.inbox = .head command ls last rest)
    (message : Message) {len : Nat}
    (hlen : len = copiedLength ls rest
      (io.socket.recvs.drop (io.socket.inbox.length - rest.length))) :
    messageOf message frame = formatted (copied ls rest) len ∧
      (copied ls rest).length ≤ len ∧ len < 2 ^ 64 := by
  cases h with
  | @counted _ _ _ received _ _ v hhead' hv hrest hpos hpiece =>
      obtain ⟨-, rfl, -, rfl⟩ := HeadScan.head.inj (hhead.symm.trans hhead')
      have hcopied : copied ls rest = (CString.ofBuffer received).bytes := by
        rw [hrest, copied_append]
        unfold copied
        rw [hv]
      have hlength : len = received.length := by
        rw [hlen, hpiece, copiedLength, hv]
      have hlt : received.length < 2 ^ 64 :=
        calc received.length ≤ announced v := hpiece ▸ pieceSize_le _ _
          _ < 2 ^ 64 := (toSize (aprAtoi64 v)).toNat_lt
      rw [hcopied, hlength]
      exact ⟨messageOf_padded message _ _ _ hlt, (List.takeWhile_sublist _).length_le,
        hlt⟩
  | @uncounted io₁ _ _ payload _ _ hhead' hv hnul hrest hio hend =>
      obtain ⟨-, rfl, -, rfl⟩ := HeadScan.head.inj (hhead.symm.trans hhead')
      have htext : (CString.ofBuffer rest).bytes = payload := by
        rw [hrest, ofBuffer_cons_nul, ofBuffer_of_nulFree hnul]
      have hlength : len = (payload.length + 1) % 2 ^ 64 := by
        rw [hlen, copiedLength, hv, CString.strlen, htext]
      have hcopied : copied ls rest = payload.take len := by
        unfold copied
        simp only [hv, htext, hlength]
      rw [hcopied, List.length_take]
      exact ⟨messageOf_terminated message _ _ hnul hlength, Nat.min_le_left _ _,
        by omega⟩

/-- A text is copied whole if nothing but its last octet is a NUL. -/
theorem prefix_text_iff (payload : Bytes) :
    payload <+: (CString.ofBuffer payload).bytes ++ [nul] ↔ nul ∉ payload.dropLast := by
  rw [List.prefix_concat_iff]
  constructor
  · rintro (hwhole | hbegins)
    · rw [hwhole, List.dropLast_concat]
      exact CString.nulFree _
    · exact fun hm => CString.nulFree _
        (hbegins.subset ((List.dropLast_sublist payload).subset hm))
  · intro hnul
    rcases List.eq_nil_or_concat payload with rfl | ⟨front, b, rfl⟩
    · exact .inr List.nil_prefix
    rw [List.concat_eq_append, List.dropLast_concat] at hnul
    rw [List.concat_eq_append]
    by_cases hb : b = nul
    · subst hb
      rw [ofBuffer_terminated, ofBuffer_of_nulFree hnul]
      exact .inl rfl
    · rw [ofBuffer_of_nulFree fun hm => ?_]
      · exact .inr List.prefix_rfl
      · rcases List.mem_append.mp hm with hm | hm
        · exact hnul hm
        · exact hb (List.mem_singleton.mp hm).symm

/-! ## One receive -/

/-- A frame was read in the state after the wait. -/
theorem ReadStep.of_frame {A : Apr} {endline : UInt8} {w w' : World}
    {socket : Socket} {frame : Frame}
    (h : ReadStep A endline w socket (.frame frame) w') :
    ∃ io, stompRead A (afterWait (w.toIo endline socket)) = .ok frame io ∧
      w' = w.withIo io := by
  cases h with
  | frame hwait hread => exact ⟨_, (stompIoCanRead_ready hwait).2 ▸ hread, rfl⟩

theorem ReadStep.of_failed {A : Apr} {endline : UInt8} {w w' : World}
    {socket : Socket} {rc : AprError}
    (h : ReadStep A endline w socket (.failed rc) w') :
    ∃ io, stompRead A (afterWait (w.toIo endline socket)) = .error rc io ∧
      w' = w.withIo io := by
  cases h with
  | failed hwait hread => exact ⟨_, (stompIoCanRead_ready hwait).2 ▸ hread, rfl⟩

/-- The status of the read that was made, on which the wait has no influence. -/
theorem readStatus_of_frame {A : Apr} {endline : UInt8} {w w' : World}
    {socket : Socket} {frame : Frame}
    (h : ReadStep A endline w socket (.frame frame) w') :
    readStatus (w.toIo endline socket) = none := by
  obtain ⟨io, hread, -⟩ := ReadStep.of_frame h
  have hstatus := statusOf_stompRead A (afterWait (w.toIo endline socket))
  rw [hread] at hstatus
  exact hstatus.symm

theorem readStatus_of_failed {A : Apr} {endline : UInt8} {w w' : World}
    {socket : Socket} {rc : AprError}
    (h : ReadStep A endline w socket (.failed rc) w') :
    readStatus (w.toIo endline socket) = some rc := by
  obtain ⟨io, hread, -⟩ := ReadStep.of_failed h
  have hstatus := statusOf_stompRead A (afterWait (w.toIo endline socket))
  rw [hread] at hstatus
  exact hstatus.symm

/-- The octets of a counted body come through the copy.  A receive that times out
leaves the message object as it was; otherwise the body has no NUL but for its last
octet.  When a line of the head has a length that narrows to zero, the copy begins
behind that line. -/
def Untruncated (io : Io) (message : Message) (wire : WireFrame) : Prop :=
  if readStatus io = some .timeup then HoldsPayload message wire.payload
  else if cutOff wire.lines = [] then nul ∉ wire.payload.dropLast
  else
    let text := copied (linesRead wire.lines) (cutOff wire.lines ++ wire.payload)
    wire.payload <+: text ++ [nul] ∧ text.length + 1 < 2 ^ 64

/-- What a frame that was read leaves in the message is the copy of its payload. -/
private theorem holdsPayload_read {io io' : Io} {frame : Frame}
    (hread : FrameRead io frame io') {message : Message} {wire : WireFrame} {t : Bytes}
    (hin : io.socket.inbox = wire.bytes ++ t) (hne : wire.payload ≠ []) :
    HoldsPayload (messageOf message frame) wire.payload ↔
      let text := copied (linesRead wire.lines) (cutOff wire.lines ++ wire.payload)
      wire.payload <+: text ++ [nul] ∧ text.length + 1 < 2 ^ 64 := by
  obtain ⟨last, hhead⟩ := scanHead_frameBytes wire.command_clean wire.lines_header hin
  obtain ⟨hmessage, hle, hlt⟩ := messageOf_of_read hread hhead message rfl
  rw [copied_append] at hmessage hle
  rw [hmessage]
  exact holdsPayload_formatted hle hlt hne

private theorem holdsPayload_iff_untruncated (A : Apr) (net : Net) {w w' : World}
    {socket : Socket} {message message' : Message} {wire : WireFrame} {v : CString}
    {t : Bytes} (hsocket : w.messenger.connection = some socket)
    (hin : socket.inbox = wire.bytes ++ t)
    (hv : contentLength wire.lines = some v) (hsize : 1 ≤ aprAtoi64 v)
    (h : stompReceive A net message w = some (.success, message', w')) :
    HoldsPayload message' wire.payload ↔
      Untruncated (w.toIo net.endline socket) message wire := by
  obtain ⟨socket₁, hsocket₁, hreceived⟩ := received_of_receive h
  obtain rfl := Option.some.inj (hsocket.symm.trans hsocket₁)
  have hlength := wire.payload_ok.length_eq hv
  have hne : wire.payload ≠ [] := by
    intro hnil
    rw [hnil] at hlength
    simp only [List.length_nil] at hlength
    omega
  unfold Untruncated
  cases hreceived with
  | timeup hread => rw [if_pos (readStatus_of_failed hread)]
  | message hread hcommand =>
      obtain ⟨io, hstomp, -⟩ := ReadStep.of_frame hread
      rw [readStatus_of_frame hread, if_neg nofun,
        holdsPayload_read (frameRead_of_stompRead A hstomp) hin hne]
      by_cases hcut : cutOff wire.lines = []
      · rw [if_pos hcut, hcut, List.nil_append, linesRead_of_cutOff hcut,
          ← prefix_text_iff, copied]
        simp only [hv]
        have hlt := aprAtoi64_lt v
        have htext := (List.takeWhile_sublist (· != nul) (l := wire.payload)).length_le
        refine and_iff_left ?_
        show (wire.payload.takeWhile (· != nul)).length + 1 < 2 ^ 64
        omega
      · rw [if_neg hcut]

/-- **A counted body arrives in the message exactly when it comes through the copy**,
whatever the state of the messenger, the message object, the bytes behind the frame and
the schedule of the receives. -/
theorem holdsPayload_iff (A : Apr) (net : Net) (w w' : World) (socket : Socket)
    (message message' : Message) (wire : WireFrame) (v : CString) (t : Bytes)
    (hsocket : w.messenger.connection = some socket)
    (hin : socket.inbox = wire.bytes ++ t)
    (hv : contentLength wire.lines = some v) (hsize : 1 ≤ aprAtoi64 v)
    (h : stompReceive A net message w = some (.success, message', w')) :
    HoldsPayload message' wire.payload ↔
      Untruncated (w.toIo net.endline socket) message wire :=
  holdsPayload_iff_untruncated A net hsocket hin hv hsize h

/-! ## Two messages -/

/-- A messenger on a connection with the bytes `s` to read. -/
def reading (s : Bytes) : World := (stompMessengerInit 0).withIo (Io.fresh s)

/-- A whole message in front of the stream is received. -/
theorem receive_reading (net : Net) (message : Message) (wire : WireFrame)
    (hunwrapped : Unwrapped wire) (hsized : Sized wire.lines)
    (hcommand : wire.frame.command.startsWith (.lit "MESSAGE") = true) :
    ∃ w', stompReceive .sample net message (reading wire.bytes) =
      some (.success, messageOf message wire.frame, w') := by
  have hd : Delivering
      ((reading wire.bytes).toIo net.endline (Io.fresh wire.bytes).socket) := by
    simp [Delivering, reading, World.toIo, Io.fresh]
  obtain ⟨turns, -, hstomp⟩ := stompRead_wire .sample hd hunwrapped hsized
    (fun _ _ => whole_nil _) (List.append_nil _).symm
  have hframe := readFrame_ready .sample net.endline (w := reading wire.bytes) rfl rfl
  rw [hstomp] at hframe
  unfold stompReceive
  rw [hframe]
  simp only [Option.bind_eq_bind, Option.bind_some, hcommand, if_true]
  exact ⟨_, rfl⟩

/-- A message with a body of three octets, sent with their number. -/
def countedMessage (payload : Bytes) (h : payload.length = 3) : WireFrame where
  command := ascii "MESSAGE"
  lines := [ascii "content-length:3"]
  payload := payload
  command_clean := clean_message
  lines_header := by decide
  payload_ok := by
    show (payload.length : Int) = 3
    rw [h]
    rfl

/-- The text `abc` is received whole. -/
theorem holdsPayload_abc :
    ∃ message' w', stompReceive .sample (.quiet []) stompMessageCreate
        (reading (countedMessage (ascii "abc") rfl).bytes) =
          some (.success, message', w') ∧ HoldsPayload message' (ascii "abc") := by
  obtain ⟨w', hrun⟩ := receive_reading (.quiet []) stompMessageCreate
    (countedMessage (ascii "abc") rfl) (by decide) (by decide) (by decide)
  refine ⟨_, w', hrun, (holdsPayload_iff .sample (.quiet []) _ _ _ _ _
    (countedMessage (ascii "abc") rfl) (.lit "3") [] rfl (List.append_nil _).symm
    (by decide) (by decide) hrun).mpr ?_⟩
  rw [Untruncated, if_neg (by decide), if_pos (by decide)]
  decide

/-- What is behind a NUL is lost. -/
theorem holdsPayload_fails :
    ¬ ∀ (A : Apr) (net : Net) (w w' : World) (socket : Socket)
      (message message' : Message) (wire : WireFrame) (v : CString) (t : Bytes),
        w.messenger.connection = some socket → socket.inbox = wire.bytes ++ t →
        wire.command = ascii "MESSAGE" → contentLength wire.lines = some v →
        1 ≤ aprAtoi64 v →
        stompReceive A net message w = some (.success, message', w') →
          HoldsPayload message' wire.payload := by
  intro h
  obtain ⟨w', hrun⟩ := receive_reading (.quiet []) stompMessageCreate
    (countedMessage [97, nul, 98] rfl) (by decide) (by decide) (by decide)
  have hholds := h .sample (.quiet []) _ _ _ _ _ (countedMessage [97, nul, 98] rfl)
    (.lit "3") [] rfl (List.append_nil _).symm rfl (by decide) (by decide) hrun
  obtain ⟨body, hbody, htake, -⟩ := hholds
  obtain rfl := Option.some.inj hbody
  exact absurd htake (by decide)

end LibStomp.Session.ReceivedBodies
