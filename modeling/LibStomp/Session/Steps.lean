import LibStomp.Model.Messenger
import LibStomp.Stream.Receiving
import LibStomp.Stream.WriteFrame
import LibStomp.Verified.Runs

/-!
# What one operation can do

The case analyses behind every result about runs, made once.  An operation
either writes a frame and may wait for a receipt (`Op.request`), or connects, or
receives, or only touches the messenger object; `stepped_of_step` says which.
Below it, one inductive predicate for each of the two ways an operation uses the
connection lists all its outcomes with the state each of them leaves:
`Transacted` for writing operations, `ReadStep` for taking a frame.
-/

namespace LibStomp.Session.Steps

open LibStomp.Model
open LibStomp.Verified.Runs
open LibStomp.Stream.ReadLine
open LibStomp.Stream.Receiving
open LibStomp.Stream.WriteFrame

/-- The log of a run. -/
abbrev Log := List (Event World Call Reply)

/-! ## The connection during a call -/

/-- The socket as a call with the schedule `net` finds it. -/
def loadSocket (net : Net) (socket : Socket) : Socket :=
  { socket with
    inbox := socket.inbox ++ net.arrivals
    recvs := net.recvs
    sends := net.sends
    waits := net.waits
    atEnd := net.atEnd }

theorem load_connection (net : Net) (w : World) :
    (w.load net).messenger.connection =
      w.messenger.connection.map (loadSocket net) := rfl

theorem load_connection_of_some (net : Net) {w : World} {socket : Socket}
    (h : w.messenger.connection = some socket) :
    (w.load net).messenger.connection = some (loadSocket net socket) := by
  rw [load_connection, h]
  rfl

theorem onConnection_eq_some {α : Type} {endline : UInt8} {x : IoM α}
    {w w' : World}
    {r : Except AprError α} (h : w.onConnection endline x = some (r, w')) :
    ∃ socket, w.messenger.connection = some socket ∧
      ((∃ a io, x (w.toIo endline socket) = .ok a io ∧ r = .ok a ∧
        w' = w.withIo io) ∨
        ∃ rc io, x (w.toIo endline socket) = .error rc io ∧ r = .error rc ∧
          w' = w.withIo io) := by
  unfold World.onConnection at h
  cases hc : w.messenger.connection with
  | none => simp [hc] at h
  | some socket =>
      refine ⟨socket, rfl, ?_⟩
      rw [hc] at h
      cases hx : x (w.toIo endline socket) with
      | ok a io =>
          simp only [hx, Option.some.injEq, Prod.mk.injEq] at h
          exact .inl ⟨a, io, rfl, h.1.symm, h.2.symm⟩
      | error rc io =>
          simp only [hx, Option.some.injEq, Prod.mk.injEq] at h
          exact .inr ⟨rc, io, rfl, h.1.symm, h.2.symm⟩

theorem onConnection_of_ok {α : Type} {endline : UInt8} {x : IoM α} {w : World}
    {socket : Socket} {a : α} {io : Io} (hsocket : w.messenger.connection = some socket)
    (hx : x (w.toIo endline socket) = .ok a io) :
    w.onConnection endline x = some (.ok a, w.withIo io) := by
  unfold World.onConnection
  simp only [hsocket, hx]

theorem onConnection_of_error {α : Type} {endline : UInt8} {x : IoM α} {w : World}
    {socket : Socket} {rc : AprError} {io : Io}
    (hsocket : w.messenger.connection = some socket)
    (hx : x (w.toIo endline socket) = .error rc io) :
    w.onConnection endline x = some (.error rc, w.withIo io) := by
  unfold World.onConnection
  simp only [hsocket, hx]

/-- A write that has a behaviour is a run of `stomp_write`. -/
theorem write_eq_some {A : Apr} {net : Net} {frame : Frame} {w : World}
    {p : Except AprError Unit × World} (h : w.write A net frame = some p) :
    w.onConnection net.endline (stompWrite A net.order frame) = some p := by
  obtain ⟨socket, -, hwrite⟩ := Option.bind_eq_some_iff.mp h
  split at hwrite
  · exact hwrite
  · cases hwrite

/-- It has one if `stomp_write` does not leave the body. -/
theorem write_of_staysInside {A : Apr} {net : Net} {frame : Frame} {w : World}
    {socket : Socket} (hsocket : w.messenger.connection = some socket)
    (h : staysInside A net.order frame (w.toIo net.endline socket) = true) :
    w.write A net frame =
      w.onConnection net.endline (stompWrite A net.order frame) := by
  unfold World.write
  rw [hsocket]
  exact if_pos h

theorem staysInside_of_bodyHolds (A : Apr) (O : HashOrder) {frame : Frame}
    (h : frame.bodyHolds = true) (io : Io) : staysInside A O frame io = true := by
  rw [staysInside, h, Bool.true_or]

/-- This is so if the body holds what the frame says. -/
theorem write_of_bodyHolds {A : Apr} {net : Net} {frame : Frame} {w : World}
    (h : frame.bodyHolds = true) :
    w.write A net frame =
      w.onConnection net.endline (stompWrite A net.order frame) := by
  cases hconnection : w.messenger.connection with
  | none =>
      unfold World.write World.onConnection
      rw [hconnection]
      rfl
  | some socket =>
      exact write_of_staysInside hconnection (staysInside_of_bodyHolds A net.order h _)

/-! ## Taking a frame off the connection -/

/-- The outcomes of `World.readFrame` on the connection `socket`. -/
inductive ReadStep (A : Apr) (endline : UInt8) (w : World) (socket : Socket) :
    Reading → World → Prop
  | notReady {io : Io}
      (hwait : stompIoCanRead (w.toIo endline socket) = (false, io)) :
      ReadStep A endline w socket .notReady (w.withIo io)
  | failed {io io' : Io} {rc : AprError}
      (hwait : stompIoCanRead (w.toIo endline socket) = (true, io))
      (hread : stompRead A io = .error rc io') :
      ReadStep A endline w socket (.failed rc) (w.withIo io')
  | frame {io io' : Io} {frame : Frame}
      (hwait : stompIoCanRead (w.toIo endline socket) = (true, io))
      (hread : stompRead A io = .ok frame io') :
      ReadStep A endline w socket (.frame frame) (w.withIo io')

theorem toIo_withIo (w : World) {io : Io} {endline : UInt8}
    (h : io.endline = endline) :
    (w.withIo io).toIo endline io.socket = io := by
  subst h
  rfl

theorem readStep_of_readFrame {A : Apr} {endline : UInt8} {w w' : World}
    {reading : Reading} (h : w.readFrame A endline = some (reading, w')) :
    ∃ socket, w.messenger.connection = some socket ∧
      ReadStep A endline w socket reading w' := by
  unfold World.readFrame World.canRead at h
  cases hc : w.messenger.connection with
  | none => simp [hc] at h
  | some socket =>
      refine ⟨socket, rfl, ?_⟩
      rcases hwait : stompIoCanRead (w.toIo endline socket) with ⟨ready, io⟩
      have hendline : io.endline = endline := (socket_of_stompIoCanRead hwait).2
      simp only [hc, hwait, Option.bind_eq_bind, Option.bind_some] at h
      cases ready with
      | false =>
          simp only [Bool.not_false, if_true, Option.some.injEq,
            Prod.mk.injEq] at h
          obtain ⟨rfl, rfl⟩ := h
          exact .notReady hwait
      | true =>
          simp only [Bool.not_true, Bool.false_eq_true, if_false] at h
          obtain ⟨⟨stat, w₁⟩, hread, hrest⟩ := Option.bind_eq_some_iff.mp h
          obtain ⟨socket', hsocket, hcases⟩ := onConnection_eq_some hread
          obtain rfl := Option.some.inj hsocket
          rw [toIo_withIo w hendline] at hcases
          rcases hcases with ⟨a, io', hok, rfl, rfl⟩ | ⟨rc, io', herror, rfl, rfl⟩
          · obtain ⟨rfl, rfl⟩ := Prod.mk.inj (Option.some.inj hrest)
            exact .frame hwait hok
          · obtain ⟨rfl, rfl⟩ := Prod.mk.inj (Option.some.inj hrest)
            exact .failed hwait herror

/-- A reading that finds something to read and fails. -/
theorem readFrame_of_error {A : Apr} {endline : UInt8} {w : World} {socket : Socket}
    {io io' : Io} {rc : AprError} (hsocket : w.messenger.connection = some socket)
    (hwait : stompIoCanRead (w.toIo endline socket) = (true, io))
    (hread : stompRead A io = .error rc io') :
    w.readFrame A endline = some (.failed rc, w.withIo io') := by
  have hendline : io.endline = endline := (socket_of_stompIoCanRead hwait).2
  have hread' : (w.withIo io).onConnection endline (stompRead A) =
      some (.error rc, w.withIo io') :=
    onConnection_of_error rfl ((congrArg _ (toIo_withIo w hendline)).trans hread)
  unfold World.readFrame World.canRead
  simp only [hsocket, hwait, Option.bind_eq_bind, Option.bind_some, Bool.not_true,
    Bool.false_eq_true, if_false, hread']

/-- Without a scheduled timeout a reading is a `stomp_read`. -/
theorem readFrame_ready (A : Apr) (endline : UInt8) {w : World} {socket : Socket}
    (hsocket : w.messenger.connection = some socket) (hwaits : socket.waits = []) :
    w.readFrame A endline =
      match stompRead A (w.toIo endline socket) with
      | .ok frame io => some (.frame frame, w.withIo io)
      | .error rc io => some (.failed rc, w.withIo io) := by
  have hready : stompIoCanRead (w.toIo endline socket) =
      (true, w.toIo endline socket) := by
    unfold stompIoCanRead aprWaitForIo World.toIo
    simp only [hwaits]
  have hsame : w.withIo (w.toIo endline socket) = w := by
    obtain ⟨⟨connection, properties, status, uri, options⟩, ioError, engine⟩ := w
    obtain rfl : connection = some socket := hsocket
    rfl
  unfold World.readFrame World.canRead World.onConnection
  simp only [hsocket, hready, hsame, Option.bind_eq_bind, Option.bind_some,
    Bool.not_true, Bool.false_eq_true, if_false]
  cases stompRead A (w.toIo endline socket) <;> rfl

/-- The outcomes of `stomp_process_receipt` on the connection `socket`. -/
inductive Waited (A : Apr) (endline : UInt8) (w : World) (socket : Socket) :
    StatusCode → World → Prop
  | confirmed {frame : Frame} {w' : World}
      (hread : ReadStep A endline w socket (.frame frame) w')
      (hreceipt : frame.command.startsWith (.lit "RECEIPT") = true) :
      Waited A endline w socket .success w'
  | refused {reading : Reading} {w' : World}
      (hread : ReadStep A endline w socket reading w')
      (hreceipt : ∀ frame, reading = .frame frame →
        frame.command.startsWith (.lit "RECEIPT") = false) (text : CString) :
      Waited A endline w socket .failure (w'.setStatus .failure text)

theorem waited_of_processReceipt {A : Apr} {net : Net} {w w' : World}
    {code : StatusCode} (h : stompProcessReceipt A net w = some (code, w')) :
    ∃ socket, w.messenger.connection = some socket ∧
      Waited A net.endline w socket code w' := by
  unfold stompProcessReceipt at h
  obtain ⟨⟨reading, w₁⟩, hread, hrest⟩ := Option.bind_eq_some_iff.mp h
  obtain ⟨socket, hsocket, hstep⟩ := readStep_of_readFrame hread
  refine ⟨socket, hsocket, ?_⟩
  cases reading with
  | notReady =>
      obtain ⟨rfl, rfl⟩ := Prod.mk.inj (Option.some.inj hrest)
      exact .refused hstep (fun _ hf => by cases hf) _
  | failed rc =>
      obtain ⟨rfl, rfl⟩ := Prod.mk.inj (Option.some.inj hrest)
      exact .refused hstep (fun _ hf => by cases hf) _
  | frame frame =>
      simp only [] at hrest
      cases hreceipt : frame.command.startsWith (.lit "RECEIPT") with
      | true =>
          rw [hreceipt] at hrest
          obtain ⟨rfl, rfl⟩ := Prod.mk.inj (Option.some.inj hrest)
          exact .confirmed hstep hreceipt
      | false =>
          rw [hreceipt] at hrest
          obtain ⟨text, -, hrest⟩ := Option.bind_eq_some_iff.mp hrest
          obtain ⟨rfl, rfl⟩ := Prod.mk.inj (Option.some.inj hrest)
          exact .refused hstep (fun _ hf => by cases hf; exact hreceipt) text

/-- The code of a wait for a receipt, by what was read. -/
def confirmation : Reading → StatusCode
  | .frame frame =>
      if frame.command.startsWith (.lit "RECEIPT") then .success else .failure
  | _ => .failure

/-- A wait is one reading, and leaves the connection as that does. -/
theorem Waited.reading {A : Apr} {endline : UInt8} {w w' : World}
    {socket : Socket}
    {code : StatusCode} (h : Waited A endline w socket code w') :
    ∃ reading w₁, ReadStep A endline w socket reading w₁ ∧
      w'.messenger.connection = w₁.messenger.connection ∧
        code = confirmation reading := by
  cases h with
  | @confirmed frame _ hread hreceipt =>
      exact ⟨.frame frame, _, hread, rfl, by rw [confirmation, if_pos hreceipt]⟩
  | @refused reading _ hread hreceipt =>
      refine ⟨reading, _, hread, rfl, ?_⟩
      cases reading with
      | frame frame =>
          rw [confirmation, hreceipt frame rfl, if_neg Bool.false_ne_true]
      | _ => rfl

/-! ## Writing operations -/

/-- What a writing operation is about to do: the frame it has composed, the receipt
it asks for and the text it has for a failed write. -/
structure Request where
  frame : Frame
  receipt : Option UInt32
  note : World → CString

/-- The request waits for a receipt. -/
def Request.waits (q : Request) : Prop :=
  ∃ receipt, q.receipt = some receipt ∧ 0 < receipt

/-- The request of an operation, if it gets as far as writing. -/
def request (m : Messenger) : Op → Option Request
  | .disconnect header =>
      some ⟨disconnectFrame header, header.map (·.receipt), writeFailure⟩
  | .subscribe (some header) =>
      (subscribeFrame m header).map fun frame =>
        ⟨frame, some header.receipt, writeFailure⟩
  | .unsubscribe (some header) =>
      (unsubscribeFrame m header).map fun frame =>
        ⟨frame, some header.receipt, writeFailure⟩
  | .ack header =>
      some ⟨ackFrame (.lit "ACK") header, header.map (·.receipt), ackWriteFailure⟩
  | .nack header =>
      some ⟨ackFrame (.lit "NACK") header, header.map (·.receipt), writeFailure⟩
  | .begin header =>
      some ⟨transactionFrame (.lit "BEGIN") header, header.map (·.receipt),
        writeFailure⟩
  | .commit header =>
      some ⟨transactionFrame (.lit "COMMIT") header, header.map (·.receipt),
        writeFailure⟩
  | .abort header =>
      some ⟨transactionFrame (.lit "ABORT") header, header.map (·.receipt),
        writeFailure⟩
  | .send header message =>
      (sendFrame m header message).map fun frame =>
        ⟨frame, header.map (·.receipt), writeFailure⟩
  | _ => none

/-- The octets that a send of the message takes from its body are there. -/
def Sound (message : Message) : Prop :=
  (Frame.mk (.lit "SEND") none message.body message.size).bodyHolds = true

instance (message : Message) : Decidable (Sound message) :=
  inferInstanceAs (Decidable (_ = true))

theorem bodyHolds_sendFrame {m : Messenger} {header : Option SendHeader}
    {message : Message} {frame : Frame} (h : Sound message)
    (hframe : sendFrame m header message = some frame) : frame.bodyHolds = true := by
  obtain ⟨_, -, hframe⟩ := Option.bind_eq_some_iff.mp hframe
  obtain rfl := Option.some.inj hframe
  exact h

/-- The note of a request looks at the engine's record only. -/
theorem request_note {m : Messenger} {op : Op} {q : Request}
    (h : request m op = some q) :
    q.note = writeFailure ∨ q.note = ackWriteFailure := by
  unfold request at h
  split at h
  case h_4 header =>
    -- `stomp_ack` has a text of its own
    obtain rfl := Option.some.inj h
    exact .inr rfl
  case h_10 => cases h
  all_goals
    first
      | obtain rfl := Option.some.inj h
        exact .inl rfl
      | obtain ⟨frame, -, rfl⟩ := Option.map_eq_some_iff.mp h
        exact .inl rfl

/-- The outcomes of writing a request on the connection `socket`. -/
inductive Transacted (A : Apr) (net : Net) (w : World) (q : Request)
    (socket : Socket) :
    StatusCode → World → Prop
  | unwritten {io : Io} {sent more : Bytes}
      (hsplit : encode net.order q.frame = sent ++ more) (hmore : more ≠ [])
      (hacc : Accepted (w.toIo net.endline socket) io sent)
      (hfails : ¬ Sending (w.toIo net.endline socket)) :
      Transacted A net w q socket .failure
        ((w.withIo io).setStatus .failure (q.note (w.withIo io)))
  | written {io : Io}
      (hacc : Accepted (w.toIo net.endline socket) io (encode net.order q.frame))
      (hnowait : ¬ q.waits) : Transacted A net w q socket .success (w.withIo io)
  | waited {io : Io} {code : StatusCode} {w' : World}
      (hacc : Accepted (w.toIo net.endline socket) io (encode net.order q.frame))
      (hwaits : q.waits)
      (hwaited : Waited A net.endline (w.withIo io) io.socket code w') :
      Transacted A net w q socket code w'

theorem transacted_of_transact {A : Apr} {net : Net} {w w' : World} {q : Request}
    {code : StatusCode}
    (h : transact A net q.note q.frame q.receipt w = some (code, w')) :
    ∃ socket, w.messenger.connection = some socket ∧
      Transacted A net w q socket code w' := by
  unfold transact at h
  obtain ⟨⟨stat, w₁⟩, hwrite, hrest⟩ := Option.bind_eq_some_iff.mp h
  obtain ⟨socket, hsocket, hcases⟩ := onConnection_eq_some (write_eq_some hwrite)
  refine ⟨socket, hsocket, ?_⟩
  rcases hcases with ⟨a, io, hok, rfl, rfl⟩ | ⟨rc, io, herror, rfl, rfl⟩
  · have hacc := (stompWrite_writes A net.order q.frame).accepted hok
    simp only [] at hrest
    cases hreceipt : q.receipt with
    | none =>
        rw [hreceipt] at hrest
        obtain ⟨rfl, rfl⟩ := Prod.mk.inj (Option.some.inj hrest)
        refine .written hacc ?_
        rintro ⟨receipt, hr, -⟩
        rw [hreceipt] at hr
        cases hr
    | some receipt =>
        rw [hreceipt] at hrest
        simp only [] at hrest
        by_cases hpos : 0 < receipt
        · rw [if_pos hpos] at hrest
          obtain ⟨socket', hsocket', hwaited⟩ := waited_of_processReceipt hrest
          obtain rfl := Option.some.inj hsocket'
          exact .waited hacc ⟨receipt, hreceipt, hpos⟩ hwaited
        · rw [if_neg hpos] at hrest
          obtain ⟨rfl, rfl⟩ := Prod.mk.inj (Option.some.inj hrest)
          refine .written hacc ?_
          rintro ⟨receipt', hr, hpos'⟩
          rw [hreceipt] at hr
          obtain rfl := Option.some.inj hr
          exact hpos hpos'
  · obtain ⟨rfl, rfl⟩ := Prod.mk.inj (Option.some.inj hrest)
    obtain ⟨sent, more, hsplit, hmore, hacc, hfails⟩ :=
      (stompWrite_writes A net.order q.frame).cut herror
    exact .unwritten hsplit hmore hacc hfails

/-! ## Receiving -/

/-- The state after a frame has been merged into the exchange properties. -/
def merge (frame : Frame) (w : World) : World :=
  { w with messenger := { w.messenger with
    exchangeProperties :=
      aprHashOverlay (frame.headers.getD ∅) w.messenger.exchangeProperties } }

/-- The message object after a frame has been copied into it. -/
def messageOf (message : Message) (frame : Frame) : Message :=
  stompMessageFormat message (frame.body.getD []) frame.bodyLength

/-- The outcomes of `stomp_receive` on the connection `socket`. -/
inductive Received (A : Apr) (endline : UInt8) (w : World) (socket : Socket)
    (message : Message) : StatusCode → Message → World → Prop
  | noData {w' : World} (hread : ReadStep A endline w socket .notReady w') :
      Received A endline w socket message .successNoData message
        (w'.setStatus .successNoData (.lit "Timed out while trying to read data"))
  | message {frame : Frame} {w' : World}
      (hread : ReadStep A endline w socket (.frame frame) w')
      (hcommand : frame.command.startsWith (.lit "MESSAGE") = true) :
      Received A endline w socket message .success (messageOf message frame)
        (merge frame w')
  | foreign {frame : Frame} {w' : World}
      (hread : ReadStep A endline w socket (.frame frame) w')
      (hcommand : frame.command.startsWith (.lit "MESSAGE") = false) :
      Received A endline w socket message .failure (messageOf message frame)
        (merge frame w')
  | timeup {w' : World}
      (hread : ReadStep A endline w socket (.failed .timeup) w') :
      Received A endline w socket message .success message w'
  | failed {rc : AprError} {w' : World}
      (hread : ReadStep A endline w socket (.failed rc) w')
      (hrc : rc ≠ .timeup) (text : CString) :
      Received A endline w socket message .failure message
        (w'.setStatus .failure text)

theorem received_of_receive {A : Apr} {net : Net} {w w' : World}
    {message message' : Message} {code : StatusCode}
    (h : stompReceive A net message w = some (code, message', w')) :
    ∃ socket, w.messenger.connection = some socket ∧
      Received A net.endline w socket message code message' w' := by
  unfold stompReceive at h
  obtain ⟨⟨reading, w₁⟩, hread, hrest⟩ := Option.bind_eq_some_iff.mp h
  obtain ⟨socket, hsocket, hstep⟩ := readStep_of_readFrame hread
  refine ⟨socket, hsocket, ?_⟩
  cases reading with
  | notReady =>
      obtain ⟨rfl, hpair⟩ := Prod.mk.inj (Option.some.inj hrest)
      obtain ⟨rfl, rfl⟩ := Prod.mk.inj hpair
      exact .noData hstep
  | failed rc =>
      by_cases hrc : rc = .timeup
      · subst hrc
        obtain ⟨rfl, hpair⟩ := Prod.mk.inj (Option.some.inj hrest)
        obtain ⟨rfl, rfl⟩ := Prod.mk.inj hpair
        exact .timeup hstep
      · have hfailed : some (StatusCode.failure, message, w₁.setStatus .failure
            (.lit "Unable to read the frame data from the underlying connection: " ++
              formatArg w₁.ioError.message)) = some (code, message', w') := by
          cases rc <;> first | exact hrest | exact absurd rfl hrc
        obtain ⟨rfl, hpair⟩ := Prod.mk.inj (Option.some.inj hfailed)
        obtain ⟨rfl, rfl⟩ := Prod.mk.inj hpair
        exact .failed hstep hrc _
  | frame frame =>
      simp only [] at hrest
      cases hcommand : frame.command.startsWith (.lit "MESSAGE") with
      | true =>
          rw [hcommand] at hrest
          obtain ⟨rfl, hpair⟩ := Prod.mk.inj (Option.some.inj hrest)
          obtain ⟨rfl, rfl⟩ := Prod.mk.inj hpair
          exact .message hstep hcommand
      | false =>
          rw [hcommand] at hrest
          obtain ⟨rfl, hpair⟩ := Prod.mk.inj (Option.some.inj hrest)
          obtain ⟨rfl, rfl⟩ := Prod.mk.inj hpair
          exact .foreign hstep hcommand

/-- The reply of a receive, by what was read. -/
def handover (message : Message) : Reading → StatusCode × Message
  | .notReady => (.successNoData, message)
  | .frame frame =>
      (if frame.command.startsWith (.lit "MESSAGE") then .success else .failure,
        messageOf message frame)
  | .failed .timeup => (.success, message)
  | .failed _ => (.failure, message)

/-- A receive is one reading, and leaves the connection as that does. -/
theorem Received.reading {A : Apr} {endline : UInt8} {w w' : World}
    {socket : Socket} {message message' : Message} {code : StatusCode}
    (h : Received A endline w socket message code message' w') :
    ∃ reading w₁, ReadStep A endline w socket reading w₁ ∧
      w'.messenger.connection = w₁.messenger.connection ∧
      (code, message') = handover message reading := by
  cases h with
  | noData hread => exact ⟨.notReady, _, hread, rfl, rfl⟩
  | @message frame _ hread hcommand =>
      exact ⟨.frame frame, _, hread, rfl, by rw [handover, if_pos hcommand]⟩
  | @foreign frame _ hread hcommand =>
      exact ⟨.frame frame, _, hread, rfl,
        by rw [handover, hcommand, if_neg Bool.false_ne_true]⟩
  | timeup hread => exact ⟨.failed .timeup, _, hread, rfl, rfl⟩
  | @failed rc _ hread hrc =>
      refine ⟨.failed rc, _, hread, rfl, ?_⟩
      cases rc <;> first | rfl | exact absurd rfl hrc

/-! ## Connecting -/

/-- The outcomes of `stomp_connect`. -/
inductive Connected (A : Apr) (net : Net) (w : World)
    (header : Option ConnectionHeader) :
    StatusCode → World → Prop
  | unreachable (engine : Engine) (text : CString) :
      Connected A net w header .failure
        ({ w with engine := engine }.setStatus .failure text)
  | unwritten {engine : Engine} {socket : Socket} {io : Io} {sent more : Bytes}
      (text : CString)
      (hfresh : socket.outbox = [])
      (hsplit : encode net.order (connectFrame header) = sent ++ more)
      (hmore : more ≠ [])
      (hacc : Accepted ⟨socket, w.ioError, net.endline⟩ io sent) :
      Connected A net w header .failure
        (({ w with engine := engine }.withIo io).setStatus .failure text)
  | refused {engine : Engine} {socket : Socket} {io : Io} {reading : Reading}
      {w' : World}
      (text : CString) (hfresh : socket.outbox = [])
      (hacc : Accepted ⟨socket, w.ioError, net.endline⟩ io
        (encode net.order (connectFrame header)))
      (hread : ReadStep A net.endline ({ w with engine := engine }.withIo io)
        io.socket reading w') :
      Connected A net w header .failure (w'.setStatus .failure text)
  | confirmed {engine : Engine} {socket : Socket} {io : Io} {reading : Reading}
      {w' : World}
      (hfresh : socket.outbox = [])
      (hacc : Accepted ⟨socket, w.ioError, net.endline⟩ io
        (encode net.order (connectFrame header)))
      (hread : ReadStep A net.endline ({ w with engine := engine }.withIo io)
        io.socket reading w') :
      Connected A net w header .success w'

/-- The runs of `stomp_connect`, call by call. -/
inductive ConnectRun (A : Apr) (net : Net) (w : World)
    (header : Option ConnectionHeader) :
    StatusCode → World → Prop
  | unreachable {uri : Uri} {rc : AprError} {engine : Engine} (text : CString)
      (hengine : stompEngineConnect A net.plan uri.hostname w.engine =
        .error rc engine) :
      ConnectRun A net w header .failure
        ({ w with engine := engine }.setStatus .failure text)
  | unwritten {uri : Uri} {descriptor : Nat} {engine : Engine} {rc : AprError}
      {io : Io} (text : CString)
      (hengine : stompEngineConnect A net.plan uri.hostname w.engine =
        .ok descriptor engine)
      (hwrite : stompWrite A net.order (connectFrame header)
        ⟨net.socket descriptor, w.ioError, net.endline⟩ = .error rc io) :
      ConnectRun A net w header .failure
        (({ w with engine := engine }.withIo io).setStatus .failure text)
  | refused {uri : Uri} {descriptor : Nat} {engine : Engine} {io : Io}
      {reading : Reading} {w' : World} (text : CString)
      (hengine : stompEngineConnect A net.plan uri.hostname w.engine =
        .ok descriptor engine)
      (hwrite : stompWrite A net.order (connectFrame header)
        ⟨net.socket descriptor, w.ioError, net.endline⟩ = .ok () io)
      (hread : ReadStep A net.endline ({ w with engine := engine }.withIo io)
        io.socket reading w')
      (hreply : ∀ frame, reading = .frame frame →
        frame.command.startsWith (.lit "CONNECTED") = false) :
      ConnectRun A net w header .failure (w'.setStatus .failure text)
  | confirmed {uri : Uri} {descriptor : Nat} {engine : Engine} {io : Io}
      {frame : Frame} {w' : World}
      (hengine : stompEngineConnect A net.plan uri.hostname w.engine =
        .ok descriptor engine)
      (hwrite : stompWrite A net.order (connectFrame header)
        ⟨net.socket descriptor, w.ioError, net.endline⟩ = .ok () io)
      (hread : ReadStep A net.endline ({ w with engine := engine }.withIo io)
        io.socket (.frame frame) w')
      (hreply : frame.command.startsWith (.lit "CONNECTED") = true) :
      ConnectRun A net w header .success w'

theorem connectRun_of_connect {A : Apr} {net : Net} {w w' : World}
    {header : Option ConnectionHeader} {code : StatusCode}
    (h : stompConnect A net header w = some (code, w')) :
    ConnectRun A net w header code w' := by
  unfold stompConnect at h
  obtain ⟨uri, -, h⟩ := Option.bind_eq_some_iff.mp h
  cases hengine : stompEngineConnect A net.plan uri.hostname w.engine with
  | error rc engine =>
      rw [hengine] at h
      obtain ⟨rfl, rfl⟩ := Prod.mk.inj (Option.some.inj h)
      exact .unreachable _ hengine
  | ok descriptor engine =>
      rw [hengine] at h
      obtain ⟨⟨stat, w₁⟩, hwrite, hrest⟩ := Option.bind_eq_some_iff.mp h
      obtain ⟨socket, hsocket, hcases⟩ := onConnection_eq_some (write_eq_some hwrite)
      obtain rfl : net.socket descriptor = socket := Option.some.inj hsocket
      rcases hcases with ⟨_, io, hok, rfl, rfl⟩ | ⟨rc, io, herror, rfl, rfl⟩
      · obtain ⟨⟨reading, w₂⟩, hread, hfinish⟩ := Option.bind_eq_some_iff.mp hrest
        obtain ⟨socket', hsocket', hstep⟩ := readStep_of_readFrame hread
        obtain rfl := Option.some.inj hsocket'
        have hloaded : ReadStep A net.endline
            (({ w with engine := engine } : World).withIo io) io.socket
            reading w₂ := hstep
        cases reading with
        | notReady =>
            obtain ⟨rfl, rfl⟩ := Prod.mk.inj (Option.some.inj hfinish)
            exact .refused _ hengine hok hloaded (fun _ hf => by cases hf)
        | failed rc =>
            obtain ⟨rfl, rfl⟩ := Prod.mk.inj (Option.some.inj hfinish)
            exact .refused _ hengine hok hloaded (fun _ hf => by cases hf)
        | frame frame =>
            simp only [] at hfinish
            cases hreply : frame.command.startsWith (.lit "CONNECTED") with
            | true =>
                rw [hreply] at hfinish
                obtain ⟨rfl, rfl⟩ := Prod.mk.inj (Option.some.inj hfinish)
                exact .confirmed hengine hok hloaded hreply
            | false =>
                rw [hreply] at hfinish
                obtain ⟨rfl, rfl⟩ := Prod.mk.inj (Option.some.inj hfinish)
                refine .refused _ hengine hok hloaded ?_
                rintro _ ⟨⟩
                exact hreply
      · obtain ⟨rfl, rfl⟩ := Prod.mk.inj (Option.some.inj hrest)
        show ConnectRun A net w header .failure
          ((({ w with engine := engine } : World).withIo io).setStatus .failure _)
        exact .unwritten _ hengine herror

theorem connected_of_connect {A : Apr} {net : Net} {w w' : World}
    {header : Option ConnectionHeader} {code : StatusCode}
    (h : stompConnect A net header w = some (code, w')) :
    Connected A net w header code w' := by
  have hwrites := stompWrite_writes A net.order (connectFrame header)
  cases connectRun_of_connect h with
  | unreachable text _ => exact .unreachable _ text
  | unwritten text _ hwrite =>
      obtain ⟨sent, more, hsplit, hmore, hacc, -⟩ := hwrites.cut hwrite
      exact .unwritten text rfl hsplit hmore hacc
  | refused text _ hwrite hread _ =>
      exact .refused text rfl (hwrites.accepted hwrite) hread
  | confirmed _ hwrite hread _ =>
      exact .confirmed rfl (hwrites.accepted hwrite) hread

/-! ## Setting the endpoint -/

/-- The endpoint is set whether or not it is accepted; only a refusal sets the
status. -/
theorem setEndpoint_cases {A : Apr} {uri : CString} {w w' : World}
    {code : StatusCode} (h : stompSetEndpoint A uri w = some (code, w')) :
    ∃ st, w' = { w with messenger :=
        { w.messenger with uri := some (A.uriParse uri).2, status := st } } ∧
      (code = .success ∨
        code = .failure ∧ ∃ text, st = ⟨.failure, some text⟩) := by
  unfold stompSetEndpoint at h
  simp only [] at h
  split at h
  · obtain ⟨rfl, rfl⟩ := Prod.mk.inj (Option.some.inj h)
    exact ⟨_, rfl, .inr ⟨rfl, _, rfl⟩⟩
  split at h
  · obtain ⟨rfl, rfl⟩ := Prod.mk.inj (Option.some.inj h)
    exact ⟨_, rfl, .inr ⟨rfl, _, rfl⟩⟩
  split at h
  · obtain ⟨rfl, rfl⟩ := Prod.mk.inj (Option.some.inj h)
    exact ⟨_, rfl, .inr ⟨rfl, _, rfl⟩⟩
  · obtain ⟨rfl, rfl⟩ := Prod.mk.inj (Option.some.inj h)
    exact ⟨_, rfl, .inl rfl⟩

/-! ## All operations -/

/-- The outcomes of one call, by kind of operation. -/
inductive Stepped (A : Apr) (net : Net) (w : World) : Op → Reply → World → Prop
  | request {op : Op} {q : Request} {code : StatusCode} {w' : World}
      (hrequest : request w.messenger op = some q)
      (hrun : transact A net q.note q.frame q.receipt (w.load net) =
        some (code, w')) :
      Stepped A net w op ⟨some code, none⟩ w'
  | connect {header : Option ConnectionHeader} {code : StatusCode} {w' : World}
      (hrun : stompConnect A net header w = some (code, w')) :
      Stepped A net w (.connect header) ⟨some code, none⟩ w'
  | receive {message message' : Message} {code : StatusCode} {w' : World}
      (hrun : stompReceive A net message (w.load net) =
        some (code, message', w')) :
      Stepped A net w (.receive message) ⟨some code, some message'⟩ w'
  | setEndpoint {uri : CString} {code : StatusCode} {w' : World}
      (hrun : stompSetEndpoint A uri (w.load net) = some (code, w')) :
      Stepped A net w (.setEndpoint uri) ⟨some code, none⟩ w'
  | noHeader :
      Stepped A net w (.subscribe none) ⟨some .failure, none⟩
        ((w.load net).setStatus .failure
          (.lit "A STOMP subscription requires a subscription ID"))
  | exchangeAdd (name : CString) (value : Option CString) :
      Stepped A net w (.exchangeAdd name value) ⟨none, none⟩
        (stompExchangeAdd name value (w.load net))
  | exchangeClear :
      Stepped A net w .exchangeClear ⟨none, none⟩
        (stompExchangeClear (w.load net))

theorem replyCode_eq_some {x : Option (StatusCode × World)} {r : Reply}
    {w : World} (h : replyCode x = some (r, w)) :
    ∃ code, x = some (code, w) ∧ r = ⟨some code, none⟩ := by
  obtain ⟨⟨code, w'⟩, hx, hp⟩ := Option.map_eq_some_iff.mp h
  obtain ⟨rfl, rfl⟩ := Prod.mk.inj hp
  exact ⟨code, hx, rfl⟩

/-- An operation with a request writes it. -/
theorem step_request {A : Apr} {net : Net} {w : World} {op : Op} {q : Request}
    (h : request w.messenger op = some q) :
    step A w ⟨op, net⟩ =
      replyCode (transact A net q.note q.frame q.receipt (w.load net)) := by
  unfold request at h
  split at h
  case h_2 header =>
    obtain ⟨frame, hframe, rfl⟩ := Option.map_eq_some_iff.mp h
    exact congrArg (fun x => replyCode (x.bind fun frame =>
      transact A net writeFailure frame (some header.receipt) (w.load net)))
      hframe
  case h_3 header =>
    obtain ⟨frame, hframe, rfl⟩ := Option.map_eq_some_iff.mp h
    exact congrArg (fun x => replyCode (x.bind fun frame =>
      transact A net writeFailure frame (some header.receipt) (w.load net)))
      hframe
  case h_9 header message =>
    obtain ⟨frame, hframe, rfl⟩ := Option.map_eq_some_iff.mp h
    exact congrArg (fun x => replyCode (x.bind fun frame =>
      transact A net writeFailure frame (header.map (·.receipt)) (w.load net)))
      hframe
  case h_10 => cases h
  all_goals
    obtain rfl := Option.some.inj h
    rfl

/-- A send that has a behaviour has a request. -/
theorem request_of_send {A : Apr} {net : Net} {w w' : World} {r : Reply}
    {header : Option SendHeader} {message : Message}
    (h : step A w ⟨.send header message, net⟩ = some (r, w')) :
    ∃ q, request w.messenger (.send header message) = some q ∧
      sendFrame w.messenger header message = some q.frame := by
  obtain ⟨code, hrun, -⟩ := replyCode_eq_some h
  obtain ⟨frame, hframe, -⟩ := Option.bind_eq_some_iff.mp hrun
  have hcomposed : sendFrame w.messenger header message = some frame := hframe
  refine ⟨⟨frame, header.map (·.receipt), writeFailure⟩, ?_, hcomposed⟩
  rw [request, hcomposed]
  rfl

/-- **Every call is of one of these kinds.** -/
theorem stepped_of_step {A : Apr} {w w' : World} {c : Call} {r : Reply}
    (h : step A w c = some (r, w')) : Stepped A c.net w c.op r w' := by
  obtain ⟨op, net⟩ := c
  cases hrequest : request w.messenger op with
  | some q =>
      rw [step_request hrequest] at h
      obtain ⟨code, hrun, rfl⟩ := replyCode_eq_some h
      exact .request hrequest hrun
  | none =>
      -- an operation that fails to compose its frame has no behaviour
      cases op with
      | setEndpoint uri =>
          obtain ⟨code, hrun, rfl⟩ := replyCode_eq_some h
          exact .setEndpoint hrun
      | connect header =>
          obtain ⟨code, hrun, rfl⟩ := replyCode_eq_some h
          exact .connect hrun
      | subscribe header =>
          cases header with
          | none =>
              obtain ⟨rfl, rfl⟩ := Prod.mk.inj (Option.some.inj h)
              exact .noHeader
          | some header =>
              obtain ⟨code, hrun, -⟩ := replyCode_eq_some h
              obtain ⟨frame, hframe, -⟩ := Option.bind_eq_some_iff.mp hrun
              cases (Option.map_eq_none_iff.mp hrequest).symm.trans hframe
      | unsubscribe header =>
          obtain ⟨code, hrun, -⟩ := replyCode_eq_some h
          cases header with
          | none => cases hrun
          | some header =>
              obtain ⟨frame, hframe, -⟩ := Option.bind_eq_some_iff.mp hrun
              cases (Option.map_eq_none_iff.mp hrequest).symm.trans hframe
      | send header message =>
          obtain ⟨code, hrun, -⟩ := replyCode_eq_some h
          obtain ⟨frame, hframe, -⟩ := Option.bind_eq_some_iff.mp hrun
          cases (Option.map_eq_none_iff.mp hrequest).symm.trans hframe
      | receive message =>
          obtain ⟨⟨code, message', w₁⟩, hrun, hp⟩ := Option.map_eq_some_iff.mp h
          obtain ⟨rfl, rfl⟩ := Prod.mk.inj hp
          exact .receive hrun
      | exchangeAdd name value =>
          obtain ⟨rfl, rfl⟩ := Prod.mk.inj (Option.some.inj h)
          exact .exchangeAdd name value
      | exchangeClear =>
          obtain ⟨rfl, rfl⟩ := Prod.mk.inj (Option.some.inj h)
          exact .exchangeClear
      | _ => cases hrequest

/-! ## What the connection does not touch -/

/-- The observation sees neither the connection nor the error records. -/
structure Untouched {V : Type} (f : World → V) : Prop where
  withIo : ∀ (w : World) (io : Io), f (w.withIo io) = f w
  setStatus : ∀ (w : World) (code : StatusCode) (text : CString),
    f (w.setStatus code text) = f w

section Untouched

variable {V : Type} {f : World → V} (hf : Untouched f)
variable {A : Apr} {net : Net} {endline : UInt8} {w w' : World} {socket : Socket}

include hf

theorem ReadStep.untouched {reading : Reading}
    (h : ReadStep A endline w socket reading w') : f w' = f w := by
  cases h <;> exact hf.withIo w _

theorem Waited.untouched {code : StatusCode}
    (h : Waited A endline w socket code w') : f w' = f w := by
  cases h with
  | confirmed hread => exact hread.untouched hf
  | refused hread => rw [hf.setStatus, hread.untouched hf]

theorem Transacted.untouched {q : Request} {code : StatusCode}
    (h : Transacted A net w q socket code w') : f w' = f w := by
  cases h with
  | unwritten => rw [hf.setStatus, hf.withIo]
  | written => exact hf.withIo w _
  | waited _ _ hwaited => rw [hwaited.untouched hf, hf.withIo]

/-- A receive changes no more than the exchange properties besides. -/
theorem Received.untouched (hmerge : ∀ frame w, f (merge frame w) = f w)
    {message message' : Message} {code : StatusCode}
    (h : Received A endline w socket message code message' w') : f w' = f w := by
  cases h with
  | noData hread => rw [hf.setStatus, hread.untouched hf]
  | message hread => rw [hmerge, hread.untouched hf]
  | foreign hread => rw [hmerge, hread.untouched hf]
  | timeup hread => exact hread.untouched hf
  | failed hread => rw [hf.setStatus, hread.untouched hf]

end Untouched

end LibStomp.Session.Steps
