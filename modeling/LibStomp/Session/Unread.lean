import LibStomp.Session.Steps
import LibStomp.Stream.WholeFrames

/-!
# Frames taken off the stream

Two kinds of operations take frames off a connection: `stomp_receive`, and every
operation that asked for a receipt.  As long as no receive fails inside a frame
and counted bodies arrive whole (`Orderly`), each of them takes the next unread
frame, whatever it is, and nothing else touches the stream.  So over a run the
frames taken are the first frames of the stream, in order.

## Main results

* `took_step` — what one call takes off the stream and how it answers.
* `took_run` — the frames taken over a run are a prefix of the frames the broker
  sends, and exactly the others are still unread.
-/

namespace LibStomp.Session.Unread

open LibStomp.Model
open LibStomp.Verified.Framing
open LibStomp.Verified.Lines
open LibStomp.Verified.Runs
open LibStomp.Session.Steps
open LibStomp.Stream.Grammar
open LibStomp.Stream.ReadLine
open LibStomp.Stream.ReadBody
open LibStomp.Stream.Receiving
open LibStomp.Stream.WholeFrames
open LibStomp.Stream.WriteFrame

/-! ## Calls that take frames -/

/-- The receipt an operation waits for. -/
def receiptOf (m : Messenger) (op : Op) : Option UInt32 :=
  (request m op).bind fun q => q.receipt.filter (0 < ·)

theorem waits_iff {m : Messenger} {op : Op} {q : Request}
    (h : request m op = some q) :
    q.waits ↔ receiptOf m op ≠ none := by
  rw [receiptOf, h]
  show q.waits ↔ q.receipt.filter (0 < ·) ≠ none
  cases hreceipt : q.receipt with
  | none => simp [Request.waits, hreceipt]
  | some receipt =>
      simp [Request.waits, hreceipt, Option.filter, UInt32.pos_iff_ne_zero]

def isReceive : Op → Bool
  | .receive _ => true
  | _ => false

/-- The operation takes a frame if there is one. -/
def reads (m : Messenger) (op : Op) : Bool :=
  isReceive op || (receiptOf m op).isSome

/-- A wait with these outcomes finds something to read. -/
def waitOk : List (Option AprError) → Bool
  | some _ :: _ => false
  | _ => true

/-- No send fails during the call. -/
def SendsOk (net : Net) : Prop := ∀ turn ∈ net.sends, ∃ extra, turn = .upTo extra

/-- The stream starts with a complete frame.  None of its header lines wraps the length,
and a counted body is not empty and arrives in one piece, its end in the next. -/
def FrameArrived (inbox : Bytes) (recvs : List Turn) : Prop :=
  ∃ (f : WireFrame) (t : Bytes), inbox = f.bytes ++ t ∧ Unwrapped f ∧
    Sized f.lines ∧
    ∀ v, contentLength f.lines = some v →
      Whole (announced v) (recvs.drop (headLength f))

/-- A call during which the stream stays in step: no receive fails, and if the call
goes to read, the next frame has arrived. -/
structure Orderly (w : World) (c : Call) : Prop where
  same_connection : ∀ header, c.op ≠ .connect header
  delivering : ∀ turn ∈ c.net.recvs, ∃ extra, turn = .upTo extra
  arrived : reads w.messenger c.op = true → waitOk c.net.waits = true →
    ∀ socket, w.messenger.connection = some socket →
      FrameArrived (socket.inbox ++ c.net.arrivals) c.net.recvs

/-! ## What a call answers -/

def isMessage (f : WireFrame) : Bool :=
  f.frame.command.startsWith (.lit "MESSAGE")

def isReceipt (f : WireFrame) : Bool :=
  f.frame.command.startsWith (.lit "RECEIPT")

/-- The message object as a receive that took the frame leaves it. -/
def handed (f : WireFrame) : Message := messageOf stompMessageCreate f.frame

/-- What a call has taken off the stream, by the way it answers. -/
inductive Took (e : Event World Call Reply) : Option WireFrame → Prop
  | nothing
      (hidle : reads e.pre.messenger e.call.op = false ∨
        waitOk e.call.net.waits = false ∨
        isReceive e.call.op = false ∧ ¬ SendsOk e.call.net)
      (hreceipt : receiptOf e.pre.messenger e.call.op ≠ none →
        e.reply.code = some .failure)
      (hother : isReceive e.call.op = false → e.reply.message = none)
      (hreceive : ∀ message, e.call.op = .receive message →
        e.reply = ⟨some .successNoData, some message⟩) : Took e none
  | received {message : Message} {f : WireFrame}
      (hwait : waitOk e.call.net.waits = true)
      (hop : e.call.op = .receive message)
      (hreply : e.reply =
        ⟨some (if isMessage f then .success else .failure), some (handed f)⟩) :
          Took e (some f)
  | waited {f : WireFrame} (hwait : waitOk e.call.net.waits = true)
      (hreceipt : receiptOf e.pre.messenger e.call.op ≠ none)
      (hreply : e.reply =
        ⟨some (if isReceipt f then .success else .failure), none⟩) :
      Took e (some f)

/-- An operation other than a receive takes nothing if it does not read, finds nothing to
read or fails to write. -/
theorem Took.of_not_receive {e : Event World Call Reply}
    (hop : isReceive e.call.op = false) (hmessage : e.reply.message = none)
    (hidle : reads e.pre.messenger e.call.op = false ∨
      waitOk e.call.net.waits = false ∨
      ¬ SendsOk e.call.net)
    (hreceipt : receiptOf e.pre.messenger e.call.op ≠ none →
      e.reply.code = some .failure) :
    Took e none := by
  refine .nothing ?_ hreceipt (fun _ => hmessage) fun message hreceive => ?_
  · exact hidle.imp_right fun h => h.imp_right fun hsends => ⟨hop, hsends⟩
  · rw [hreceive] at hop
    cases hop

/-! ## One call -/

private theorem stompIoCanRead_eq (io : Io) :
    ∃ io', stompIoCanRead io = (waitOk io.socket.waits, io') ∧
      io'.socket.inbox = io.socket.inbox ∧
        io'.socket.recvs = io.socket.recvs := by
  rcases stompIoCanRead_cases io with ⟨rc, rest, io', hwaits, hcan, hsocket, -⟩ |
    ⟨hwaits, hcan⟩
  · refine ⟨io', by rw [hcan, hwaits]; rfl, ?_⟩
    rw [hsocket]
    exact ⟨rfl, rfl⟩
  · have hok : waitOk io.socket.waits = true := by
      unfold waitOk
      split
      · exact absurd ‹_› (hwaits _ _)
      · rfl
    exact ⟨afterWait io, by rw [hcan, hok], rfl, rfl⟩

/-- Going to read takes the next frame, if the wait succeeds. -/
theorem readStep_takes {A : Apr} {endline : UInt8} {w w' : World}
    {socket : Socket}
    {reading : Reading} (h : ReadStep A endline w socket reading w')
    (hd : ∀ turn ∈ socket.recvs, ∃ extra, turn = .upTo extra)
    (hnext : waitOk socket.waits = true →
      FrameArrived socket.inbox socket.recvs) :
    ∃ socket', w'.messenger.connection = some socket' ∧
      (waitOk socket.waits = false ∧ reading = .notReady ∧
        socket'.inbox = socket.inbox ∨
        ∃ f : WireFrame, waitOk socket.waits = true ∧ reading = .frame f.frame ∧
          socket.inbox = f.bytes ++ socket'.inbox) := by
  obtain ⟨io₁, hcan, hinbox, hrecvs⟩ := stompIoCanRead_eq (w.toIo endline socket)
  have hread : waitOk socket.waits = true → ∃ (f : WireFrame) (io₂ : Io),
      socket.inbox = f.bytes ++ io₂.socket.inbox ∧
        stompRead A io₁ = .ok f.frame io₂ := by
    intro hok
    obtain ⟨f, t, hin, hunwrapped, hsized, hwhole⟩ := hnext hok
    have hdelivering : Delivering io₁ := by
      intro turn ht
      exact hd turn (hrecvs ▸ ht)
    obtain ⟨turns, -, hstomp⟩ :=
      stompRead_wire A hdelivering hunwrapped hsized
        (fun v hv => by rw [hrecvs]; exact hwhole v hv) (hinbox.trans hin)
    exact ⟨f, remaining t turns io₁, hin, hstomp⟩
  cases h with
  | notReady hwait =>
      obtain ⟨hready, rfl⟩ := Prod.mk.inj (hcan.symm.trans hwait)
      exact ⟨_, rfl, .inl ⟨hready, rfl, hinbox⟩⟩
  | failed hwait herror =>
      obtain ⟨hready, rfl⟩ := Prod.mk.inj (hcan.symm.trans hwait)
      obtain ⟨f, io₂, -, hok⟩ := hread hready
      cases hok.symm.trans herror
  | frame hwait hstomp =>
      obtain ⟨hready, rfl⟩ := Prod.mk.inj (hcan.symm.trans hwait)
      obtain ⟨f, io₂, hin, hok⟩ := hread hready
      obtain ⟨rfl, rfl⟩ := EStateM.Result.ok.inj (hok.symm.trans hstomp)
      exact ⟨_, rfl, .inr ⟨f, hready, rfl, hin⟩⟩

/-- The bytes that arrive during the calls of a log. -/
def arrivals (log : Log) : Bytes := log.flatMap fun e => e.call.net.arrivals

section OneCall

variable {A : Apr} {net : Net} {op : Op} {pre post : World} {socket : Socket}
variable (ho : Orderly pre ⟨op, net⟩)
    (hsocket : pre.messenger.connection = some socket)
include ho hsocket

/-- An orderly call that goes to read, on a socket with its schedule, takes the next
frame if its wait succeeds. -/
private theorem takes_next {w w' : World} {loaded : Socket} {reading : Reading}
    (hread : ReadStep A net.endline w loaded reading w')
    (hreads : reads pre.messenger op = true)
    (hinbox : loaded.inbox = socket.inbox ++ net.arrivals)
    (hrecvs : loaded.recvs = net.recvs) (hwaits : loaded.waits = net.waits) :
    ∃ socket', w'.messenger.connection = some socket' ∧
      (waitOk net.waits = false ∧ reading = .notReady ∧
          socket'.inbox = socket.inbox ++ net.arrivals ∨
        ∃ f : WireFrame, waitOk net.waits = true ∧ reading = .frame f.frame ∧
          socket.inbox ++ net.arrivals = f.bytes ++ socket'.inbox) := by
  rw [← hinbox, ← hwaits]
  refine readStep_takes hread (fun turn ht => ho.delivering turn (hrecvs ▸ ht))
    fun hok => ?_
  rw [hinbox, hrecvs]
  exact ho.arrived hreads (hwaits ▸ hok) socket hsocket

private theorem took_receive {message message' : Message} {code : StatusCode}
    (hop : op = .receive message)
    (h : Received A net.endline (pre.load net)
      (loadSocket net socket) message code message' post) :
    ∃ mark socket', Took ⟨pre, ⟨op, net⟩, ⟨some code, some message'⟩, post⟩ mark ∧
      post.messenger.connection = some socket' ∧
      socket.inbox ++ net.arrivals =
        streamOf WireFrame.bytes mark.toList ++ socket'.inbox := by
  have hreads : reads pre.messenger op = true := by
    rw [hop]
    rfl
  obtain ⟨reading, w₁, hread, hconnection, hreply⟩ := Received.reading h
  rw [hconnection]
  obtain ⟨socket', hsocket', ⟨hwait, rfl, hin⟩ | ⟨f, hwait, rfl, hin⟩⟩ :=
    takes_next ho hsocket hread hreads rfl rfl rfl
  · obtain ⟨rfl, rfl⟩ := Prod.mk.inj hreply
    refine ⟨none, socket', .nothing (.inr (.inl hwait)) ?_ ?_ ?_, hsocket',
      hin.symm⟩
    · subst hop
      exact fun hm => absurd rfl hm
    · subst hop
      exact fun hm => nomatch hm
    · intro message' hm
      obtain rfl := Op.receive.inj (hop.symm.trans hm)
      rfl
  · obtain ⟨rfl, rfl⟩ := Prod.mk.inj hreply
    exact ⟨some f, socket', .received hwait hop rfl, hsocket', by simpa using hin⟩

private theorem took_request {q : Request} {code : StatusCode}
    (hrequest : request pre.messenger op = some q)
    (h : Transacted A net (pre.load net) q (loadSocket net socket) code post) :
    ∃ mark socket', Took ⟨pre, ⟨op, net⟩, ⟨some code, none⟩, post⟩ mark ∧
      post.messenger.connection = some socket' ∧
      socket.inbox ++ net.arrivals =
        streamOf WireFrame.bytes mark.toList ++ socket'.inbox := by
  have hop : isReceive op = false := by cases op <;> first | rfl | cases hrequest
  cases h with
  | unwritten hsplit hmore hacc hfails =>
      exact ⟨none, _, .of_not_receive hop rfl (.inr (.inr hfails)) fun _ => rfl,
        rfl, hacc.inbox.symm⟩
  | written hacc hnowait =>
      have hnone : receiptOf pre.messenger op = none :=
        not_not.mp (mt (waits_iff hrequest).mpr hnowait)
      have hidle : reads pre.messenger op = false := by
        rw [reads, hop, hnone]
        rfl
      exact ⟨none, _,
        .of_not_receive hop rfl (.inl hidle) fun hm => absurd hnone hm, rfl,
        hacc.inbox.symm⟩
  | waited hacc hwaits hwaited =>
      have hreceipt := (waits_iff hrequest).mp hwaits
      have hreads : reads pre.messenger op = true := by
        rw [reads, hop, Option.isSome_iff_ne_none.mpr hreceipt]
        rfl
      obtain ⟨reading, w₁, hread, hconnection, rfl⟩ := Waited.reading hwaited
      rw [hconnection]
      obtain ⟨socket', hsocket', ⟨hwait, rfl, hin⟩ | ⟨f, hwait, rfl, hin⟩⟩ :=
        takes_next ho hsocket hread hreads hacc.inbox hacc.recvs hacc.waits
      · exact ⟨none, socket',
          .of_not_receive hop rfl (.inr (.inl hwait)) fun _ => rfl, hsocket',
          hin.symm⟩
      · exact ⟨some f, socket', .waited hwait hreceipt rfl,
          hsocket', by simpa using hin⟩

end OneCall

/-- **One call takes the next frame or nothing.** -/
theorem took_step {A : Apr} {e : Event World Call Reply}
    (h : step A e.pre e.call = some (e.reply, e.post)) (ho : Orderly e.pre e.call)
    {socket : Socket} (hsocket : e.pre.messenger.connection = some socket) :
    ∃ mark socket', Took e mark ∧ e.post.messenger.connection = some socket' ∧
      socket.inbox ++ e.call.net.arrivals =
        streamOf WireFrame.bytes mark.toList ++ socket'.inbox := by
  obtain ⟨pre, ⟨op, net⟩, reply, post⟩ := e
  have hloaded := load_connection_of_some net hsocket
  have hstepped : Stepped A net pre op reply post := stepped_of_step h
  cases hstepped with
  | request hrequest hrun =>
      obtain ⟨socket₁, hsocket₁, htransacted⟩ := transacted_of_transact hrun
      obtain rfl := Option.some.inj (hloaded.symm.trans hsocket₁)
      exact took_request ho hsocket hrequest htransacted
  | connect => exact absurd rfl (ho.same_connection _)
  | receive hrun =>
      obtain ⟨socket₁, hsocket₁, hreceived⟩ := received_of_receive hrun
      obtain rfl := Option.some.inj (hloaded.symm.trans hsocket₁)
      exact took_receive ho hsocket rfl hreceived
  | setEndpoint hrun =>
      obtain ⟨st, rfl, -⟩ := setEndpoint_cases hrun
      exact ⟨none, _,
        .of_not_receive rfl rfl (.inl rfl) fun hm => absurd rfl hm, hloaded, rfl⟩
  | noHeader =>
      exact ⟨none, _,
        .of_not_receive rfl rfl (.inl rfl) fun hm => absurd rfl hm, hloaded, rfl⟩
  | exchangeAdd =>
      exact ⟨none, _,
        .of_not_receive rfl rfl (.inl rfl) fun hm => absurd rfl hm, hloaded, rfl⟩
  | exchangeClear =>
      exact ⟨none, _,
        .of_not_receive rfl rfl (.inl rfl) fun hm => absurd rfl hm, hloaded, rfl⟩

/-! ## Runs -/

/-- The frames that were taken. -/
def taken (marks : List (Option WireFrame)) : List WireFrame :=
  marks.flatMap Option.toList

@[simp] theorem taken_nil : taken [] = [] := rfl

@[simp] theorem taken_cons (mark : Option WireFrame)
    (marks : List (Option WireFrame)) :
    taken (mark :: marks) = mark.toList ++ taken marks := rfl

theorem arrivals_cons (e : Event World Call Reply) (log : Log) :
    arrivals (e :: log) = e.call.net.arrivals ++ arrivals log := rfl

/-- Bytes are neither lost nor read twice: at the end of the run, and of each part of it,
the frames taken are what has arrived less what is unread. -/
theorem conserved_run {A : Apr} {w w' : World} {log : Log}
    (h : Run (step A) w log w')
    (ho : ∀ e ∈ log, Orderly e.pre e.call) {socket : Socket}
    (hsocket : w.messenger.connection = some socket) :
    ∃ marks socket', List.Forall₂ Took log marks ∧
      w'.messenger.connection = some socket' ∧
      socket.inbox ++ arrivals log =
        streamOf WireFrame.bytes (taken marks) ++ socket'.inbox ∧
        ∀ n, streamOf WireFrame.bytes (taken (marks.take n)) <+:
          socket.inbox ++ arrivals (log.take n) := by
  induction h generalizing socket with
  | nil w =>
      exact ⟨[], socket, .nil, hsocket, by simp [arrivals], fun n => by simp⟩
  | @cons w₀ w₁ w₂ c r log head rest ih =>
      obtain ⟨mark, socket₁, htook, hsocket₁, hin⟩ :=
        took_step (e := ⟨w₀, c, r, w₁⟩) head (ho _ (by simp)) hsocket
      obtain ⟨marks, socket', hmarks, hsocket', hout, hparts⟩ :=
        ih (fun e he => ho e (by simp [he])) hsocket₁
      refine ⟨mark :: marks, socket', .cons htook hmarks, hsocket', ?_,
        fun n => ?_⟩
      · rw [arrivals_cons, ← List.append_assoc, hin, List.append_assoc, hout,
          taken_cons, streamOf_append, List.append_assoc]
      · cases n with
        | zero => exact List.nil_prefix
        | succ n =>
            rw [List.take_succ_cons, List.take_succ_cons, arrivals_cons,
              ← List.append_assoc, hin, List.append_assoc, taken_cons,
              streamOf_append]
            exact (List.prefix_append_right_inj _).mpr (hparts n)

/-- **The frames taken over a run are the first frames of the stream**, and the others
are unread. -/
theorem took_run {A : Apr} {w w' : World} {log : Log} (h : Run (step A) w log w')
    (ho : ∀ e ∈ log, Orderly e.pre e.call) {socket : Socket}
    (hsocket : w.messenger.connection = some socket) {fs : List WireFrame}
    {future : Bytes}
    (hstream : socket.inbox ++ arrivals log ++ future =
      streamOf WireFrame.bytes fs) :
    ∃ marks unread socket', List.Forall₂ Took log marks ∧
      fs = taken marks ++ unread ∧
      w'.messenger.connection = some socket' ∧
      socket'.inbox ++ future = streamOf WireFrame.bytes unread := by
  obtain ⟨marks, socket', hmarks, hsocket', hin, -⟩ := conserved_run h ho hsocket
  rw [hin, List.append_assoc] at hstream
  obtain ⟨unread, hfs, hunread⟩ := bytes_prefixFree.split hstream
  exact ⟨marks, unread, socket', hmarks, hfs, hsocket', hunread⟩

/-! ## Messages handed over -/

/-- The message a call hands over to the application. -/
def delivered (e : Event World Call Reply) : Option Message :=
  if e.reply.code = some .success then e.reply.message else none

private theorem not_isMessage {f : WireFrame} (h : isReceipt f = true) :
    isMessage f = false := by
  have hfirst : ∀ bytes : Bytes, (ascii "RECEIPT").isPrefixOf bytes = true →
      (ascii "MESSAGE").isPrefixOf bytes = false := by
    intro bytes hprefix
    cases bytes with
    | nil => rfl
    | cons b bytes =>
        have hb : (82 == b) = true := (Bool.and_eq_true_iff.mp hprefix).1
        obtain rfl := eq_of_beq hb
        rfl
  exact hfirst _ h

/-- If it meets a receipt where it waits for one, a call hands over what it takes. -/
theorem delivered_of_took {e : Event World Call Reply} {mark : Option WireFrame}
    (h : Took e mark)
    (hmeets : receiptOf e.pre.messenger e.call.op ≠ none →
      ∀ f ∈ mark, isReceipt f = true) :
    delivered e = (mark.filter isMessage).map handed := by
  unfold delivered
  cases h with
  | nothing _ _ hother hreceive =>
      have hnone : e.reply.code = some .success → e.reply.message = none := by
        intro hcode
        cases hop : isReceive e.call.op with
        | false => exact hother hop
        | true =>
            unfold isReceive at hop
            split at hop
            · rename_i message hreceived
              rw [hreceive message hreceived] at hcode
              cases hcode
            · cases hop
      split
      · exact hnone ‹_›
      · rfl
  | @received _ f _ _ hreply =>
      rw [hreply]
      cases hmessage : isMessage f with
      | true => simp [hmessage, Option.filter_some]
      | false => simp [hmessage, Option.filter_some]
  | @waited f _ hreceipt hreply =>
      have hno : isMessage f = false := not_isMessage (hmeets hreceipt f rfl)
      rw [hreply]
      simp [hno, Option.filter_some]

/-- The calls whose wait meets a receipt, if there is one. -/
def WaitsMeetReceipts (log : Log) (marks : List (Option WireFrame)) : Prop :=
  List.Forall₂ (fun e mark => receiptOf e.pre.messenger e.call.op ≠ none →
    ∀ f ∈ mark, isReceipt f = true) log marks

theorem deliveries_of_took {log : Log} {marks : List (Option WireFrame)}
    (h : List.Forall₂ Took log marks) (hmeets : WaitsMeetReceipts log marks) :
    log.filterMap delivered = ((taken marks).filter isMessage).map handed := by
  induction h with
  | nil => rfl
  | @cons e mark log marks htook _ ih =>
      obtain ⟨hmeet, hmeets⟩ := List.forall₂_cons.mp hmeets
      have hdelivered := delivered_of_took htook hmeet
      rw [taken_cons, List.filter_append, List.map_append, ← ih hmeets]
      cases mark with
      | none => rw [List.filterMap_cons_none hdelivered]; rfl
      | some f =>
          cases hmessage : isMessage f with
          | true =>
              have hsome : delivered e = some (handed f) := by
                simpa [hmessage, Option.filter_some] using hdelivered
              rw [List.filterMap_cons_some hsome]
              simp [hmessage]
          | false =>
              have hnone : delivered e = none := by
                simpa [hmessage, Option.filter_some] using hdelivered
              rw [List.filterMap_cons_none hnone]
              simp [hmessage]

/-! ## A session to evaluate the results with -/

/-- The messenger after the opening of a session. -/
@[irreducible] def opened : World :=
  ((exec (step .sample) (stompMessengerInit 0) opening).map Prod.snd).getD
    (stompMessengerInit 0)

theorem opened_reachable :
    ∃ log, Run (step .sample) (stompMessengerInit 0) log opened := by
  have hsome :
      (exec (step .sample) (stompMessengerInit 0) opening).isSome = true := by
    decide +kernel
  obtain ⟨⟨log, w⟩, hexec⟩ := Option.isSome_iff_exists.mp hsome
  refine ⟨log, ?_⟩
  rw [opened, hexec]
  exact exec_run hexec

theorem opened_inbox : opened.messenger.connection.map (·.inbox) = some [] := by
  decide +kernel

/-- The identifier of the request a frame answers. -/
def receiptId (f : WireFrame) : Option CString :=
  (table f.lines).lookup (.lit "receipt-id")

/-- A message without headers. -/
def greeting : WireFrame where
  command := ascii "MESSAGE"
  lines := []
  payload := ascii "ab"
  command_clean := clean_message
  lines_header := by decide
  payload_ok := by decide

/-- The answer to a request for the receipt 1. -/
def firstReceipt : WireFrame where
  command := ascii "RECEIPT"
  lines := [ascii "receipt-id:1"]
  payload := []
  command_clean := by decide
  lines_header := by decide
  payload_ok := by decide

theorem orderly_of_uncounted {w : World} {c : Call}
    (hop : ∀ header, c.op ≠ .connect header)
    (hrecvs : ∀ turn ∈ c.net.recvs, ∃ extra, turn = .upTo extra)
    {inbox t : Bytes} {f : WireFrame}
    (hinbox : w.messenger.connection.map (·.inbox) = some inbox)
    (hstart : inbox ++ c.net.arrivals = f.bytes ++ t) (hunwrapped : Unwrapped f)
    (hnone : contentLength f.lines = none) : Orderly w c := by
  refine ⟨hop, hrecvs, fun _ _ socket hsocket => ?_⟩
  rw [hsocket] at hinbox
  obtain rfl : socket.inbox = inbox := Option.some.inj hinbox
  refine ⟨f, t, hstart, hunwrapped, fun v hv => ?_, fun v hv => ?_⟩
  · cases hnone.symm.trans hv
  · cases hnone.symm.trans hv

end LibStomp.Session.Unread
