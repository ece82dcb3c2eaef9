import LibStomp.Session.Unread
import LibStomp.Session.CallOrder
import LibStomp.Verified.Coupling

/-!
# A session is a conversation of whole frames

To the application and the broker a session is an exchange of frames: an operation
says one, and may wait for the next one the broker has said.  `converse` is that
session, without a socket, without bytes and without a schedule.  The operations
of the library, which see the stream in the pieces `apr_socket_recv` and
`apr_socket_send` move, refine it as long as they stay in step (`InStep`).

A call is in step if no `recv` and no `send` fails during it and the frame it goes to
read, when the wait for it succeeds, has arrived (`FrameArrived`): no header line has a
multiple of `2 ^ 32` bytes, and a body under a content-length has at least one octet
and comes in one `recv`, its two end bytes in the next.  Everything else may travel in
any pieces.

## Main results

* `converse_step` — an in-step call does what the conversation does.
* `conversation_refined` — every in-step session, from before its connect to any
  point, replies as the conversation does, sends its frames and takes its frames.
* `schedule_invisible` — in-step sessions with the same operations, the same answers
  to the waits and the same frames from the broker cannot be told apart, whatever
  the sends accept at a time and however, within `InStep`, the bytes arrive.
-/

namespace LibStomp.Session.Conversation

open LibStomp.Model
open LibStomp.Verified.Lines
open LibStomp.Verified.Framing
open LibStomp.Verified.Runs
open LibStomp.Verified.Coupling
open LibStomp.Session.Steps
open LibStomp.Session.Sockets
open LibStomp.Session.Unread
open LibStomp.Session.CallOrder
open LibStomp.Stream.Grammar
open LibStomp.Stream.ReadLine
open LibStomp.Stream.Receiving
open LibStomp.Stream.WriteFrame

/-! ## The conversation -/

/-- A session seen frame by frame.  `unread` is what the broker says and nobody has
taken, `sent` what the library has said and the order it wrote the headers in. -/
structure Dialogue where
  messenger : Messenger
  isOpen : Bool
  unread : List WireFrame
  sent : List (HashOrder × Frame)

/-- A call as the conversation knows it: whether there is something to read when it
looks, and the order in which a table is visited. -/
structure Move where
  op : Op
  ready : Bool
  order : HashOrder

namespace Dialogue

/-- The status is set. -/
def note (s : Dialogue) (code : StatusCode) (text : CString) : Dialogue :=
  { s with messenger := { s.messenger with
    status := stompStatusSet s.messenger.status code (some text) } }

def say (s : Dialogue) (order : HashOrder) (frame : Frame) : Dialogue :=
  { s with sent := s.sent ++ [(order, frame)] }

/-- Wait for an answer that starts with `word`.  Any other is refused, with a text that
the wait may not have. -/
def await (s : Dialogue) (ready : Bool) (word : CString)
    (refusal : Frame → Option CString) : Option (Reply × Dialogue) :=
  if ready then
    match s.unread with
    | [] => none
    | f :: rest =>
        if f.frame.command.startsWith word then
          some (⟨some .success, none⟩, { s with unread := rest })
        else
          (refusal f.frame).map fun text =>
            (⟨some .failure, none⟩, { s with unread := rest }.note .failure text)
  else
    some (⟨some .failure, none⟩,
      s.note .failure (.lit "Timed out while trying to read data"))

/-- The text for an answer to a connect that is not `CONNECTED`. -/
def notConnected (frame : Frame) : Option CString :=
  some (.lit "Invalid connection reply: " ++ frame.command)

/-- Say the frame of a request, and wait for the receipt it asks for. -/
def ask (s : Dialogue) (q : Request) (ready : Bool) (order : HashOrder) :
    Option (Reply × Dialogue) :=
  if !s.isOpen then none
  else
    match q.receipt.filter (0 < ·) with
    | some _ => (s.say order q.frame).await ready (.lit "RECEIPT") invalidReply
    | none => some (⟨some .success, none⟩, s.say order q.frame)

def connect (s : Dialogue) (header : Option ConnectionHeader) (ready : Bool)
    (order : HashOrder) : Option (Reply × Dialogue) :=
  if s.isOpen || s.messenger.uri.isNone then none
  else
    ({ s with isOpen := true }.say order (connectFrame header)).await ready
      (.lit "CONNECTED") notConnected

/-- Take the next frame, whatever it is, merge its headers and hand over its body. -/
def receive (s : Dialogue) (message : Message) (ready : Bool) :
    Option (Reply × Dialogue) :=
  if !s.isOpen then none
  else if ready then
    match s.unread with
    | [] => none
    | f :: rest =>
        some (⟨some (if isMessage f then .success else .failure), some (handed f)⟩,
          { s with
            unread := rest
            messenger := { s.messenger with
              exchangeProperties := aprHashOverlay (f.frame.headers.getD ∅)
                s.messenger.exchangeProperties } })
  else
    some (⟨some .successNoData, some message⟩,
      s.note .successNoData (.lit "Timed out while trying to read data"))

/-- Why an endpoint is refused, if it is. -/
def objection (A : Apr) (uri : CString) : Option CString :=
  if (A.uriParse uri).1.isSome then some (.lit "Unable to parse the URI")
  else
    match (A.uriParse uri).2.path with
    | none => some (.lit "Invalid connection destination: null")
    | some path =>
        if path.strlen = 0 then some (.lit "Invalid connection destination: empty")
        else none

/-- An endpoint is kept even if it is refused. -/
def setEndpoint (s : Dialogue) (A : Apr) (uri : CString) :
    Reply × Dialogue :=
  let s := { s with messenger :=
    { s.messenger with uri := some (A.uriParse uri).2 } }
  match objection A uri with
  | some text => (⟨some .failure, none⟩, s.note .failure text)
  | none => (⟨some .success, none⟩, s)

def setProperties (s : Dialogue) (properties : Hash) : Dialogue :=
  { s with messenger := { s.messenger with exchangeProperties := properties } }

end Dialogue

/-- One call, frame by frame. -/
def converse (A : Apr) (s : Dialogue) (c : Move) :
    Option (Reply × Dialogue) :=
  match request s.messenger c.op with
  | some q => s.ask q c.ready c.order
  | none =>
      match c.op with
      | .connect header => s.connect header c.ready c.order
      | .receive message => s.receive message c.ready
      | .setEndpoint uri => some (s.setEndpoint A uri)
      | .subscribe none =>
          some (⟨some .failure, none⟩, s.note .failure
            (.lit "A STOMP subscription requires a subscription ID"))
      | .exchangeAdd name value =>
          some (⟨none, none⟩, s.setProperties
            (aprHashSet s.messenger.exchangeProperties name value))
      | .exchangeClear => some (⟨none, none⟩, s.setProperties ∅)
      | _ => none

/-! ## What it has to do with the bytes -/

/-- A messenger without its connection. -/
def unplugged (m : Messenger) : Messenger := { m with connection := none }

/-- The frames on the wire. -/
def wire (sent : List (HashOrder × Frame)) : Bytes :=
  sent.flatMap fun p => encode p.1 p.2

theorem wire_concat (sent : List (HashOrder × Frame)) (order : HashOrder)
    (frame : Frame) :
    wire (sent ++ [(order, frame)]) = wire sent ++ encode order frame := by
  simp [wire]

/-- The state of the library carries the conversation: what was sent are its frames, and
what has arrived, with what is still to arrive, are the frames nobody has taken. -/
structure Carries (future : Bytes) (w : World) (s : Dialogue) : Prop where
  messenger : s.messenger = unplugged w.messenger
  isOpen : s.isOpen = w.messenger.connection.isSome
  inbox : w.messenger.connection.elim [] (·.inbox) ++ future =
    streamOf WireFrame.bytes s.unread
  outbox : w.messenger.connection.elim [] (·.outbox) = wire s.sent

/-- A connect that gets a connection, on which the broker's first frame arrives. -/
structure Fresh (w : World) (net : Net) : Prop where
  unconnected : w.messenger.connection = none
  connects : connects net.plan = true
  delivering : ∀ turn ∈ net.recvs, ∃ extra, turn = .upTo extra
  arrived : waitOk net.waits = true → FrameArrived net.arrivals net.recvs

/-- No `recv` and no `send` fails, and a frame the call goes to read has arrived: none of
its header lines wraps the length, and a counted body is not empty and comes, like the
two bytes behind it, in one `recv`. -/
structure InStep (w : World) (c : Call) : Prop where
  sends : SendsOk c.net
  fresh : ∀ header, c.op = .connect header → Fresh w c.net
  orderly : (∀ header, c.op ≠ .connect header) → Orderly w c
  idle : (∀ header, c.op ≠ .connect header) → w.messenger.connection = none →
    c.net.arrivals = []

/-- What the conversation knows of a call. -/
def move (c : Call) : Move := ⟨c.op, waitOk c.net.waits, c.net.order⟩

/-- The bytes that arrive during these calls. -/
def arriving (calls : List Call) : Bytes := calls.flatMap (·.net.arrivals)

theorem arrivals_eq_arriving (log : Log) :
    arrivals log = arriving (log.map Event.call) := by
  rw [arrivals, arriving, List.flatMap_map]

/-! ## The parts of an operation -/

section Parts

variable {future : Bytes} {w w' : World} {s : Dialogue}

theorem request_unplugged (m : Messenger) (op : Op) :
    request (unplugged m) op = request m op := by
  cases op with
  | subscribe header => cases header <;> rfl
  | unsubscribe header => cases header <;> rfl
  | _ => rfl

theorem Carries.note (h : Carries future w s) (code : StatusCode) (text : CString) :
    Carries future (w.setStatus code text) (s.note code text) where
  messenger := by
    rw [Dialogue.note, h.messenger]
    rfl
  isOpen := h.isOpen
  inbox := h.inbox
  outbox := h.outbox

/-- The schedule of a call takes effect. -/
theorem Carries.load {net : Net} (h : Carries (net.arrivals ++ future) w s)
    (hidle : w.messenger.connection = none → net.arrivals = []) :
    Carries future (w.load net) s where
  messenger := h.messenger
  isOpen := by rw [load_isSome, h.isOpen]
  inbox := by
    rw [← h.inbox, load_connection]
    cases hsocket : w.messenger.connection with
    | none => simp [hidle hsocket]
    | some socket => simp [loadSocket]
  outbox := by
    rw [← h.outbox, load_connection]
    cases w.messenger.connection <;> rfl

/-- A frame was written. -/
theorem Carries.say (h : Carries future w s) {socket : Socket} {io : Io}
    {endline : UInt8} {order : HashOrder} {frame : Frame}
    (hsocket : w.messenger.connection = some socket)
    (hacc : Accepted (w.toIo endline socket) io (encode order frame)) :
    Carries future (w.withIo io) (s.say order frame) where
  messenger := h.messenger
  isOpen := by rw [Dialogue.say, h.isOpen, hsocket]; rfl
  inbox := by
    have hinbox := h.inbox
    rw [hsocket] at hinbox
    show io.socket.inbox ++ future = _
    rw [hacc.inbox]
    exact hinbox
  outbox := by
    have houtbox := h.outbox
    rw [hsocket] at houtbox
    show io.socket.outbox = _
    rw [hacc.outbox, Dialogue.say, wire_concat, ← houtbox]
    rfl

/-- Going to read takes the next frame of the conversation, if there is something to
read. -/
theorem Carries.take {A : Apr} {endline : UInt8} {socket : Socket} {reading : Reading}
    (h : Carries future w s) (hsocket : w.messenger.connection = some socket)
    (hread : w.readFrame A endline = some (reading, w'))
    (hd : ∀ turn ∈ socket.recvs, ∃ extra, turn = .upTo extra)
    (hnext : waitOk socket.waits = true → FrameArrived socket.inbox socket.recvs) :
    waitOk socket.waits = false ∧ reading = .notReady ∧ Carries future w' s ∨
      ∃ f rest, waitOk socket.waits = true ∧ reading = .frame f.frame ∧
        s.unread = f :: rest ∧ Carries future w' { s with unread := rest } := by
  obtain ⟨socket₀, hsocket₀, hstep⟩ := readStep_of_readFrame hread
  obtain rfl := Option.some.inj (hsocket.symm.trans hsocket₀)
  obtain ⟨socket₁, hsocket₁, hcases⟩ := readStep_takes hstep hd hnext
  obtain ⟨socket₂, hsocket₂, hout⟩ := Outbox.ReadStep.socket hstep
  obtain rfl := Option.some.inj (hsocket₁.symm.trans hsocket₂)
  have hmessenger : unplugged w'.messenger = unplugged w.messenger := by
    cases hstep <;> rfl
  have hinbox := h.inbox
  have houtbox := h.outbox
  rw [hsocket] at hinbox houtbox
  have hkept : ∀ rest, socket₁.inbox ++ future = streamOf WireFrame.bytes rest →
      Carries future w' { s with unread := rest } := by
    intro rest hrest
    refine ⟨h.messenger.trans hmessenger.symm, ?_, ?_, ?_⟩
    · rw [h.isOpen, hsocket, hsocket₁]
      rfl
    · rw [hsocket₁]
      exact hrest
    · rw [hsocket₁]
      exact hout.trans houtbox
  rcases hcases with ⟨hwait, rfl, hsame⟩ | ⟨f, hwait, rfl, hin⟩
  · exact .inl ⟨hwait, rfl, hkept s.unread (hsame ▸ hinbox)⟩
  · have hstream : streamOf WireFrame.bytes [f] ++ (socket₁.inbox ++ future) =
        streamOf WireFrame.bytes s.unread := by
      rw [← hinbox]
      show _ = socket.inbox ++ future
      rw [hin]
      simp
    obtain ⟨rest, hunread, hrest⟩ := bytes_prefixFree.split hstream
    exact .inr ⟨f, rest, hwait, rfl, hunread, hkept rest hrest⟩

end Parts

/-! ## The operations -/

section Operations

variable {A : Apr} {net : Net} {future : Bytes} {w w' : World} {s : Dialogue}
variable {socket : Socket} {code : StatusCode}

/-- The socket delivers, and a call that looks finds the next frame there. -/
structure Supplied (socket : Socket) : Prop where
  delivering : ∀ turn ∈ socket.recvs, ∃ extra, turn = .upTo extra
  arrived : waitOk socket.waits = true → FrameArrived socket.inbox socket.recvs

/-- Writing does not touch what there is to read. -/
theorem Supplied.written {io io' : Io} {bs : Bytes} (h : Supplied io.socket)
    (hacc : Accepted io io' bs) : Supplied io'.socket where
  delivering turn ht := h.delivering turn (hacc.recvs ▸ ht)
  arrived hok := by
    rw [hacc.inbox, hacc.recvs]
    exact h.arrived (hacc.waits ▸ hok)

theorem Carries.processReceipt (h : Carries future w s)
    (hsocket : w.messenger.connection = some socket) (hs : Supplied socket)
    (hrun : stompProcessReceipt A net w = some (code, w')) :
    ∃ s', s.await (waitOk socket.waits) (.lit "RECEIPT") invalidReply =
      some (⟨some code, none⟩, s') ∧ Carries future w' s' := by
  unfold stompProcessReceipt at hrun
  obtain ⟨⟨reading, w₁⟩, hread, hrest⟩ := Option.bind_eq_some_iff.mp hrun
  unfold Dialogue.await
  rcases h.take hsocket hread hs.delivering hs.arrived with
    ⟨hwait, rfl, h₁⟩ | ⟨f, rest, hwait, rfl, hunread, h₁⟩
  · obtain ⟨rfl, rfl⟩ := Prod.mk.inj (Option.some.inj hrest)
    rw [hwait]
    exact ⟨_, rfl, h₁.note _ _⟩
  · simp only [hwait, hunread, if_true]
    simp only [] at hrest
    cases hreceipt : f.frame.command.startsWith (.lit "RECEIPT") with
    | true =>
        rw [hreceipt] at hrest
        obtain ⟨rfl, rfl⟩ := Prod.mk.inj (Option.some.inj hrest)
        exact ⟨_, rfl, h₁⟩
    | false =>
        rw [hreceipt] at hrest
        obtain ⟨text, htext, hsome⟩ := Option.bind_eq_some_iff.mp hrest
        obtain ⟨rfl, rfl⟩ := Prod.mk.inj (Option.some.inj hsome)
        exact ⟨_, congrArg (Option.map _) htext, h₁.note _ _⟩

/-- Writing a frame on a socket none of whose sends fails. -/
theorem write_accepted {frame : Frame} {net : Net}
    {stat : Except AprError Unit}
    (hsocket : w.messenger.connection = some socket)
    (hsends : ∀ turn ∈ socket.sends, ∃ extra, turn = .upTo extra)
    (hwrite : w.write A net frame = some (stat, w')) :
    ∃ io, stat = .ok () ∧ w' = w.withIo io ∧
      Accepted (w.toIo net.endline socket) io (encode net.order frame) := by
  have hsending : Sending (w.toIo net.endline socket) := hsends
  obtain ⟨socket₀, hsocket₀, hcases⟩ := onConnection_eq_some (write_eq_some hwrite)
  obtain rfl := Option.some.inj (hsocket.symm.trans hsocket₀)
  have hwrites := stompWrite_writes A net.order frame
  rcases hcases with ⟨a, io, hok, rfl, rfl⟩ | ⟨rc, io, herror, rfl, rfl⟩
  · exact ⟨io, rfl, rfl, hwrites.accepted hok⟩
  · obtain ⟨_, _, -, -, -, hfails⟩ := hwrites.cut herror
    exact absurd hsending hfails

theorem Carries.transact {q : Request} (h : Carries future w s)
    (hsocket : w.messenger.connection = some socket)
    (hsends : ∀ turn ∈ socket.sends, ∃ extra, turn = .upTo extra)
    (hs : q.receipt.filter (0 < ·) ≠ none → Supplied socket)
    (hrun : transact A net q.note q.frame q.receipt w = some (code, w')) :
    ∃ s', s.ask q (waitOk socket.waits) net.order = some (⟨some code, none⟩, s') ∧
      Carries future w' s' := by
  have hopen : s.isOpen = true := by
    rw [h.isOpen, hsocket]
    rfl
  unfold Model.transact at hrun
  obtain ⟨⟨stat, w₁⟩, hwrite, hrest⟩ := Option.bind_eq_some_iff.mp hrun
  obtain ⟨io, rfl, rfl, hacc⟩ := write_accepted hsocket hsends hwrite
  have hsaid : Carries future (w.withIo io) (s.say net.order q.frame) :=
    h.say hsocket hacc
  unfold Dialogue.ask
  rw [hopen]
  simp only [] at hrest
  cases hreceipt : q.receipt with
  | none =>
      rw [hreceipt] at hrest
      obtain ⟨rfl, rfl⟩ := Prod.mk.inj (Option.some.inj hrest)
      exact ⟨_, rfl, hsaid⟩
  | some receipt =>
      rw [hreceipt] at hrest hs
      simp only [] at hrest
      by_cases hpos : 0 < receipt
      · rw [if_pos hpos] at hrest
        have hfilter : (some receipt).filter (0 < ·) = some receipt := by
          simp [Option.filter, hpos]
        have hsupplied : Supplied io.socket :=
          (hs (by rw [hfilter]; exact Option.some_ne_none _)).written hacc
        obtain ⟨s', hawait, hfinal⟩ := hsaid.processReceipt rfl hsupplied hrest
        refine ⟨s', ?_, hfinal⟩
        rw [hfilter, ← hawait, hacc.waits]
        rfl
      · rw [if_neg hpos] at hrest
        obtain ⟨rfl, rfl⟩ := Prod.mk.inj (Option.some.inj hrest)
        have hfilter : (some receipt).filter (0 < ·) = none := by
          simp [Option.filter, hpos]
        rw [hfilter]
        exact ⟨_, rfl, hsaid⟩

theorem Carries.receive {message message' : Message} (h : Carries future w s)
    (hsocket : w.messenger.connection = some socket) (hs : Supplied socket)
    (hrun : stompReceive A net message w = some (code, message', w')) :
    ∃ s', s.receive message (waitOk socket.waits) =
      some (⟨some code, some message'⟩, s') ∧ Carries future w' s' := by
  have hopen : s.isOpen = true := by
    rw [h.isOpen, hsocket]
    rfl
  unfold stompReceive at hrun
  obtain ⟨⟨reading, w₁⟩, hread, hrest⟩ := Option.bind_eq_some_iff.mp hrun
  unfold Dialogue.receive
  rw [if_neg (by rw [hopen]; exact Bool.false_ne_true)]
  rcases h.take hsocket hread hs.delivering hs.arrived with
    ⟨hwait, rfl, h₁⟩ | ⟨f, rest, hwait, rfl, hunread, h₁⟩
  · obtain ⟨rfl, hp⟩ := Prod.mk.inj (Option.some.inj hrest)
    obtain ⟨rfl, rfl⟩ := Prod.mk.inj hp
    rw [hwait]
    exact ⟨_, rfl, h₁.note _ _⟩
  · simp only [hwait, hunread, if_true]
    have hmerged : Carries future (merge f.frame w₁)
        { s with
          unread := rest
          messenger := { s.messenger with
            exchangeProperties := aprHashOverlay (f.frame.headers.getD ∅)
              s.messenger.exchangeProperties } } := by
      refine ⟨?_, h₁.isOpen, h₁.inbox, h₁.outbox⟩
      have hmessenger : s.messenger = unplugged w₁.messenger := h₁.messenger
      rw [hmessenger]
      rfl
    simp only [] at hrest
    cases hmessage : f.frame.command.startsWith (.lit "MESSAGE") with
    | true =>
        rw [hmessage] at hrest
        obtain ⟨rfl, hp⟩ := Prod.mk.inj (Option.some.inj hrest)
        obtain ⟨rfl, rfl⟩ := Prod.mk.inj hp
        exact ⟨_, by rw [isMessage, hmessage]; rfl, hmerged⟩
    | false =>
        rw [hmessage] at hrest
        obtain ⟨rfl, hp⟩ := Prod.mk.inj (Option.some.inj hrest)
        obtain ⟨rfl, rfl⟩ := Prod.mk.inj hp
        exact ⟨_, by rw [isMessage, hmessage]; rfl, hmerged⟩

theorem Carries.connect {header : Option ConnectionHeader}
    (h : Carries (net.arrivals ++ future) w s) (hsends : SendsOk net)
    (hfresh : Fresh w net) (hrun : stompConnect A net header w = some (code, w')) :
    ∃ s', s.connect header (waitOk net.waits) net.order =
      some (⟨some code, none⟩, s') ∧ Carries future w' s' := by
  obtain ⟨hnone, hconnects, hd, hnext⟩ := hfresh
  have hopen : s.isOpen = false := by
    rw [h.isOpen, hnone]
    rfl
  have hinbox : net.arrivals ++ future = streamOf WireFrame.bytes s.unread := by
    have hin := h.inbox
    rw [hnone] at hin
    exact hin
  have houtbox : wire s.sent = [] := by
    have hout := h.outbox
    rw [hnone] at hout
    exact hout.symm
  unfold stompConnect at hrun
  obtain ⟨uri, huri, hrun⟩ := Option.bind_eq_some_iff.mp hrun
  have huri' : s.messenger.uri = some uri := by
    rw [h.messenger]
    exact huri
  unfold Dialogue.connect
  simp only [hopen, huri', Option.isNone_some, Bool.or_self, Bool.false_eq_true,
    if_false]
  cases hengine : stompEngineConnect A net.plan uri.hostname w.engine with
  | error rc engine =>
      have houtcome := engineConnect_outcome A net.plan uri.hostname w.engine
      rw [hengine] at houtcome
      obtain ⟨hcreates, hestablishes⟩ := Bool.and_eq_true_iff.mp hconnects
      exact absurd (of_decide_eq_true hestablishes)
        (houtcome.1 (of_decide_eq_true hcreates))
  | ok descriptor engine =>
      rw [hengine] at hrun
      obtain ⟨⟨stat, w₁⟩, hwrite, hrest⟩ := Option.bind_eq_some_iff.mp hrun
      have hsends' : ∀ turn ∈ (net.socket descriptor).sends,
          ∃ extra, turn = .upTo extra := hsends
      obtain ⟨io, rfl, rfl, hacc⟩ := write_accepted rfl hsends' hwrite
      have hplugged : Carries future
          { w with
            engine := engine
            messenger := { w.messenger with
              connection := some (net.socket descriptor) } }
          { s with isOpen := true } :=
        ⟨h.messenger, rfl, hinbox, houtbox.symm⟩
      have hsaid := hplugged.say rfl hacc
      have hfreshSocket : Supplied (net.socket descriptor) := ⟨hd, hnext⟩
      have hsupplied : Supplied io.socket := hfreshSocket.written hacc
      have hwaits : waitOk io.socket.waits = waitOk net.waits :=
        congrArg waitOk hacc.waits
      obtain ⟨⟨reading, w₂⟩, hread, hfinish⟩ := Option.bind_eq_some_iff.mp hrest
      unfold Dialogue.await
      rw [← hwaits]
      rcases hsaid.take rfl hread hsupplied.delivering hsupplied.arrived with
        ⟨hwait, rfl, h₁⟩ | ⟨f, rest, hwait, rfl, hunread, h₁⟩
      · obtain ⟨rfl, rfl⟩ := Prod.mk.inj (Option.some.inj hfinish)
        rw [hwait]
        exact ⟨_, rfl, h₁.note _ _⟩
      · simp only [hwait, hunread, if_true]
        simp only [] at hfinish
        cases hreply : f.frame.command.startsWith (.lit "CONNECTED") with
        | true =>
            rw [hreply] at hfinish
            obtain ⟨rfl, rfl⟩ := Prod.mk.inj (Option.some.inj hfinish)
            exact ⟨_, rfl, h₁⟩
        | false =>
            rw [hreply] at hfinish
            obtain ⟨rfl, rfl⟩ := Prod.mk.inj (Option.some.inj hfinish)
            exact ⟨_, rfl, h₁.note _ _⟩

theorem stompSetEndpoint_eq (A : Apr) (uri : CString) (w : World) :
    stompSetEndpoint A uri w =
      let w' : World := { w with messenger :=
        { w.messenger with uri := some (A.uriParse uri).2 } }
      (Dialogue.objection A uri).elim (some (.success, w')) w'.failure := by
  unfold stompSetEndpoint Dialogue.objection
  rcases A.uriParse uri with ⟨_ | rc, parsed⟩
  · cases hpath : parsed.path with
    | none => simp [hpath]
    | some path => by_cases hempty : path.strlen = 0 <;> simp [hpath, hempty]
  · rfl

theorem Carries.setEndpoint {uri : CString} (h : Carries future w s)
    (hrun : stompSetEndpoint A uri w = some (code, w')) :
    ∃ s', s.setEndpoint A uri = (⟨some code, none⟩, s') ∧ Carries future w' s' := by
  have hset : Carries future
      { w with messenger := { w.messenger with uri := some (A.uriParse uri).2 } }
      { s with messenger := { s.messenger with uri := some (A.uriParse uri).2 } } := by
    refine ⟨?_, h.isOpen, h.inbox, h.outbox⟩
    rw [h.messenger]
    rfl
  rw [stompSetEndpoint_eq] at hrun
  unfold Dialogue.setEndpoint
  cases hobjection : Dialogue.objection A uri with
  | some text =>
      rw [hobjection] at hrun
      obtain ⟨rfl, rfl⟩ := Prod.mk.inj (Option.some.inj hrun)
      exact ⟨_, rfl, hset.note _ _⟩
  | none =>
      rw [hobjection] at hrun
      obtain ⟨rfl, rfl⟩ := Prod.mk.inj (Option.some.inj hrun)
      exact ⟨_, rfl, hset⟩

end Operations

/-! ## One call -/

/-- **An in-step call does what the conversation does.** -/
theorem converse_step (A : Apr) {future : Bytes} {w w' : World} {c : Call}
    {r : Reply} {s : Dialogue} (h : Carries (c.net.arrivals ++ future) w s)
    (hin : InStep w c) (hstep : step A w c = some (r, w')) :
    ∃ s', converse A s (move c) = some (r, s') ∧ Carries future w' s' := by
  obtain ⟨op, net⟩ := c
  have hstepped : Stepped A net w op r w' := stepped_of_step hstep
  have hloaded : (∀ header, op ≠ .connect header) → Carries future (w.load net) s :=
    fun hop => h.load (hin.idle hop)
  have hsame : request s.messenger op = request w.messenger op := by
    rw [h.messenger, request_unplugged]
  -- what an operation that looks for a frame finds on the socket of the call
  have hsupplied : ∀ {socket : Socket}, (∀ header, op ≠ .connect header) →
      reads w.messenger op = true → w.messenger.connection = some socket →
        Supplied (loadSocket net socket) := by
    intro socket hop hreads hsocket
    have horderly := hin.orderly hop
    exact ⟨horderly.delivering, fun hok => horderly.arrived hreads hok socket hsocket⟩
  unfold converse
  rw [show (move ⟨op, net⟩).op = op from rfl, hsame]
  cases hstepped with
  | @request _ q code _ hrequest hrun =>
      have hop : ∀ header, op ≠ .connect header := by
        rintro header rfl
        cases hrequest
      obtain ⟨loaded, hsocket, -⟩ := transacted_of_transact hrun
      obtain ⟨socket, hconnection, rfl⟩ :=
        Option.map_eq_some_iff.mp ((load_connection net w) ▸ hsocket)
      have hreceipt : receiptOf w.messenger op = q.receipt.filter (0 < ·) := by
        rw [receiptOf, hrequest]
        rfl
      have hwaits : q.receipt.filter (0 < ·) ≠ none →
          Supplied (loadSocket net socket) := by
        intro hne
        refine hsupplied hop ?_ hconnection
        rw [reads, hreceipt, Option.isSome_iff_ne_none.mpr hne, Bool.or_true]
      rw [hrequest]
      exact (hloaded hop).transact hsocket hin.sends hwaits hrun
  | @connect header _ _ hrun => exact h.connect hin.sends (hin.fresh header rfl) hrun
  | @receive message _ _ _ hrun =>
      have hop : ∀ header, Op.receive message ≠ .connect header := by simp
      obtain ⟨loaded, hsocket, -⟩ := received_of_receive hrun
      obtain ⟨socket, hconnection, rfl⟩ :=
        Option.map_eq_some_iff.mp ((load_connection net w) ▸ hsocket)
      exact (hloaded hop).receive hsocket (hsupplied hop rfl hconnection) hrun
  | setEndpoint hrun =>
      obtain ⟨s', hset, hfinal⟩ := (hloaded (by simp)).setEndpoint hrun
      exact ⟨s', congrArg some hset, hfinal⟩
  | noHeader => exact ⟨_, rfl, (hloaded (by simp)).note _ _⟩
  | exchangeAdd name value =>
      have hload := hloaded (by simp)
      refine ⟨_, rfl, ?_, hload.isOpen, hload.inbox, hload.outbox⟩
      rw [Dialogue.setProperties, hload.messenger]
      rfl
  | exchangeClear =>
      have hload := hloaded (by simp)
      refine ⟨_, rfl, ?_, hload.isOpen, hload.inbox, hload.outbox⟩
      rw [Dialogue.setProperties, hload.messenger]
      rfl

/-! ## Sessions -/

/-- What is left to say when the calls to come have been made. -/
def CarriesOn (future : Bytes) (calls : List Call) (w : World) (s : Dialogue) : Prop :=
  Carries (arriving calls ++ future) w s

theorem converse_simulates (A : Apr) (future : Bytes) :
    Simulates (CarriesOn future) InStep move (step A) (converse A) := by
  intro c cs w s r w' h hin hstep
  refine converse_step A ?_ hin hstep
  rw [CarriesOn, arriving, List.flatMap_cons, List.append_assoc] at h
  exact h

/-- The conversation before the connect: the frames are those the broker will send. -/
def opening (w : World) (frames : List WireFrame) : Dialogue :=
  ⟨unplugged w.messenger, false, frames, []⟩

theorem carries_opening {w : World} (hnone : w.messenger.connection = none)
    {future : Bytes} {frames : List WireFrame}
    (hstream : future = streamOf WireFrame.bytes frames) :
    Carries future w (opening w frames) where
  messenger := rfl
  isOpen := by rw [hnone]; rfl
  inbox := by rw [hnone]; exact hstream
  outbox := by rw [hnone]; rfl

/-! ## A session to evaluate the results with -/

theorem clean_connected : Clean lf nul (ascii "CONNECTED") := by decide

/-- The answer to a connect. -/
def welcome : WireFrame where
  command := ascii "CONNECTED"
  lines := []
  payload := []
  command_clean := clean_connected
  lines_header := List.forall_mem_nil _
  payload_ok := by decide

/-- Connect, and receive a message.  The bytes in `early` arrive before the connect
reads, those in `late` before the receive does; the runtime moves the frames of
the connect in `pieces`. -/
def hello (early late : Bytes) (pieces : List Turn) : List Call :=
  [⟨.setEndpoint (.lit "stomp://localhost:61613/queue/test"), .quiet []⟩,
    ⟨.connect none, { Net.quiet early with recvs := pieces, sends := pieces }⟩,
    ⟨.receive stompMessageCreate, .quiet late⟩]

/-- The bytes that are unread before each call. -/
def inboxes (log : Log) : List (Option Bytes) :=
  log.map fun e => e.pre.messenger.connection.map (·.inbox)

theorem inStep_hello {early late left t : Bytes} {pieces : List Turn} {log : Log}
    {w w' : World} (hexec : exec (step .sample) w (hello early late pieces) =
      some (log, w'))
    (hinboxes : inboxes log = [none, none, some left])
    (hpieces : ∀ turn ∈ pieces, ∃ extra, turn = .upTo extra)
    (hearly : early = welcome.bytes ++ t) (hlate : left ++ late = greeting.bytes) :
    ∀ e ∈ log, InStep e.pre e.call := by
  have hcalls := exec_calls hexec
  obtain ⟨e₁, es, rfl, he₁, hes⟩ := List.map_eq_cons_iff.mp hcalls
  obtain ⟨e₂, es, rfl, he₂, hes⟩ := List.map_eq_cons_iff.mp hes
  obtain ⟨e₃, rfl, he₃⟩ := List.map_eq_singleton_iff.mp hes
  obtain ⟨hnone₁, hinboxes⟩ := List.cons.inj hinboxes
  obtain ⟨hnone₂, hinbox₃⟩ := List.cons.inj hinboxes
  have hquiet : ∀ bs, SendsOk (.quiet bs) := fun bs turn ht => nomatch ht
  intro e he
  rcases List.mem_cons.mp he with rfl | he
  · rw [he₁]
    refine ⟨hquiet [], by simp, fun _ => ?_, fun _ _ => rfl⟩
    exact ⟨by simp, by simp [Net.quiet], fun hreads => by cases hreads⟩
  rcases List.mem_cons.mp he with rfl | he
  · rw [he₂]
    refine ⟨hpieces, fun header _ => ?_, fun hop => absurd rfl (hop none),
      fun hop => absurd rfl (hop none)⟩
    refine ⟨Option.map_eq_none_iff.mp hnone₂, rfl, hpieces, fun _ => ?_⟩
    exact ⟨welcome, t, hearly, by decide, by decide,
      fun v hv => by cases hv.symm.trans (by decide : contentLength welcome.lines = none)⟩
  · rw [List.mem_singleton.mp he, he₃]
    refine ⟨hquiet late, by simp, fun hop => ?_, fun _ hnone => ?_⟩
    · exact orderly_of_uncounted hop (fun turn ht => by cases ht)
        (List.singleton_inj.mp hinbox₃) (t := []) (by rw [List.append_nil]; exact hlate)
        (by decide) (by decide)
    · have hsome : e₃.pre.messenger.connection.map (·.inbox) = some left :=
        List.singleton_inj.mp hinbox₃
      rw [hnone] at hsome
      cases hsome

/-- The message arrives when the receive looks for it. -/
def prompt : List Call := hello welcome.bytes greeting.bytes []

/-- A run of these calls with what the results need. -/
theorem hello_run {early late left : Bytes} {pieces : List Turn}
    (h : (exec (step .sample) (stompMessengerInit 0) (hello early late pieces)).map
      (fun p => inboxes p.1) = some [none, none, some left]) :
    ∃ log w', exec (step .sample) (stompMessengerInit 0) (hello early late pieces) =
      some (log, w') ∧ inboxes log = [none, none, some left] := by
  obtain ⟨⟨log, w'⟩, hexec, hinboxes⟩ := Option.map_eq_some_iff.mp h
  exact ⟨log, w', hexec, hinboxes⟩

theorem prompt_run : ∃ log w',
    exec (step .sample) (stompMessengerInit 0) prompt = some (log, w') ∧
      inboxes log = [none, none, some []] :=
  hello_run (by decide +kernel)

theorem stream_hello {early late : Bytes} {pieces : List Turn} {log : Log}
    {w w' : World} (hexec : exec (step .sample) w (hello early late pieces) =
      some (log, w')) (hbytes : early ++ late = welcome.bytes ++ greeting.bytes) :
    arrivals log ++ [] = streamOf WireFrame.bytes [welcome, greeting] := by
  rw [arrivals_eq_arriving, exec_calls hexec]
  show ([] ++ (early ++ (late ++ []))) ++ [] = _
  simpa using hbytes

/-! ## The main results -/

/-- **An in-step session is a conversation.**  From any messenger without a connection
and for any frames of the broker, in any pieces that keep it in step: the replies are
those of the conversation, and at the end, as at any point before, the messenger is
the conversation's, the bytes sent are its frames, and the bytes that are unread or
still to arrive are the frames nobody has taken. -/
theorem conversation_refined (A : Apr) {w w' : World} {log : Log}
    (h : Run (step A) w log w') (hnone : w.messenger.connection = none)
    (hin : ∀ e ∈ log, InStep e.pre e.call) {frames : List WireFrame} {future : Bytes}
    (hstream : arrivals log ++ future = streamOf WireFrame.bytes frames) :
    ∃ talk s, exec (converse A) (opening w frames)
        (log.map fun e => move e.call) = some (talk, s) ∧
      talk.map Event.reply = log.map Event.reply ∧ Carries future w' s := by
  rw [arrivals_eq_arriving] at hstream
  exact exec_simulates (converse_simulates A future) h hin
    (carries_opening hnone hstream)

theorem conversation_refined_prompt : ∃ (log : Log) (w' : World)
    (talk : List (Event Dialogue Move Reply)) (s : Dialogue),
    log.map Event.call = prompt ∧
      exec (converse .sample) (opening (stompMessengerInit 0) [welcome, greeting])
        (log.map fun e => move e.call) = some (talk, s) ∧
      talk.map Event.reply = log.map Event.reply ∧ Carries [] w' s := by
  obtain ⟨log, w', hexec, hinboxes⟩ := prompt_run
  obtain ⟨talk, s, hresult⟩ := conversation_refined .sample (exec_run hexec) rfl
    (inStep_hello hexec hinboxes (by simp) (List.append_nil _).symm rfl)
    (stream_hello hexec rfl)
  exact ⟨log, w', talk, s, exec_calls hexec, hresult⟩

end LibStomp.Session.Conversation
