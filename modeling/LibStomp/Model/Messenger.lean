import LibStomp.Model.Engine

/-!
# `stomp_messenger.c`: the operations of the library

The messenger object, the exchange properties, the message object and the
operations over them.  The state of a run is a `World`: the messenger and the
static records of the two modules below it.  What the network does during a call
is part of the call (`Net`), so that a run ranges over every behaviour of the
socket and of the peer.

An operation returns `none` where the C code has no defined behaviour: it reads past
the end of an object, or through a NULL pointer or a pointer into nowhere.
-/

namespace LibStomp.Model

/-! ## Messages -/

/-- `stomp_message_t`.  `body` holds the octets of the object the pointer refers to. -/
structure Message where
  size : UInt64
  body : Option Bytes
deriving DecidableEq

/-- `stomp_message_create`. -/
def stompMessageCreate : Message := ⟨toSize (-1), none⟩

/-- `stomp_message_format`: `strncpy` into a zeroed object of `len + 1` octets. -/
def stompMessageFormat (_message : Message) (data : Bytes)
    (len : UInt64) : Message :=
  let text := CString.ofBuffer (data.take len.toNat)
  { size := UInt64.ofNat (text.strlen + 1)
    body := some
      (text.bytes ++ List.replicate (len.toNat + 1 - text.strlen) nul) }

/-! ## The messenger and its surroundings -/

/-- `stomp_messenger_t`.  The connection is represented by its socket; the URI is
`none` until `stomp_set_endpoint` has been called. -/
structure Messenger where
  connection : Option Socket
  exchangeProperties : Hash
  status : Status
  uri : Option Uri
  options : UInt32
deriving DecidableEq

/-- `STOMP_OPT_STRIP_ROOT`. -/
def stompOptStripRoot : UInt32 := 1

structure World where
  messenger : Messenger
  ioError : Status
  engine : Engine
deriving DecidableEq

/-- What `malloc` returned for `options` decides the other bits. -/
def stompMessengerInit (options : UInt32) : World where
  messenger :=
    { connection := none
      exchangeProperties := ∅
      status := ⟨.success, none⟩
      uri := none
      options := options ||| stompOptStripRoot }
  ioError := ⟨.success, none⟩
  engine := ⟨⟨.success, none⟩, []⟩

/-- What the surroundings do during one call: the bytes the peer has added to the
stream by then, the outcomes of the calls of the runtime, the order in which
tables are visited and the content of the uninitialised local. -/
structure Net where
  order : HashOrder
  arrivals : Bytes
  recvs : List Turn
  sends : List Turn
  waits : List (Option AprError)
  atEnd : AprError
  endline : UInt8
  plan : ConnectPlan

namespace World

/-- `stomp_status_set (&messenger->status, code, text)`. -/
def setStatus (w : World) (code : StatusCode) (text : CString) : World :=
  { w with messenger :=
    { w.messenger with
      status := stompStatusSet w.messenger.status code (some text) } }

/-- Set the status for a failure, and fail. -/
def failure (w : World) (text : CString) : Option (StatusCode × World) :=
  some (.failure, w.setStatus .failure text)

/-- The schedule of a call takes effect on the connection. -/
def load (net : Net) (w : World) : World :=
  { w with messenger :=
    { w.messenger with connection := w.messenger.connection.map fun socket =>
      { socket with
        inbox := socket.inbox ++ net.arrivals
        recvs := net.recvs
        sends := net.sends
        waits := net.waits
        atEnd := net.atEnd } } }

/-- The state of `stomp_io.c` during a call. -/
def toIo (w : World) (endline : UInt8) (socket : Socket) : Io :=
  ⟨socket, w.ioError, endline⟩

/-- The state after a call of `stomp_io.c`. -/
def withIo (w : World) (io : Io) : World :=
  { w with
    messenger := { w.messenger with connection := some io.socket }
    ioError := io.error }

/-- Run a function of `stomp_io.c` on the messenger's connection. -/
def onConnection {α : Type} (endline : UInt8) (x : IoM α) (w : World) :
    Option (Except AprError α × World) :=
  match w.messenger.connection with
  | none => none
  | some socket =>
      match x (w.toIo endline socket) with
      | .ok a io => some (.ok a, w.withIo io)
      | .error rc io => some (.error rc, w.withIo io)

/-- `stomp_write` on the messenger's connection. -/
def write (A : Apr) (net : Net) (frame : Frame) (w : World) :
    Option (Except AprError Unit × World) := do
  let socket ← w.messenger.connection
  if staysInside A net.order frame (w.toIo net.endline socket) then
    w.onConnection net.endline (stompWrite A net.order frame)
  else none

/-- `stomp_io_can_read (messenger->connection)`. -/
def canRead (endline : UInt8) (w : World) : Option (Bool × World) :=
  match w.messenger.connection with
  | none => none
  | some socket =>
      let (ready, io) := stompIoCanRead (w.toIo endline socket)
      some (ready, w.withIo io)

end World

/-- Outcome of waiting for a frame and reading it. -/
inductive Reading
  | notReady
  | failed (rc : AprError)
  | frame (frame : Frame)

/-- The two calls by which every operation takes a frame off the connection:
`stomp_io_can_read`, and `stomp_read` if there is something to read. -/
def World.readFrame (A : Apr) (endline : UInt8) (w : World) :
    Option (Reading × World) := do
  let (ready, w) ← w.canRead endline
  if !ready then some (.notReady, w)
  else do
    let (stat, w) ← w.onConnection endline (stompRead A)
    match stat with
    | .error rc => some (.failed rc, w)
    | .ok frame => some (.frame frame, w)

/-! ## Header records -/

/-- `stomp_credentials_t`. -/
structure Credentials where
  username : Option CString
  password : Option CString

/-- `stomp_connection_header_t`. -/
structure ConnectionHeader where
  credentials : Option Credentials

/-- `stomp_disconnection_header_t`. -/
structure DisconnectionHeader where
  receipt : UInt32

/-- `stomp_subscription_header_t`. -/
structure SubscriptionHeader where
  receipt : UInt32
  id : UInt16

/-- `stomp_ack_header_t`. -/
structure AckHeader where
  receipt : UInt32
  messageId : Int64
  transactionId : Int64

/-- `stomp_transaction_header_t`. -/
structure TransactionHeader where
  transactionId : Int64
  receipt : UInt32

/-- `stomp_send_header_t`. -/
structure SendHeader where
  transactionId : Int64
  receipt : UInt32

/-- `stomp_write_receipt`. -/
def stompWriteReceipt (headers : Hash) (receipt : UInt32) : Hash :=
  if 0 < receipt then
    aprHashSet headers (.lit "receipt") (some (aprItoa (cInt receipt.toNat)))
  else headers

/-- `stomp_write_message_id`. -/
def stompWriteMessageId (headers : Hash) (messageId : Int64) : Hash :=
  if -1 < messageId then
    aprHashSet headers (.lit "id") (some (aprItoa (cInt messageId.toInt)))
  else headers

/-- `stomp_write_transaction_id`. -/
def stompWriteTransactionId (headers : Hash) (transactionId : Int64) : Hash :=
  if -1 < transactionId then
    aprHashSet headers (.lit "transaction")
      (some (aprItoa (cInt transactionId.toInt)))
  else headers

/-- A frame without a body; its length is the sentinel `-1`. -/
def controlFrame (command : CString) (headers : Hash) : Frame :=
  ⟨command, some headers, none, toSize (-1)⟩

/-! ## The frames of the operations -/

/-- The `destination` header of `stomp_subscribe` and `stomp_send`.  Without the
root nothing is left of an empty path to point to. -/
def strippedDestination (m : Messenger) : Option (Option CString) :=
  match m.uri with
  | none => none
  | some uri =>
      if m.options &&& stompOptStripRoot ≠ 0 then
        match uri.path with
        | none => none
        | some path => if path.bytes = [] then none else some (some path.tail)
      else some uri.path

/-- The frame of `stomp_disconnect`. -/
def disconnectFrame (header : Option DisconnectionHeader) : Frame :=
  controlFrame (.lit "DISCONNECT") <|
    match header with
    | some header => stompWriteReceipt ∅ header.receipt
    | none => ∅

/-- The frame of `stomp_subscribe`. -/
def subscribeFrame (m : Messenger) (header : SubscriptionHeader) :
    Option Frame := do
  let destination ← strippedDestination m
  let headers := aprHashSet ∅ (.lit "destination") destination
  let headers := aprHashSet headers (.lit "id") (some (aprItoa header.id.toNat))
  some (controlFrame (.lit "SUBSCRIBE")
    (stompWriteReceipt headers header.receipt))

/-- The frame of `stomp_unsubscribe`, whose path is not stripped. -/
def unsubscribeFrame (m : Messenger) (header : SubscriptionHeader) :
    Option Frame := do
  let uri ← m.uri
  let headers := aprHashSet ∅ (.lit "destination") uri.path
  let headers := aprHashSet headers (.lit "id") (some (aprItoa header.id.toNat))
  some (controlFrame (.lit "UNSUBSCRIBE")
    (stompWriteReceipt headers header.receipt))

/-- The frame of `stomp_ack` and `stomp_nack`. -/
def ackFrame (command : CString) (header : Option AckHeader) : Frame :=
  controlFrame command <|
    match header with
    | some header =>
        let headers := stompWriteMessageId ∅ header.messageId
        let headers := stompWriteTransactionId headers header.transactionId
        stompWriteReceipt headers header.receipt
    | none => ∅

/-- The frame of `stomp_transaction`. -/
def transactionFrame (command : CString)
    (header : Option TransactionHeader) : Frame :=
  controlFrame command <|
    match header with
    | some header =>
        stompWriteReceipt (stompWriteTransactionId ∅ header.transactionId)
          header.receipt
    | none => ∅

/-- The header table of `stomp_send`: a copy of the exchange properties, with the
headers of the call on top. -/
def sendHeaders (properties : Hash) (destination : Option CString)
    (header : Option SendHeader) : Hash :=
  let headers := aprHashSet properties (.lit "destination") destination
  match header with
  | some header =>
      stompWriteReceipt (stompWriteTransactionId headers header.transactionId)
        header.receipt
  | none => headers

/-- The frame of `stomp_send`. -/
def sendFrame (m : Messenger) (header : Option SendHeader) (message : Message) :
    Option Frame := do
  let destination ← strippedDestination m
  some ⟨.lit "SEND", some (sendHeaders m.exchangeProperties destination header),
    message.body, message.size⟩

/-! ## Shared parts of the operations -/

section Operations

variable (A : Apr) (net : Net)

/-- The text `stomp_process_receipt` has for a frame that is no receipt.  The body of a
counted frame need not end with a NUL. -/
def invalidReply (replyFrame : Frame) : Option CString := do
  let body ← match replyFrame.body with
    | some body => CString.within body
    | none => some (.lit "null")
  some (.lit "Invalid disconnection reply: " ++ replyFrame.command ++ .lit " (" ++ body ++
    .lit ")")

/-- `stomp_process_receipt`. -/
def stompProcessReceipt (w : World) : Option (StatusCode × World) := do
  let (reading, w) ← w.readFrame A net.endline
  match reading with
  | .notReady => w.failure (.lit "Timed out while trying to read data")
  | .failed _ =>
      w.failure
        (.lit "Unable to read the frame data to the underlying connection: " ++
          formatArg w.engine.error.message)
  | .frame replyFrame =>
      if !replyFrame.command.startsWith (.lit "RECEIPT") then do
        let text ← invalidReply replyFrame
        w.failure text
      else some (.success, w)

/-- The text for a failed write, in every operation but `stomp_ack`. -/
def writeFailure (w : World) : CString :=
  .lit "Unable to write the frame data to the underlying connection: " ++
    formatArg w.engine.error.message

/-- The end of every writing operation: write the frame, set the status to `text`
if that fails, and wait for a receipt if one was asked for. -/
def transact (text : World → CString) (frame : Frame)
    (receipt : Option UInt32) (w : World) :
    Option (StatusCode × World) := do
  let (stat, w) ← w.write A net frame
  match stat with
  | .error _ => w.failure (text w)
  | .ok () =>
      match receipt with
      | some receipt =>
          if 0 < receipt then stompProcessReceipt A net w else some (.success, w)
      | none => some (.success, w)

/-! ## The operations -/

/-- `stomp_set_endpoint`. -/
def stompSetEndpoint (uri : CString) (w : World) : Option (StatusCode × World) :=
  let (stat, parsed) := A.uriParse uri
  let w : World := { w with messenger := { w.messenger with uri := some parsed } }
  if stat.isSome then w.failure (.lit "Unable to parse the URI")
  else
    match parsed.path with
    | none => w.failure (.lit "Invalid connection destination: null")
    | some path =>
        if path.strlen = 0 then
          w.failure (.lit "Invalid connection destination: empty")
        else some (.success, w)

/-- The frame `stomp_connect` sends. -/
def connectFrame (header : Option ConnectionHeader) : Frame :=
  let headers : Hash :=
    match header.bind (·.credentials) with
    | some credentials =>
        aprHashSet (aprHashSet ∅ (.lit "login") credentials.username)
          (.lit "passcode")
          credentials.password
    | none => ∅
  controlFrame (.lit "CONNECT")
    (aprHashSet headers (.lit "accept-version") (some (.lit "1.2")))

/-- The connection of a new socket. -/
def Net.socket (net : Net) (descriptor : Nat) : Socket :=
  ⟨descriptor, net.arrivals, [], net.recvs, net.sends, net.waits, net.atEnd⟩

/-- `stomp_connect`, with a timeout that is part of the network's schedule, too. -/
def stompConnect (header : Option ConnectionHeader) (w : World) :
    Option (StatusCode × World) := do
  let uri ← w.messenger.uri
  match stompEngineConnect A net.plan uri.hostname w.engine with
  | .error _ engine =>
      let w := { w with engine := engine }
      w.failure (.lit "Unable to connect to the broker service: " ++
        formatArg w.engine.error.message)
  | .ok descriptor engine => do
      let w := { w with
        engine := engine
        messenger :=
          { w.messenger with connection := some (net.socket descriptor) } }
      let (stat, w) ← w.write A net (connectFrame header)
      match stat with
      | .error _ => w.failure (writeFailure w)
      | .ok () => do
          let (reading, w) ← w.readFrame A net.endline
          match reading with
          | .notReady => w.failure (.lit "Timed out while trying to read data")
          | .failed _ =>
              w.failure
                (.lit "Unable to read the frame data to the underlying connection: " ++
                  formatArg w.engine.error.message)
          | .frame replyFrame =>
              if !replyFrame.command.startsWith (.lit "CONNECTED") then
                w.failure (.lit "Invalid connection reply: " ++
                  replyFrame.command)
              else some (.success, w)

/-- `stomp_disconnect`. -/
def stompDisconnect (header : Option DisconnectionHeader) (w : World) :
    Option (StatusCode × World) :=
  transact A net writeFailure (disconnectFrame header) (header.map (·.receipt)) w

/-- `stomp_subscribe`. -/
def stompSubscribe (header : Option SubscriptionHeader) (w : World) :
    Option (StatusCode × World) :=
  match header with
  | none => w.failure (.lit "A STOMP subscription requires a subscription ID")
  | some header => do
      let frame ← subscribeFrame w.messenger header
      transact A net writeFailure frame (some header.receipt) w

/-- `stomp_unsubscribe`: the header is read before it is compared with NULL. -/
def stompUnsubscribe (header : Option SubscriptionHeader) (w : World) :
    Option (StatusCode × World) := do
  let header ← header
  let frame ← unsubscribeFrame w.messenger header
  transact A net writeFailure frame (some header.receipt) w

/-- The text `stomp_ack` has for a failed write: it lacks the engine's message. -/
def ackWriteFailure (_w : World) : CString :=
  .lit "Unable to write the frame data to the underlying connection"

/-- `stomp_ack`. -/
def stompAck (header : Option AckHeader) (w : World) :
    Option (StatusCode × World) :=
  transact A net ackWriteFailure (ackFrame (.lit "ACK") header)
    (header.map (·.receipt)) w

/-- `stomp_nack`. -/
def stompNack (header : Option AckHeader) (w : World) :
    Option (StatusCode × World) :=
  transact A net writeFailure (ackFrame (.lit "NACK") header)
    (header.map (·.receipt)) w

/-- `stomp_transaction`. -/
def stompTransaction (header : Option TransactionHeader) (command : CString)
    (w : World) :
    Option (StatusCode × World) :=
  transact A net writeFailure (transactionFrame command header)
    (header.map (·.receipt)) w

/-- `stomp_begin`. -/
def stompBegin (header : Option TransactionHeader) :
    World → Option (StatusCode × World) :=
  stompTransaction A net header (.lit "BEGIN")

/-- `stomp_commit`. -/
def stompCommit (header : Option TransactionHeader) :
    World → Option (StatusCode × World) :=
  stompTransaction A net header (.lit "COMMIT")

/-- `stomp_abort`. -/
def stompAbort (header : Option TransactionHeader) :
    World → Option (StatusCode × World) :=
  stompTransaction A net header (.lit "ABORT")

/-- `stomp_send`. -/
def stompSend (header : Option SendHeader) (message : Message) (w : World) :
    Option (StatusCode × World) := do
  let frame ← sendFrame w.messenger header message
  transact A net writeFailure frame (header.map (·.receipt)) w

/-- `stomp_receive`, with the message object before and after the call. -/
def stompReceive (message : Message) (w : World) :
    Option (StatusCode × Message × World) := do
  let (reading, w) ← w.readFrame A net.endline
  match reading with
  | .notReady =>
      some (.successNoData, message,
        w.setStatus .successNoData (.lit "Timed out while trying to read data"))
  | .frame frame =>
      let message :=
        stompMessageFormat message (frame.body.getD []) frame.bodyLength
      let w := { w with messenger := { w.messenger with
        exchangeProperties :=
          aprHashOverlay (frame.headers.getD ∅) w.messenger.exchangeProperties } }
      if frame.command.startsWith (.lit "MESSAGE") then
        some (.success, message, w)
      else some (.failure, message, w)
  | .failed .timeup => some (.success, message, w)
  | .failed _ =>
      some (.failure, message, w.setStatus .failure
        (.lit "Unable to read the frame data from the underlying connection: " ++
          formatArg w.ioError.message))

end Operations

/-! ## Exchange properties -/

/-- `stomp_exchange_add`. -/
def stompExchangeAdd (name : CString) (value : Option CString) (w : World) :
    World :=
  { w with messenger := { w.messenger with
    exchangeProperties := aprHashSet w.messenger.exchangeProperties name value } }

/-- `stomp_exchange_get`. -/
def stompExchangeGet (name : CString) (w : World) : Option CString :=
  w.messenger.exchangeProperties.lookup name

/-- `stomp_exchange_clear`. -/
def stompExchangeClear (w : World) : World :=
  { w with messenger := { w.messenger with exchangeProperties := ∅ } }

/-- `apr_time_as_msec`. -/
def aprTimeAsMsec (time : Int64) : Int64 := time / 1000

/-- `snprintf (buff, size, "%" PRIi64, value)`: as much of the text as leaves room for
the NUL. -/
def snprintfInt64 (size : Nat) (value : Int64) : CString :=
  .ofBuffer ((aprItoa value.toInt).bytes.take (size - 1))

/-- `stomp_exchange_util_ctime` at the time `now`.  A table that `apr_hash_make` has made
has a pool. -/
def stompExchangeUtilCtime (now : Int64) (w : World) : StatusCode × World :=
  (.success, stompExchangeAdd (.lit "creation")
    (some (snprintfInt64 32 (aprTimeAsMsec now))) w)

/-! ## Runs -/

/-- The calls an application can make. -/
inductive Op
  | setEndpoint (uri : CString)
  | connect (header : Option ConnectionHeader)
  | disconnect (header : Option DisconnectionHeader)
  | subscribe (header : Option SubscriptionHeader)
  | unsubscribe (header : Option SubscriptionHeader)
  | ack (header : Option AckHeader)
  | nack (header : Option AckHeader)
  | begin (header : Option TransactionHeader)
  | commit (header : Option TransactionHeader)
  | abort (header : Option TransactionHeader)
  | send (header : Option SendHeader) (message : Message)
  | receive (message : Message)
  | exchangeAdd (name : CString) (value : Option CString)
  | exchangeClear

/-- A call together with what the surroundings do while it runs. -/
structure Call where
  op : Op
  net : Net

/-- What the application gets back: the returned code, where there is one, and the
message object as a receive leaves it. -/
structure Reply where
  code : Option StatusCode
  message : Option Message
deriving DecidableEq

/-- The reply of an operation that returns nothing but its code. -/
def replyCode (result : Option (StatusCode × World)) : Option (Reply × World) :=
  result.map fun (code, w) => (⟨some code, none⟩, w)

/-- The reply of a receive: its code and the message object it leaves. -/
def replyMessage (result : Option (StatusCode × Message × World)) :
    Option (Reply × World) :=
  result.map fun (code, message, w) => (⟨some code, some message⟩, w)

/-- One call.  A new connection starts with the schedule of the call; the other
operations find it on the connection there is. -/
def step (A : Apr) (w : World) (c : Call) : Option (Reply × World) :=
  let net := c.net
  let loaded := w.load net
  match c.op with
  | .connect header => replyCode (stompConnect A net header w)
  | .setEndpoint uri => replyCode (stompSetEndpoint A uri loaded)
  | .disconnect header => replyCode (stompDisconnect A net header loaded)
  | .subscribe header => replyCode (stompSubscribe A net header loaded)
  | .unsubscribe header => replyCode (stompUnsubscribe A net header loaded)
  | .ack header => replyCode (stompAck A net header loaded)
  | .nack header => replyCode (stompNack A net header loaded)
  | .begin header => replyCode (stompBegin A net header loaded)
  | .commit header => replyCode (stompCommit A net header loaded)
  | .abort header => replyCode (stompAbort A net header loaded)
  | .send header message => replyCode (stompSend A net header message loaded)
  | .receive message => replyMessage (stompReceive A net message loaded)
  | .exchangeAdd name value =>
      some (⟨none, none⟩, stompExchangeAdd name value loaded)
  | .exchangeClear => some (⟨none, none⟩, stompExchangeClear loaded)

/-- Nothing happens but arrivals: every call of the runtime succeeds and moves all
it can. -/
def Net.quiet (arrivals : Bytes) : Net where
  order := .stored
  arrivals := arrivals
  recvs := []
  sends := []
  waits := []
  atEnd := .eof
  endline := nul
  plan := .smooth

/-- The calls every session starts with. -/
def opening : List Call :=
  [⟨.setEndpoint (.lit "stomp://localhost:61613/queue/test"), .quiet []⟩,
    ⟨.connect none, .quiet (ascii "CONNECTED\n\n" ++ [nul, lf])⟩]

end LibStomp.Model
