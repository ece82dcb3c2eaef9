import LibStomp.Model.Apr
import LibStomp.Verified.BlockChain

/-!
# `stomp_io.c`: reading and writing frames

The functions of `stomp_io.c`, in the order of the source.  They run in
`EStateM AprError Io`: a thrown value is the `apr_status_t` the C function
returns, and the state left behind by a failure is kept.

The state `Io` is the connection's socket, the module's static `error` record
and the content of the one local variable that is read uninitialised.

Three things are fixed by the model rather than by the source.  Allocations from
a pool succeed, so the `APR_ENOMEM` exits do not appear.  The variable `STOMP_DEBUG`
is not set, so nothing is printed under it (one of the prints reads `head->data` when
`head` is NULL).  Loops run on fuel that covers every byte they can still move; an
exhausted loop is unreachable, and `LibStomp.Stream` proves the loops return without
it.

The functions say what the code does as long as it stays inside its objects.  Only
`stomp_write` can leave one, the body of its frame: `staysInside` says when it does
not, and a caller has no behaviour where it does.
-/

namespace LibStomp.Model

open LibStomp.Verified.BlockChain

/-! ## `stomp_status.c` -/

/-- `stomp_status_code_t`.  The last value is `STOMP_SUCCESS | STOMP_NO_DATA`. -/
inductive StatusCode
  | failure
  | success
  | noData
  | successNoData
deriving DecidableEq

/-- `stomp_status_t`; the message is NULL or a formatted text. -/
structure Status where
  code : StatusCode
  message : Option CString
deriving DecidableEq

def stompStatusReset (status : Status) : Status := { status with message := none }

def stompStatusSet (status : Status) (code : StatusCode)
    (message : Option CString) : Status :=
  let status := if status.message.isSome then stompStatusReset status else status
  { code := code
    message := match message with
      | some text => some text
      | none => status.message }

/-! ## Frames and the state of the module -/

/-- `stomp_frame`.  `body` holds the octets of the object the pointer refers to. -/
structure Frame where
  command : CString
  headers : Option Hash
  body : Option Bytes
  bodyLength : UInt64
deriving DecidableEq

/-- The state the functions of `stomp_io.c` work on.  `endline` is what the
uninitialised local `endline[1]` of `stomp_read_buffer` happens to contain. -/
structure Io where
  socket : Socket
  error : Status
  endline : UInt8
deriving DecidableEq

/-- A fresh connection whose peer has sent `inbox` and nothing more. -/
def Io.fresh (inbox : Bytes) : Io where
  socket :=
    { descriptor := 0
      inbox := inbox
      outbox := []
      recvs := []
      sends := []
      waits := []
      atEnd := .eof }
  error := ⟨.success, none⟩
  endline := nul

abbrev IoM := EStateM AprError Io

/-- `stomp_status_set (&error, STOMP_FAILURE, text)`. -/
def Io.statusSet (text : CString) (io : Io) : Io :=
  { io with error := stompStatusSet io.error .failure (some text) }

/-- `set_error`. -/
def Io.setError (A : Apr) (msgPrefix : CString) (rc : AprError) (io : Io) : Io :=
  io.statusSet (msgPrefix ++ .lit ": " ++ A.strerror rc)

/-- Record an error text and return `rc`. -/
def failWith {α : Type} (rc : AprError) (text : CString) : IoM α :=
  fun io => .error rc (io.statusSet text)

/-- Run `x`; if it fails, note the failure in the state and return its status. -/
def onError {α : Type} (x : IoM α) (note : AprError → Io → Io) :
    IoM α := fun io =>
  match x io with
  | .ok a io => .ok a io
  | .error rc io => .error rc (note rc io)

/-- `apr_socket_recv` on the connection's socket. -/
def recv (len : Nat) : IoM Bytes := fun io =>
  match aprSocketRecv len io.socket with
  | .ok bytes socket => .ok bytes { io with socket := socket }
  | .error rc socket => .error rc { io with socket := socket }

/-- `apr_socket_send` on the connection's socket. -/
def send (data : Bytes) : IoM Nat := fun io =>
  match aprSocketSend data io.socket with
  | .ok length socket => .ok length { io with socket := socket }
  | .error rc socket => .error rc { io with socket := socket }

/-! ## Writing -/

/-- The loop of `stomp_write_buffer`; `data` is what remains to be sent. -/
def writeLoop (A : Apr) : Nat → Bytes → IoM Unit
  | 0, _ => pure ()
  | fuel + 1, data =>
      if data = [] then pure ()
      else do
        let length ← onError (send data) fun rc io =>
          io.statusSet (.lit "unable to write data: " ++ A.strerror rc)
        writeLoop A fuel (data.drop length)

def stompWriteBuffer (A : Apr) (data : Bytes) : IoM Unit :=
  writeLoop A data.length data

/-- The header loop of `stomp_write`, over the table in its iteration order. -/
def writeHeaders (A : Apr) : List Header → IoM Unit
  | [] => pure ()
  | ⟨key, value⟩ :: rest => do
      stompWriteBuffer A key.bytes
      stompWriteBuffer A [colon]
      stompWriteBuffer A value.bytes
      stompWriteBuffer A [lf]
      writeHeaders A rest

/-- The local `body_length` of the header block of `stomp_write`. -/
def announcedLength (frame : Frame) : Int :=
  let bodyLength := cInt frame.bodyLength.toNat
  match frame.body with
  | some body =>
      if bodyLength ≤ 0 then cInt ((CString.ofBuffer body).strlen + 1 : Nat)
      else bodyLength
  | none => bodyLength

/-- The local `body_length` of the body block of `stomp_write`. -/
def sentLength (frame : Frame) (body : Bytes) : Int :=
  let bodyLength := cInt frame.bodyLength.toNat
  if bodyLength ≤ 0 then cInt ((CString.ofBuffer body).strlen + 1 : Nat)
  else bodyLength

/-- The body of `stomp_write` up to its `err_exit` label. -/
def writeFrame (A : Apr) (O : HashOrder) (frame : Frame) : IoM Unit := do
  stompWriteBuffer A frame.command.bytes
  stompWriteBuffer A [lf]
  match frame.headers with
  | some headers => do
      writeHeaders A (O.iter headers)
      -- `frame->body_length >= 0` holds of every `apr_size_t`
      stompWriteBuffer A (ascii "content-length:")
      stompWriteBuffer A (aprItoa (announcedLength frame)).bytes
      stompWriteBuffer A [lf]
  | none => pure ()
  stompWriteBuffer A [lf]
  match frame.body with
  -- the size argument is an `apr_size_t`, the `int` is converted back
  | some body =>
      stompWriteBuffer A (body.take (toSize (sentLength frame body)).toNat)
  | none => pure ()
  stompWriteBuffer A [nul, lf]

def stompWrite (A : Apr) (O : HashOrder) (frame : Frame) : IoM Unit :=
  onError (writeFrame A O frame) (Io.setError A (.lit "unable to read data: %s"))

/-- The octets that `stomp_write` takes from the body are there, and so is the NUL where
it looks for one. -/
def Frame.bodyHolds (frame : Frame) : Bool :=
  match frame.body with
  | some body =>
      (0 < cInt frame.bodyLength.toNat || nul ∈ body) &&
        (toSize (sentLength frame body)).toNat ≤ body.length
  | none => true

/-- The frame has a body in which `stomp_write` looks for a NUL in vain. -/
def Frame.bodyUnending (frame : Frame) : Bool :=
  match frame.body with
  | some body => cInt frame.bodyLength.toNat ≤ 0 && nul ∉ body
  | none => false

/-- The part of `stomp_write` before it leaves the body of a frame that is too short: it
does so at the length, if it has to count the octets, or at the body. -/
def writeFront (A : Apr) (O : HashOrder) (frame : Frame) : IoM Unit := do
  stompWriteBuffer A frame.command.bytes
  stompWriteBuffer A [lf]
  match frame.headers with
  | some headers => do
      writeHeaders A (O.iter headers)
      stompWriteBuffer A (ascii "content-length:")
      if frame.bodyUnending then pure ()
      else do
        stompWriteBuffer A (aprItoa (announcedLength frame)).bytes
        stompWriteBuffer A [lf]
        stompWriteBuffer A [lf]
  | none => stompWriteBuffer A [lf]

/-- `stomp_write` reads nothing behind the body of the frame: all it needs is there, or it
fails before it gets that far. -/
def staysInside (A : Apr) (O : HashOrder) (frame : Frame) (io : Io) : Bool :=
  frame.bodyHolds ||
    match writeFront A O frame io with
    | .ok _ _ => false
    | .error _ _ => true

/-! ## Reading lines and NUL-terminated bodies -/

/-- `data_block_list`: the block size is `sizeof (tail->data)`. -/
abbrev blockSize : Nat := 1024

abbrev Block := Vector UInt8 blockSize

/-- The chain both loops start from: one zeroed block. -/
def firstBlock : Chain UInt8 blockSize := Chain.fresh nul (by decide)

/-- The receive loop of `stomp_read_line`; returns the chain and `bytesRead`. -/
def readLineLoop (A : Apr) :
    Nat → Chain UInt8 blockSize → Nat → IoM (List Block × Nat)
  | 0, _, _ => throw .egeneral
  | fuel + 1, chain, bytesRead => do
      let received ← onError (recv 1)
        (Io.setError A (.lit "unable to read data from the socket"))
      match received with
      | [b] =>
          -- the newline is overwritten by the terminating NUL
          if b = lf then pure (chain.store nul, bytesRead + 1)
          else if b = nul then
            failWith .egeneral
              (.lit "protocol error (end-of-string before end-of-line)")
          else readLineLoop A fuel (chain.push nul b) (bytesRead + 1)
      | _ => readLineLoop A fuel chain bytesRead

/-- `stomp_read_line`: the buffer with its terminating NUL, and the `int` the
caller takes for the length of the line. -/
def stompReadLine (A : Apr) : IoM (Bytes × Int) := do
  let io ← get
  let (blocks, bytesRead) ←
    readLineLoop A (io.socket.inbox.length + 1) firstBlock 0
  pure (copyOut blocks bytesRead, cInt ((bytesRead : Int) - 1))

/-- The receive of the byte after the NUL.  Its status is dropped: when it fails
the caller looks at whatever the local variable contains. -/
def recvEndline : IoM UInt8 := fun io =>
  match recv 1 io with
  | .ok (b :: _) io => .ok b io
  | .ok [] io => .ok io.endline io
  | .error _ io => .ok io.endline io

/-- The receive loop of `stomp_read_buffer`. -/
def readBufferLoop (A : Apr) :
    Nat → Chain UInt8 blockSize → Nat → IoM (List Block × Nat)
  | 0, _, _ => throw .egeneral
  | fuel + 1, chain, bytesRead => do
      let received ← onError (recv 1)
        (Io.setError A (.lit "unable to read buffer data"))
      match received with
      | [b] =>
          if b = nul then do
            let endline ← recvEndline
            if endline ≠ lf then failWith .egeneral (.lit "protocol error")
            else pure (chain.store b, bytesRead + 1)
          else readBufferLoop A fuel (chain.push nul b) (bytesRead + 1)
      | _ => readBufferLoop A fuel chain bytesRead

/-- `stomp_read_buffer`: the body with its NUL, and `*body_len`. -/
def stompReadBuffer (A : Apr) : IoM (Bytes × Nat) := do
  let io ← get
  let (blocks, bytesRead) ←
    readBufferLoop A (io.socket.inbox.length + 1) firstBlock 0
  pure (copyOut blocks bytesRead, bytesRead)

/-! ## Reading frames -/

/-- The header loop of `stomp_read`. -/
def readHeaders (A : Apr) : Nat → Hash → IoM Hash
  | 0, _ => throw .egeneral
  | fuel + 1, headers => do
      let (p, length) ← stompReadLine A
      if length = 0 then pure headers
      else
        match (CString.ofBuffer p).splitColon with
        | none =>
            failWith .egeneral (.lit
              "protocol error (expected : within received string but got none in string '" ++
                CString.ofBuffer p ++ .lit "')")
        | some (key, value) =>
            readHeaders A fuel (aprHashSet headers key (some value))

/-- The body of a frame with a content-length header: the buffer allocated for it
and the final `f->body_length`. -/
def readCounted (contentLength : CString) : IoM (Bytes × UInt64) := do
  let bodyLength := toSize (aprAtoi64 contentLength)
  -- a single receive, which may deliver less than was asked for
  let received ← onError (recv bodyLength.toNat) fun _ =>
    Io.statusSet (.lit "I/O error (unable to receive from socket)")
  let endbuffer ← onError (recv 2) fun _ =>
    Io.statusSet (.lit "protocol error (expected newline not present)")
  if endbuffer ≠ [nul, lf] then
    failWith .egeneral
      (.lit "protocol error (missing data and/or character terminators)")
  else
    pure (received ++ List.replicate (bodyLength.toNat - received.length) nul,
      UInt64.ofNat received.length)

/-- The end of `stomp_read`: the body, framed as the headers say. -/
def readBody (A : Apr) (command : CString) (headers : Hash) : IoM Frame :=
  match headers.lookup (.lit "content-length") with
  | some contentLength => do
      let (body, bodyLength) ← readCounted contentLength
      pure ⟨command, some headers, some body, bodyLength⟩
  | none => do
      let (body, bodyLength) ← onError (stompReadBuffer A) fun _ =>
        Io.statusSet
          (.lit "protocol error (failed to read remainder of the buffer)")
      pure ⟨command, some headers, some body, UInt64.ofNat bodyLength⟩

def stompRead (A : Apr) : IoM Frame := do
  let (p, _) ← stompReadLine A
  let io ← get
  let headers ← readHeaders A (io.socket.inbox.length + 1) ∅
  readBody A (CString.ofBuffer p) headers

/-- `stomp_io_can_read`. -/
def stompIoCanRead (io : Io) : Bool × Io :=
  match aprWaitForIo io.socket with
  | (none, socket) => (true, { io with socket := socket })
  | (some .timeup, socket) => (false, { io with socket := socket })
  | (some _, socket) =>
      (false, Io.statusSet (.lit "unhandled error trying to read from the socket")
        { io with socket := socket })

end LibStomp.Model
