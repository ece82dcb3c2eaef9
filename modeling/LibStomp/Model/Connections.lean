import LibStomp.Model.Memory

/-!
# Connections without a messenger

`stomp_engine.c` and `stomp_io.c` as an application calls them that uses no messenger.
A connection object is a piece of memory in a pool of the application and points to
a socket of the same pool; the application holds pointers to such objects in
variables and may copy them.  Destroying a pool closes the sockets in it and frees
its memory.
-/

namespace LibStomp.Model.Connections

open LibStomp.Verified.Allocation
open LibStomp.Model.Memory (Ptr)

/-! ## Objects -/

/-- What there is in the pools: objects of type `stomp_connection`, and open sockets. -/
inductive Cell
  | connection (pool : Nat) (socket : Ptr)
  | socket (pool : Nat) (content : Socket)
deriving DecidableEq

def Cell.pool : Cell → Nat
  | .connection pool _ => pool
  | .socket pool _ => pool

/-- An application with the pointer variables `V`.  Pools are numbered as they are
created, and `pools` are those that are not destroyed. -/
structure Client (V : Type) where
  heap : Heap Cell
  engine : Engine
  ioError : Status
  vars : V → Ptr
  pools : List Nat
  nextPool : Nat

/-- No variable is initialised. -/
def Client.start (V : Type) : Client V where
  heap := Heap.empty
  engine := ⟨⟨.success, none⟩, []⟩
  ioError := ⟨.success, none⟩
  vars _ := .wild
  pools := []
  nextPool := 0

/-- A connection object with its socket. -/
structure Route where
  connection : Nat
  pool : Nat
  socket : Nat
  content : Socket
deriving DecidableEq

/-- Follow a pointer to a connection object, and its pointer to the socket. -/
def follow (p : Ptr) (h : Heap Cell) : Option Route :=
  match p with
  | .addr a =>
      match h.get a with
      | some (.connection pool (.addr s)) =>
          match h.get s with
          | some (.socket _ content) => some ⟨a, pool, s, content⟩
          | _ => none
      | _ => none
  | _ => none

/-! ## The functions -/

/-- What the socket finds during a call. -/
def arrive (net : Net) (socket : Socket) : Socket :=
  { socket with
    inbox := socket.inbox ++ net.arrivals
    recvs := net.recvs
    sends := net.sends
    waits := net.waits
    atEnd := net.atEnd }

section Functions

variable {V : Type} [DecidableEq V]

/-- A function of `stomp_io.c` on the connection a variable points to. -/
def onSocket {α : Type} (v : V) (net : Net) (x : Io → α × Io) (c : Client V) :
    Option (α × Client V) := do
  let route ← follow (c.vars v) c.heap
  let (a, io) := x ⟨arrive net route.content, c.ioError, net.endline⟩
  let heap ← c.heap.store route.socket (.socket route.pool io.socket)
  some (a, { c with heap := heap, ioError := io.error })

/-- The outcome of a function of `stomp_io.c`, with what it leaves. -/
def outcome {α : Type} (x : IoM α) (io : Io) : Except AprError α × Io :=
  match x io with
  | .ok a io => (.ok a, io)
  | .error rc io => (.error rc, io)

/-- `stomp_write` gets as far as the pool it makes for the text of the length, inside the
one it is given. -/
def makesPool (A : Apr) (O : HashOrder) (frame : Frame) (io : Io) : Bool :=
  match frame.headers with
  | some headers =>
      let front : IoM Unit := do
        stompWriteBuffer A frame.command.bytes
        stompWriteBuffer A [lf]
        writeHeaders A (O.iter headers)
      match front io with
      | .ok _ _ => true
      | .error _ _ => false
  | none => false

/-- `stomp_write`, with its `pool`. -/
def stompWrite (A : Apr) (v : V) (frame : Frame) (pool : Nat) (net : Net)
    (c : Client V) : Option (Except AprError Unit × Client V) := do
  let route ← follow (c.vars v) c.heap
  let io : Io := ⟨arrive net route.content, c.ioError, net.endline⟩
  if staysInside A net.order frame io &&
      (pool ∈ c.pools || !makesPool A net.order frame io) then
    onSocket v net (outcome (Model.stompWrite A net.order frame)) c
  else none

/-- `stomp_read`, with its `pool`, in which everything it reads is put. -/
def stompRead (A : Apr) (v : V) (pool : Nat) (net : Net) (c : Client V) :
    Option (Except AprError Frame × Client V) :=
  if pool ∈ c.pools then onSocket v net (outcome (Model.stompRead A)) c else none

/-- `stomp_engine_connect`, with its `connection_ref`.  A connect that fails leaves its
object, and the socket if there is one already, in the pool. -/
def stompEngineConnect (A : Apr) (v : V) (hostname : Option CString) (pool : Nat)
    (net : Net) (c : Client V) : Option (Option AprError × Client V) :=
  if pool ∉ c.pools then none
  else
    let a := c.heap.next
    match Model.stompEngineConnect A net.plan hostname c.engine with
    | .ok descriptor engine =>
        let heap := (c.heap.alloc (.connection pool (.addr (a + 1)))).alloc
          (.socket pool (net.socket descriptor))
        some (none, { c with
          heap := heap
          engine := engine
          vars := Function.update c.vars v (.addr a) })
    | .error rc engine =>
        let heap :=
          if engine.sockets.length = c.engine.sockets.length then
            c.heap.alloc (.connection pool .null)
          else
            (c.heap.alloc (.connection pool (.addr (a + 1)))).alloc
              (.socket pool (net.socket c.engine.sockets.length))
        some (some rc, { c with heap := heap, engine := engine })

/-- `stomp_engine_set_timeout`: `apr_socket_timeout_set` reads the socket. -/
def stompEngineSetTimeout (v : V) (result : Option AprError) (c : Client V) :
    Option (Option AprError × Client V) :=
  (follow (c.vars v) c.heap).map fun _ => (result, c)

/-- `stomp_engine_disconnect`.  Whatever `apr_socket_close` reports, it takes the socket
from its pool. -/
def stompEngineDisconnect (ref : Option V) (_shutdown close : Option AprError)
    (c : Client V) : Option (Option AprError × Client V) :=
  match ref with
  | none =>
      -- the reference is read before it is compared with NULL
      none
  | some v =>
      if c.vars v = .null then
        some (some .egeneral, { c with engine := { c.engine with
          error := stompStatusSet c.engine.error .failure
            (some (.lit "invalid connection object")) } })
      else do
        -- `apr_socket_shutdown` reads the socket; what it reports is not looked at,
        -- since `result` is tested and not `rc`
        let route ← follow (c.vars v) c.heap
        let heap ← c.heap.free route.socket
        let heap ← heap.store route.connection (.connection route.pool .null)
        some (close, { c with
          heap := heap
          vars := Function.update c.vars v .null })

/-- `apr_pool_create`. -/
def aprPoolCreate (c : Client V) : Client V :=
  { c with pools := c.nextPool :: c.pools, nextPool := c.nextPool + 1 }

/-- `apr_pool_destroy`. -/
def aprPoolDestroy (pool : Nat) (c : Client V) : Option (Client V) :=
  if pool ∈ c.pools then
    some { c with
      heap := c.heap.sweep (·.pool = pool)
      pools := c.pools.filter (· ≠ pool) }
  else none

/-! ## Runs -/

/-- What an application can do with connections. -/
inductive EngineOp (V : Type)
  | poolCreate
  | poolDestroy (pool : Nat)
  | assign (target source : V)
  | connect (v : V) (hostname : Option CString) (pool : Nat)
  | setTimeout (v : V) (result : Option AprError)
  | write (v : V) (frame : Frame) (pool : Nat)
  | read (v : V) (pool : Nat)
  | canRead (v : V)
  | disconnect (ref : Option V) (shutdown close : Option AprError)

/-- A call together with what the surroundings do while it runs. -/
structure EngineCall (V : Type) where
  op : EngineOp V
  net : Net

/-- What the application gets back. -/
inductive EngineReply
  | done
  | status (rc : Option AprError)
  | frame (result : Except AprError Frame)
  | ready (b : Bool)

/-- `stomp_write` as a status. -/
def written : Except AprError Unit → EngineReply
  | .ok _ => .status none
  | .error rc => .status (some rc)

def engineStep (A : Apr) (c : Client V) (call : EngineCall V) :
    Option (EngineReply × Client V) :=
  let net := call.net
  match call.op with
  | .poolCreate => some (.done, aprPoolCreate c)
  | .poolDestroy pool => (aprPoolDestroy pool c).map fun c => (.done, c)
  | .assign target source =>
      some (.done, { c with vars := Function.update c.vars target (c.vars source) })
  | .connect v hostname pool =>
      (stompEngineConnect A v hostname pool net c).map fun (rc, c) => (.status rc, c)
  | .setTimeout v result =>
      (stompEngineSetTimeout v result c).map fun (rc, c) => (.status rc, c)
  | .write v frame pool =>
      (stompWrite A v frame pool net c).map fun (result, c) => (written result, c)
  | .read v pool =>
      (stompRead A v pool net c).map fun (result, c) => (.frame result, c)
  | .canRead v =>
      (onSocket v net stompIoCanRead c).map fun (b, c) => (.ready b, c)
  | .disconnect ref shutdown close =>
      (stompEngineDisconnect ref shutdown close c).map fun (rc, c) => (.status rc, c)

end Functions

end LibStomp.Model.Connections
