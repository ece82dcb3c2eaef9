import LibStomp.Model.Io

/-!
# `stomp_engine.c`: establishing a connection

`stomp_engine_connect` calls the runtime seven times; the results of these calls
are a parameter (`ConnectPlan`).  The state is the module's own `error` record,
which is not the one of `stomp_io.c`, and the sockets that were created: nothing
in the library closes a socket again.
-/

namespace LibStomp.Model

/-- The results of the runtime calls of `stomp_engine_connect`, in their order. -/
structure ConnectPlan where
  resolve : Option AprError
  create : Option AprError
  connect : Option AprError
  nonblock : Option AprError
  remote : Option AprError
  localAddr : Option AprError
  localIp : Option AprError

/-- Every call succeeds. -/
def ConnectPlan.smooth : ConnectPlan := ⟨none, none, none, none, none, none, none⟩

/-- The static `error` record and the descriptors of the open sockets, newest
first. -/
structure Engine where
  error : Status
  sockets : List Nat
deriving DecidableEq

abbrev EngineM := EStateM AprError Engine

/-- What `%s` makes of a pointer. -/
def formatArg : Option CString → CString
  | some text => text
  | none => .lit "(null)"

/-- One call of the runtime, and the error text for its failure. -/
def engineCall (outcome : Option AprError) (text : AprError → CString) :
    EngineM Unit := fun e =>
  match outcome with
  | none => .ok () e
  | some rc =>
      .error rc
        { e with error := stompStatusSet e.error .failure (some (text rc)) }

/-- `apr_socket_create`, after it has succeeded. -/
def openSocket : EngineM Nat := fun e =>
  .ok e.sockets.length { e with sockets := e.sockets.length :: e.sockets }

/-- `stomp_engine_connect`; returns the descriptor of the connection.  Several
texts name the host twice in their arguments but print it once. -/
def stompEngineConnect (A : Apr) (plan : ConnectPlan)
    (hostname : Option CString) :
    EngineM Nat := do
  let host := formatArg hostname
  engineCall plan.resolve fun rc =>
    .lit "unable to resolve hostname (" ++ host ++ .lit "): " ++ A.strerror rc
  engineCall plan.create fun _ => .lit "unable to create socket: " ++ host
  let descriptor ← openSocket
  -- a connect that reports EAGAIN is not taken for a failure
  engineCall (plan.connect.filter (· ≠ .eagain)) fun rc =>
    .lit "unable to connect: " ++ A.strerror rc
  engineCall plan.nonblock fun _ => .lit "unable to set socket options: " ++ host
  engineCall plan.remote fun _ =>
    .lit "unable to get socket information: " ++ host
  engineCall plan.localAddr fun _ =>
    .lit "unable to get the address associated with the socket: " ++ host
  engineCall plan.localIp fun _ =>
    .lit "unable to resolve socket address: " ++ host
  pure descriptor

end LibStomp.Model
