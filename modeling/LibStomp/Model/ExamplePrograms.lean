import LibStomp.Model.Application

/-!
# The programs of `example/messenger`

`client.c` and `server.c` are one outline: initialise a messenger, make some calls,
create a message, make some more, and leave.  The code of each call is compared with
`STOMP_SUCCESS`; where it differs, the program jumps to the part of its end that
destroys what there is by then.  What the programs print is left out: a body that
`stomp_message_format` has written ends with a NUL, and for a text that is NULL there
is `(null)`.
-/

namespace LibStomp.Model.ExamplePrograms

open LibStomp.Model.Application
open LibStomp.Model.Memory (Machine stompMessengerDestroy)

/-- The calls up to the first that does not return `STOMP_SUCCESS`, and whether there
is none; call number `i` meets the surroundings `env i`.  A function without a code
cannot fail. -/
def checked (A : Apr) (env : Nat → Net) :
    Nat → List Action → Program → Option (Bool × Program)
  | _, [], x => some (true, x)
  | i, action :: actions, x => do
      let (reply, x) ← programStep A x ⟨action, env i⟩
      match reply.code with
      | none | some .success => checked A env (i + 1) actions x
      | _ => some (false, x)

/-- The calls of a program before it has a message, and with it. -/
structure Outline where
  before : List Action
  after : List Action

/-- `argv[1]`, or the endpoint that stands in the program. -/
def endpointOf (url : Option CString) : CString :=
  url.getD (.lit "stomp://localhost:61613/queue/test.stomp.queue")

/-- `server.c`. -/
def server (url : Option CString) : Outline where
  before := [
    .call (.apart (.setEndpoint (endpointOf url))),
    .call (.apart (.connect none)),
    .call (.apart (.subscribe (some ⟨123, 1⟩)))]
  after := [
    .call (.receive 0),
    .call (.exchangeGet (.lit "test")),
    .call (.exchangeGet (.lit "creation")),
    .call (.apart (.disconnect none))]

end LibStomp.Model.ExamplePrograms
