import LibStomp.Model.Memory
import LibStomp.Model.Pools
import LibStomp.Verified.Runs

/-!
# A program and its memory

What a program that uses one messenger has: the state of the library as values, and
beside it the memory, the pointer to the messenger and a variable for each message.  A
call happens on both sides.  On the side of the memory it comes to one of the
functions that allocate or free, or to none: a receive that takes a frame formats its
message, and any other call that does not succeed sets the status of the messenger.
Besides, it may set the static records `error` of `stomp_io.c` and `stomp_engine.c`,
whose texts nobody ever frees but the next setting.

Memory is never short here.
-/

namespace LibStomp.Model.Application

open LibStomp.Model.Memory (Ptr Machine MemoryCall StatusObject Store memoryStep)
open LibStomp.Verified.Allocation
open LibStomp.Verified.Runs

/-- What a program calls: an operation, or `stomp_message_format` on data of its
own. -/
inductive Action
  | call (op : PoolOp)
  | messageFormat (handle : Nat) (data : Bytes) (len : UInt64)

structure ActionCall where
  action : Action
  net : Net

/-- The call on the side of the values. -/
def valueStep (A : Apr) (s : Pools) (c : ActionCall) : Option (PoolReply × Pools) :=
  match c.action with
  | .call op => poolStep A s ⟨op, c.net⟩
  | .messageFormat handle data len => do
      let message ← s.messages.lookup handle
      some (⟨none, none, none⟩, { s with
        messages := s.messages.insert handle (stompMessageFormat message data len) })

/-- The frame that `stomp_receive` is going to take. -/
def frameTaken (A : Apr) (net : Net) (s : Pools) : Option Frame :=
  match (s.world.load net).readFrame A net.endline with
  | some (.frame frame, _) => some frame
  | _ => none

/-- The static records.  What `vasprintf` has allocated for their texts is kept apart from
the rest of the memory, since no other pointer leads there. -/
structure Records where
  heap : Store
  io : StatusObject
  engine : StatusObject

/-- The records at the start of the process. -/
def Records.start : Records := ⟨Heap.empty, ⟨.success, .null⟩, ⟨.success, .null⟩⟩

/-- What happens to a record during a call that takes its value from `old` to `new`.  A
call may set it more than once, and then only the last text stays. -/
def settle (old new : Status) (record : StatusObject) (h : Store) :
    Option (StatusObject × Store) :=
  if new = old then some (record, h)
  else Memory.stompStatusSet record new.code new.message true h

/-- The records after a call that leaves `w'`. -/
def Records.follow (records : Records) (w w' : World) : Option Records := do
  let (io, h) ← settle w.ioError w'.ioError records.io records.heap
  let (engine, h) ← settle w.engine.error w'.engine.error records.engine h
  some ⟨h, io, engine⟩

structure Program where
  values : Pools
  machine : Machine
  messenger : Ptr
  vars : Nat → Ptr
  records : Records

/-- The status is set where the call does not return `STOMP_SUCCESS`; `s` is what it
leaves. -/
def statusCall (messenger : Ptr) (reply : PoolReply) (s : Pools) : Option MemoryCall :=
  let status := s.world.messenger.status
  match reply.code with
  | none | some .success => none
  | _ => status.message.map fun text => .statusSet messenger status.code text true

/-- What the call comes to on the side of the memory. -/
def charge (A : Apr) (x : Program) (c : ActionCall) (reply : PoolReply) (s : Pools) :
    Option MemoryCall :=
  match c.action with
  | .messageFormat handle data len =>
      some (.messageFormat (x.vars handle) data len true)
  | .call .messageCreate => some (.messageCreate x.messenger ⟨true, true, true⟩)
  | .call (.messageDestroy handle) => some (.messageDestroy (x.vars handle))
  | .call (.receive handle) =>
      match frameTaken A c.net x.values with
      | some frame =>
          some (.messageFormat (x.vars handle) (frame.body.getD []) frame.bodyLength true)
      | none => statusCall x.messenger reply s
  | .call _ => statusCall x.messenger reply s

/-- The call, if there is one. -/
def perform (machine : Machine) : Option MemoryCall → Option (Ptr × Machine)
  | some call => memoryStep machine call
  | none => some (.null, machine)

/-- The variables after the call; `p` is the pointer it returns. -/
def assign (x : Program) (c : ActionCall) (p : Ptr) : Nat → Ptr :=
  match c.action with
  | .call .messageCreate => Function.update x.vars x.values.next p
  | .call (.messageDestroy handle) => Function.update x.vars handle .null
  | _ => x.vars

def programStep (A : Apr) (x : Program) (c : ActionCall) :
    Option (PoolReply × Program) := do
  let (reply, s) ← valueStep A x.values c
  let (p, machine) ← perform x.machine (charge A x c reply s)
  let records ← x.records.follow x.values.world s.world
  some (reply,
    { x with
      values := s
      machine := machine
      vars := assign x c p
      records := records })

/-- The program when it has initialised its messenger. -/
def Program.start (options : UInt32) (machine : Machine) (messenger : Ptr) : Program :=
  ⟨Pools.init options, machine, messenger, fun _ => .null, Records.start⟩

/-- A program from its start: it initialises the messenger and goes on with the calls. -/
def Program.run (A : Apr) (options : UInt32) (calls : List ActionCall) :
    Option (List (Event Program ActionCall PoolReply) × Program) := do
  let (messenger, machine) ←
    Memory.stompMessengerInit ⟨true, true, true, true, true, true⟩ Machine.start
  exec (programStep A) (Program.start options machine messenger) calls

end LibStomp.Model.Application
