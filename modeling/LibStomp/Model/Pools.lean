import LibStomp.Model.Messenger

/-!
# Pools: who owns the strings of the exchange properties

The table of the exchange properties lives in the messenger's pool, but it holds
pointers: `stomp_exchange_add` stores what the caller passes, and `stomp_receive`
stores names and values of a frame that was parsed in the pool of the message.
`stomp_message_destroy` frees that pool.  What the caller passes may be in the pool of
a message, too: `stomp_exchange_get` hands out the pointer that is in the table.

The state adds to a `World` the messages that exist and, for every entry of the
table, the owner of its name and of its value.  A table finds an entry by
content; when it overwrites one, it replaces the value and keeps the name it has.
An operation that looks at a table with a freed string has no behaviour.
-/

namespace LibStomp.Model

/-- What a string is allocated in: the pool of the message with that handle, the pool
of the messenger, or memory of the caller. -/
inductive Owner
  | caller
  | messenger
  | message (handle : Nat)
deriving DecidableEq

/-- The owners of the two strings of an entry. -/
structure Ownership where
  name : Owner
  value : Owner
deriving DecidableEq

/-- `owners` says nothing about names that are not in the table.  Handles are given
out in order, and never again. -/
structure Pools where
  world : World
  owners : CString → Ownership
  messages : AList (fun _ : Nat => Message)
  next : Nat

/-- After `stomp_messenger_init`. -/
def Pools.init (options : UInt32) : Pools where
  world := stompMessengerInit options
  owners := fun _ => ⟨.caller, .caller⟩
  messages := ∅
  next := 0

namespace Pools

def table (s : Pools) : Hash := s.world.messenger.exchangeProperties

/-- The pool of the owner has been destroyed. -/
def freed (s : Pools) : Owner → Bool
  | .message handle => handle ∉ s.messages
  | _ => false

/-- No entry of the table refers to a freed string. -/
def readable (s : Pools) : Bool :=
  s.table.keys.all fun k =>
    !s.freed (s.owners k).name && !s.freed (s.owners k).value

/-- The owners after the names have been set in the table. -/
def setOwners (s : Pools) (names : List CString) (o : Ownership) :
    CString → Ownership := fun k =>
  if k ∈ names then
    ⟨if k ∈ s.table then (s.owners k).name else o.name, o.value⟩
  else s.owners k

/-- The owners after the caller has set the name, to NULL or to a string. -/
def addOwners (s : Pools) (name : CString) (owner : Ownership) :
    Option CString → CString → Ownership
  | some _ => s.setOwners [name] owner
  | none => s.owners

/-- The headers that `stomp_receive` is going to merge. -/
def incoming (A : Apr) (net : Net) (s : Pools) : Hash :=
  match (s.world.load net).readFrame A net.endline with
  | some (.frame frame, _) => frame.headers.getD ∅
  | _ => ∅

/-- An operation that looks at the table. -/
def onTable (A : Apr) (s : Pools) (c : Call) : Option (Reply × World) :=
  if s.readable then step A s.world c else none

/-- A receive compares names if there is something to merge. -/
def onReceive (A : Apr) (net : Net) (message : Message) (s : Pools) :
    Option (Reply × World) :=
  if (s.incoming A net).keys = [] then step A s.world ⟨.receive message, net⟩
  else s.onTable A ⟨.receive message, net⟩

end Pools

/-- The operations that neither take a message nor look at the table. -/
def Op.isApart : Op → Bool
  | .send _ _ => false
  | .receive _ => false
  | .exchangeAdd _ _ => false
  | .exchangeClear => false
  | _ => true

/-- The owners of the strings that a caller of `stomp_exchange_add` passes. -/
def passed (value : Option CString) (owner : Ownership) : List Owner :=
  owner.name :: (value.map fun _ => owner.value).toList

/-- The calls of an application that holds messages by their handles. -/
inductive PoolOp
  | messageCreate
  | messageDestroy (handle : Nat)
  | receive (handle : Nat)
  | send (header : Option SendHeader) (handle : Nat)
  | exchangeAdd (name : CString) (value : Option CString) (owner : Ownership)
  | exchangeGet (name : CString)
  | exchangeClear
  | exchangeUtilCtime (msec : Int64)
  | apart (op : Op)

/-- The call gives the table strings that are in the pool of the message. -/
def PoolOp.gives (handle : Nat) : PoolOp → Bool
  | .receive other => other = handle
  | .exchangeAdd _ value owner => .message handle ∈ passed value owner
  | _ => false

/-- The call refers to the message. -/
def PoolOp.names (handle : Nat) : PoolOp → Bool
  | .messageDestroy other => other = handle
  | .send _ other => other = handle
  | op => op.gives handle

structure PoolCall where
  op : PoolOp
  net : Net

/-- The code, where there is one, the handle of a new message, and the value of a
property. -/
structure PoolReply where
  code : Option StatusCode
  handle : Option Nat
  value : Option CString
deriving DecidableEq

/-- One call. -/
def poolStep (A : Apr) (s : Pools) (c : PoolCall) : Option (PoolReply × Pools) :=
  let net := c.net
  match c.op with
  | .messageCreate =>
      some (⟨none, some s.next, none⟩,
        { s with
          messages := s.messages.insert s.next stompMessageCreate
          next := s.next + 1 })
  | .messageDestroy handle =>
      if handle ∈ s.messages then
        some (⟨none, none, none⟩, { s with messages := s.messages.erase handle })
      else none
  | .receive handle => do
      let message ← s.messages.lookup handle
      let (r, w) ← s.onReceive A net message
      some (⟨r.code, none, none⟩,
        { s with
          world := w
          owners := s.setOwners (s.incoming A net).keys
            ⟨.message handle, .message handle⟩
          messages := s.messages.insert handle (r.message.getD message) })
  | .send header handle => do
      let message ← s.messages.lookup handle
      let (r, w) ← s.onTable A ⟨.send header message, net⟩
      some (⟨r.code, none, none⟩, { s with world := w })
  | .exchangeAdd name value owner =>
      -- a string in a pool that was destroyed cannot be passed
      if (passed value owner).any s.freed then none
      else do
        let (r, w) ← s.onTable A ⟨.exchangeAdd name value, net⟩
        some (⟨r.code, none, none⟩,
          { s with
            world := w
            owners := s.addOwners name owner value })
  | .exchangeGet name =>
      if s.readable then some (⟨none, none, stompExchangeGet name s.world⟩, s)
      else none
  | .exchangeClear => do
      let (r, w) ← s.onTable A ⟨.exchangeClear, net⟩
      some (⟨r.code, none, none⟩, { s with world := w })
  -- the name is a literal, the text is allocated in the pool of the table
  | .exchangeUtilCtime msec => do
      let text := aprItoa msec.toInt
      let (_, w) ← s.onTable A
        ⟨.exchangeAdd (.lit "creation") (some text), net⟩
      some (⟨some .success, none, none⟩,
        { s with
          world := w
          owners := s.setOwners [.lit "creation"] ⟨.caller, .messenger⟩ })
  | .apart op =>
      if op.isApart then do
        let (r, w) ← step A s.world ⟨op, net⟩
        some (⟨r.code, none, none⟩, { s with world := w })
      else none

end LibStomp.Model
