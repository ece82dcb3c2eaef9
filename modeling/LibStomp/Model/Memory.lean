import LibStomp.Model.Messenger
import LibStomp.Verified.Allocation

/-!
# Objects in memory: creating and destroying

The life of the library's objects as `stomp_status.c`, `stomp_message.c` and the two
ends of `stomp_messenger.c` manage it: every object and every string it owns is a
block of a heap, every allocation may fail, and what the code reads through a
pointer that leads nowhere has no behaviour (`none`).

The other modules of the model know messages and status objects by their values
only.  Here a function of theirs appears a second time, at the level of pointers,
in a namespace of its own.
-/

namespace LibStomp.Model.Memory

open LibStomp.Verified.Allocation

/-! ## Objects -/

/-- A pointer.  `wild` is what an uninitialised one contains: neither a test nor a
`free` of it has a defined behaviour. -/
inductive Ptr
  | null
  | addr (address : Nat)
  | wild
deriving DecidableEq

/-- `stomp_status_t`. -/
structure StatusObject where
  code : StatusCode
  message : Ptr
deriving DecidableEq

/-- `stomp_message_t`. -/
structure MessageObject where
  size : UInt64
  body : Ptr
  pool : Ptr
deriving DecidableEq

/-- `stomp_messenger_t`, as far as it owns memory. -/
structure MessengerObject where
  status : StatusObject
  pool : Ptr
  exchangeProperties : Ptr
deriving DecidableEq

/-- What `malloc` leaves in a messenger.  The code is written before it is read. -/
def MessengerObject.uninitialised : MessengerObject := ⟨⟨.failure, .wild⟩, .wild, .wild⟩

/-- The contents of a block.  A pool and the structure around the hash table are blocks
of their own. -/
inductive Cell
  | messenger (object : MessengerObject)
  | message (object : MessageObject)
  | text (s : CString)
  | octets (bs : Bytes)
  | pool
  | properties
deriving DecidableEq

abbrev Store := Heap Cell

/-- `free`.  Pools do not come from `malloc`. -/
def free (p : Ptr) (h : Store) : Option Store :=
  match p with
  | .null => some h
  | .addr a => if h.get a = some .pool then none else h.free a
  | .wild => none

/-- `apr_pool_destroy`, which reads the pool. -/
def aprPoolDestroy (p : Ptr) (h : Store) : Option Store :=
  match p with
  | .addr a => if h.get a = some .pool then h.free a else none
  | _ => none

/-- The messenger a pointer leads to. -/
def messengerAt (p : Ptr) (h : Store) : Option (Nat × MessengerObject) :=
  match p with
  | .addr a =>
      match h.get a with
      | some (.messenger m) => some (a, m)
      | _ => none
  | _ => none

/-- The message a pointer leads to. -/
def messageAt (p : Ptr) (h : Store) : Option (Nat × MessageObject) :=
  match p with
  | .addr a =>
      match h.get a with
      | some (.message m) => some (a, m)
      | _ => none
  | _ => none

/-! ## `stomp_status.c` -/

def stompStatusReset (status : StatusObject) (h : Store) :
    Option (StatusObject × Store) := do
  let h ← free status.message h
  some ({ status with message := .null }, h)

/-- `printed` says whether `vasprintf` has found memory; if not, it leaves the pointer
undefined. -/
def stompStatusSet (status : StatusObject) (code : StatusCode)
    (message : Option CString) (printed : Bool) (h : Store) :
    Option (StatusObject × Store) := do
  let (status, h) ←
    if status.message ≠ .null then stompStatusReset status h else some (status, h)
  match message with
  | none => some ({ status with code := code }, h)
  | some text =>
      if printed then some (⟨code, .addr h.next⟩, h.alloc (.text text))
      else some (⟨code, .wild⟩, h)

def stompStatusSuccess (status : StatusObject) (h : Store) :
    Option (StatusObject × Store) :=
  stompStatusSet status .success none true h

/-- `stomp_status_set (&messenger->status, code, message)`. -/
def setStatus (messenger : Ptr) (code : StatusCode) (message : CString)
    (printed : Bool) (h : Store) : Option Store := do
  let (a, m) ← messengerAt messenger h
  let (status, h) ← stompStatusSet m.status code (some message) printed h
  h.store a (.messenger { m with status := status })

/-! ## The portable runtime -/

/-- The memory of the process, and how often `apr_initialize` was called more than
`apr_terminate`. -/
structure Machine where
  heap : Store
  initialized : Nat

/-- Nothing is allocated and the runtime is not initialised. -/
def Machine.start : Machine := ⟨Heap.empty, 0⟩

/-- A change of the memory alone. -/
def Machine.onHeap (r : Machine) (f : Store → Option Store) : Option Machine :=
  (f r.heap).map fun h => { r with heap := h }

/-- `apr_pool_create (_, NULL)`; `found` says whether there is memory for the pool, which
is NULL otherwise.  The parent of the pool is there between the first `apr_initialize`
and the last `apr_terminate`. -/
def aprPoolCreate (found : Bool) (r : Machine) : Option (Ptr × Machine) :=
  if r.initialized = 0 then none
  else if found then some (.addr r.heap.next, { r with heap := r.heap.alloc .pool })
  else some (.null, r)

/-- `apr_terminate`.  The last one destroys the pools there still are. -/
def aprTerminate (r : Machine) : Machine :=
  { heap := if r.initialized = 1 then r.heap.sweep (· = .pool) else r.heap
    initialized := r.initialized - 1 }

/-! ## `stomp_message.c` -/

/-- Which calls of the runtime find memory while a message is created. -/
structure CreateCalls where
  malloc : Bool
  pool : Bool
  printed : Bool
deriving DecidableEq

/-- `stomp_message_create`; `status` is NULL or leads to the messenger whose status it
is. -/
def stompMessageCreate (status : Ptr) (calls : CreateCalls) (r : Machine) :
    Option (Ptr × Machine) :=
  if !calls.malloc then
    -- without a status the function goes on and writes through NULL
    if status = .null then none
    else do
      let r ← r.onHeap (setStatus status .failure
        (.lit "Unable to allocate memory for a new stomp message object")
        calls.printed)
      some (.null, r)
  else do
    let message := r.heap.next
    let r := { r with heap := r.heap.alloc (.message ⟨toSize (-1), .null, .wild⟩) }
    let (pool, r) ← aprPoolCreate calls.pool r
    if calls.pool then do
      let r ← r.onHeap (·.store message (.message ⟨toSize (-1), .null, pool⟩))
      some (.addr message, r)
    else do
      let r ← r.onHeap (free (.addr message))
      -- here the status is not compared with NULL
      let r ← r.onHeap (setStatus status .failure
        (.lit "Unable to allocate memory for internal message pool")
        calls.printed)
      some (.null, r)

/-- `stomp_message_destroy`. -/
def stompMessageDestroy (message : Ptr) (h : Store) : Option Store := do
  let (_, m) ← messageAt message h
  let h ← aprPoolDestroy m.pool h
  let h ← free m.body h
  free message h

/-- `strncpy` finds the end of `data`, or `len` octets of it. -/
def readable (data : Bytes) (len : UInt64) : Bool :=
  nul ∈ data || len.toNat ≤ data.length

/-- `stomp_message_format`.  There is no room for the copy if `malloc` fails, and none
if `len + 1` wraps to 0. -/
def stompMessageFormat (message : Ptr) (data : Bytes) (len : UInt64) (malloc : Bool)
    (h : Store) : Option Store := do
  let (a, m) ← messageAt message h
  let h ← if m.body ≠ .null then free m.body h else some h
  if malloc && len + 1 ≠ 0 && readable data len then
    let text := CString.ofBuffer (data.take len.toNat)
    let body := h.next
    let h := h.alloc (.octets
      (text.bytes ++ List.replicate (len.toNat + 1 - text.strlen) nul))
    h.store a (.message ⟨UInt64.ofNat (text.strlen + 1), .addr body, m.pool⟩)
  else none

/-! ## The ends of a messenger -/

/-- Which calls of the runtime succeed while a messenger is initialised. -/
structure InitCalls where
  malloc : Bool
  apr : Bool
  pool : Bool
  properties : Bool
  hash : Bool
  printed : Bool
deriving DecidableEq

/-- A failure of `stomp_messenger_init`, which returns the messenger all the same. -/
def initFailure (ret : Nat) (message : CString) (printed : Bool) (r : Machine) :
    Option (Ptr × Machine) := do
  let r ← r.onHeap (setStatus (.addr ret) .failure message printed)
  some (.addr ret, r)

/-- `stomp_messenger_init`. -/
def stompMessengerInit (calls : InitCalls) (r : Machine) : Option (Ptr × Machine) :=
  if !calls.malloc then some (.null, r)
  else do
    let ret := r.heap.next
    let m := MessengerObject.uninitialised
    let r : Machine := ⟨r.heap.alloc (.messenger m), r.initialized + 1⟩
    if !calls.apr then
      initFailure ret (.lit "Unable to initialize the Apache Portal Runtime")
        calls.printed r
    else do
      let (status, h) ← stompStatusSuccess { m.status with message := .null } r.heap
      let m := { m with status := status }
      let (pool, r) ← aprPoolCreate calls.pool { r with heap := h }
      let m := { m with pool := pool }
      let r ← r.onHeap (·.store ret (.messenger m))
      if !calls.pool then
        initFailure ret (.lit "Unable to initialize the APR pool") calls.printed r
      else if !calls.properties then do
        let r ← r.onHeap (·.store ret (.messenger { m with exchangeProperties := .null }))
        initFailure ret
          (.lit "Unable to initialize the outer exchange properties structure")
          calls.printed r
      else do
        let m := { m with exchangeProperties := .addr r.heap.next }
        let r := { r with heap := r.heap.alloc .properties }
        let r ← r.onHeap (·.store ret (.messenger m))
        if !calls.hash then
          initFailure ret
            (.lit "Unable to initialize the exchange properties structure")
            calls.printed r
        else some (.addr ret, r)

/-- `stomp_messenger_destroy`. -/
def stompMessengerDestroy (messenger : Ptr) (r : Machine) : Option Machine := do
  let (a, m) ← messengerAt messenger r.heap
  let h ← free m.exchangeProperties r.heap
  let (status, h) ← stompStatusReset m.status h
  let h ← h.store a (.messenger { m with status := status })
  let h ← aprPoolDestroy m.pool h
  let h ← free messenger h
  some (aprTerminate { r with heap := h })

/-! ## Runs -/

/-- The calls that allocate or free.  `statusSet` stands for any operation of the
messenger that sets its status. -/
inductive MemoryCall
  | messengerInit (calls : InitCalls)
  | messengerDestroy (messenger : Ptr)
  | messageCreate (status : Ptr) (calls : CreateCalls)
  | messageFormat (message : Ptr) (data : Bytes) (len : UInt64) (malloc : Bool)
  | messageDestroy (message : Ptr)
  | statusSet (messenger : Ptr) (code : StatusCode) (message : CString)
      (printed : Bool)

/-- One call, with the pointer it returns. -/
def memoryStep (r : Machine) : MemoryCall → Option (Ptr × Machine)
  | .messengerInit calls => stompMessengerInit calls r
  | .messengerDestroy messenger =>
      (stompMessengerDestroy messenger r).map ((.null, ·))
  | .messageCreate status calls => stompMessageCreate status calls r
  | .messageFormat message data len malloc =>
      (r.onHeap (stompMessageFormat message data len malloc)).map ((.null, ·))
  | .messageDestroy message =>
      (r.onHeap (stompMessageDestroy message)).map ((.null, ·))
  | .statusSet messenger code message printed =>
      (r.onHeap (setStatus messenger code message printed)).map ((.null, ·))

end LibStomp.Model.Memory
