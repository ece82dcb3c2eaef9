import LibStomp.Model.ExamplePrograms
import LibStomp.Session.Application
import LibStomp.Session.CallOrder
import LibStomp.Session.Destinations

/-!
# The example programs are safe

The programs of `example/messenger` are run against a network and a broker of which
nothing is known.  They check the code of every call; this is enough to keep them
clear of calls without an endpoint or a connection, and of properties whose strings
are gone.  One thing they cannot prevent: where a receipt is awaited the broker may
send another frame with a body that does not end (`misanswers`), and the library reads
on behind it.  Otherwise, whichever way they leave, they give all memory back but the
texts of the static records.

## Main results

* `unread_step` — what is unread has arrived.
* `usual_call` — once a session is open, the usual calls have a behaviour.
* `main_safe` — every outline of usual calls is safe.
* `examples_safe` — the two programs are.
-/

namespace LibStomp.Session.ExamplePrograms

open LibStomp.Model
open LibStomp.Model.Application
open LibStomp.Model.ExamplePrograms
open LibStomp.Session.Application
open LibStomp.Session.CallOrder
open LibStomp.Session.Destinations (accepts accepts_iff setEndpoint_code)
open LibStomp.Session.Ownership
open LibStomp.Session.Properties (bodyHolds_messageFormat)
open LibStomp.Session.Steps
open LibStomp.Stream.Receiving
open LibStomp.Stream.SendCalls
open LibStomp.Stream.WriteFrame
open LibStomp.Verified.Runs

/-! ## What is unread -/

/-- The number of bytes that have arrived and were not read. -/
def unread (w : World) : Nat :=
  match w.messenger.connection with
  | some socket => socket.inbox.length
  | none => 0

theorem unread_eq {w : World} {socket : Socket}
    (h : w.messenger.connection = some socket) : unread w = socket.inbox.length := by
  rw [unread, h]

theorem unread_load (net : Net) (w : World) :
    unread (w.load net) ≤ unread w + net.arrivals.length := by
  cases hconnection : w.messenger.connection with
  | none =>
      rw [unread, load_connection, hconnection]
      exact Nat.zero_le _
  | some socket =>
      rw [unread_eq (load_connection_of_some net hconnection), unread_eq hconnection]
      exact (List.length_append).le

theorem unread_readStep {A : Apr} {endline : UInt8} {w w' : World} {socket : Socket}
    {reading : Reading} (h : ReadStep A endline w socket reading w') :
    unread w' ≤ socket.inbox.length := by
  cases h with
  | notReady hwait => exact (drained_stompIoCanRead hwait).inbox.length_le
  | failed hwait hread =>
      exact ((drained_stompIoCanRead hwait).trans
        ((stompRead_receives A).error hread)).inbox.length_le
  | frame hwait hread =>
      exact ((drained_stompIoCanRead hwait).trans
        ((stompRead_receives A).ok hread)).inbox.length_le

theorem unread_waited {A : Apr} {endline : UInt8} {w w' : World} {socket : Socket}
    {code : StatusCode} (h : Waited A endline w socket code w') :
    unread w' ≤ socket.inbox.length := by
  obtain ⟨reading, w₁, hread, hconnection, -⟩ := h.reading
  rw [unread, hconnection]
  exact unread_readStep hread

theorem unread_transacted {A : Apr} {net : Net} {w w' : World} {q : Request}
    {socket : Socket} {code : StatusCode}
    (h : Transacted A net w q socket code w') : unread w' ≤ socket.inbox.length := by
  cases h with
  | unwritten _ _ hacc => exact (congrArg List.length hacc.inbox).le
  | written hacc => exact (congrArg List.length hacc.inbox).le
  | waited hacc _ hwaited =>
      exact (unread_waited hwaited).trans (congrArg List.length hacc.inbox).le

theorem unread_received {A : Apr} {endline : UInt8} {w w' : World} {socket : Socket}
    {message message' : Message} {code : StatusCode}
    (h : Received A endline w socket message code message' w') :
    unread w' ≤ socket.inbox.length := by
  obtain ⟨reading, w₁, hread, hconnection, -⟩ := h.reading
  rw [unread, hconnection]
  exact unread_readStep hread

theorem unread_connect {A : Apr} {net : Net} {w w' : World}
    {header : Option ConnectionHeader} {code : StatusCode}
    (h : stompConnect A net header w = some (code, w')) :
    unread w' ≤ unread w + net.arrivals.length := by
  have hwrites := stompWrite_writes A net.order (connectFrame header)
  cases connectRun_of_connect h with
  | unreachable => exact Nat.le_add_right _ _
  | unwritten _ _ hwrite =>
      obtain ⟨sent, more, -, -, hacc, -⟩ := hwrites.cut hwrite
      exact (congrArg List.length hacc.inbox).le.trans (Nat.le_add_left _ _)
  | refused _ _ hwrite hread =>
      have hacc := hwrites.accepted hwrite
      exact (unread_readStep hread).trans
        ((congrArg List.length hacc.inbox).le.trans (Nat.le_add_left _ _))
  | confirmed _ hwrite hread =>
      have hacc := hwrites.accepted hwrite
      exact (unread_readStep hread).trans
        ((congrArg List.length hacc.inbox).le.trans (Nat.le_add_left _ _))

/-- No call makes up what it leaves unread. -/
theorem unread_step {A : Apr} {w w' : World} {c : Call} {r : Reply}
    (h : step A w c = some (r, w')) :
    unread w' ≤ unread w + c.net.arrivals.length := by
  obtain ⟨op, net⟩ := c
  have hload := unread_load net w
  have hstepped : Stepped A net w op r w' := stepped_of_step h
  cases hstepped with
  | request _ hrun =>
      obtain ⟨socket, hsocket, htransacted⟩ := transacted_of_transact hrun
      exact (unread_transacted htransacted).trans (unread_eq hsocket ▸ hload)
  | connect hrun => exact unread_connect hrun
  | receive hrun =>
      obtain ⟨socket, hsocket, hreceived⟩ := received_of_receive hrun
      exact (unread_received hreceived).trans (unread_eq hsocket ▸ hload)
  | setEndpoint hrun =>
      obtain ⟨st, rfl, -⟩ := setEndpoint_cases hrun
      exact hload
  | noHeader => exact hload
  | exchangeAdd => exact hload
  | exchangeClear => exact hload

/-! ## Usual calls -/

/-- The operation waits for a receipt, and is answered by a frame that is none and has a
body without an end. -/
def misanswers (A : Apr) (w : World) (c : Call) : Bool :=
  match request w.messenger c.op with
  | some q => misanswered A c.net q (w.load c.net)
  | none => false

/-- The call of a program is answered so. -/
def waitsInVain (A : Apr) (s : Pools) (c : ActionCall) : Bool :=
  match c.action with
  | .call (.apart op) => misanswers A s.world ⟨op, c.net⟩
  | .call (.send header handle) =>
      (s.messages.lookup handle).any fun message =>
        misanswers A s.world ⟨.send header message, c.net⟩
  | _ => false

/-- A message of which `stomp_send` takes no more than there is. -/
def shortData (data : Bytes) : Bool := data.length + 1 < 2 ^ 31

/-- The call neither makes nor destroys a message, it is given messages that are live,
strings of the program's own and data that are there, a message that is sent is not
received into, and it is nothing that an open session has to be careful with. -/
def usual (live sent : Nat → Bool) : Action → Bool
  | .messageFormat handle data len =>
      live handle && (len + 1 ≠ 0 && Memory.readable data len) &&
        (!sent handle || shortData data)
  | .call .messageCreate => false
  | .call (.messageDestroy _) => false
  | .call (.receive handle) => live handle && !sent handle
  | .call (.send _ handle) => live handle && sent handle
  | .call (.exchangeAdd _ _ owner) => owner = ⟨.caller, .caller⟩
  | .call (.apart op) => op.isApart && isUsual op
  | .call _ => true

/-- The messages that are sent have the octets they announce. -/
def SoundMessages (sent : Nat → Bool) (s : Pools) : Prop :=
  ∀ handle message, sent handle = true → s.messages.lookup handle = some message →
    Sound message

section Calls

variable {A : Apr} {s : Pools} (hread : s.readable = true)
variable (ho : (phaseOf s.world).Open) (net : Net)
include hread ho

end Calls

/-- The program can go on: memory holds what it should, the table can be read, and no
more than `bound` bytes are unread. -/
structure Ready (x : Program) (bound : Nat) : Prop where
  memory : InMemory x
  readable : x.values.readable = true
  bounded : unread x.values.world ≤ bound

theorem Ready.mono {x : Program} {m n : Nat} (h : Ready x m) (hle : m ≤ n) :
    Ready x n :=
  ⟨h.memory, h.readable, h.bounded.trans hle⟩

/-- There are the same messages, and the next one gets the same handle. -/
structure SameHandles (s s' : Pools) : Prop where
  mem_iff : ∀ i, i ∈ s'.messages ↔ i ∈ s.messages
  next : s'.next = s.next

theorem SameHandles.trans {s s₁ s' : Pools} (hfirst : SameHandles s s₁)
    (hsecond : SameHandles s₁ s') : SameHandles s s' :=
  ⟨fun i => (hsecond.mem_iff i).trans (hfirst.mem_iff i),
    hsecond.next.trans hfirst.next⟩

/-- Unless a message is destroyed the table can be read on. -/
theorem readable_step {A : Apr} {s s' : Pools} {op : PoolOp} {net : Net}
    {reply : PoolReply} (h : poolStep A s ⟨op, net⟩ = some (reply, s'))
    (hread : s.readable = true) (hdestroy : ∀ handle, op ≠ .messageDestroy handle) :
    s'.readable = true := by
  have hsafe : SafeDestroy s ⟨op, net⟩ := fun handle hop => absurd hop (hdestroy handle)
  exact (readable_iff s').mpr
    (intact_step (e := ⟨s, ⟨op, net⟩, reply, s'⟩) h ((readable_iff s).mp hread) hsafe)

theorem unflooded_of_unread {w : World} {net : Net} {bound : Nat}
    (hunread : unread w ≤ bound) (hshort : bound + net.arrivals.length + 1 < 2 ^ 64) :
    unflooded (w.load net) = true := by
  have hload := unread_load net w
  unfold unflooded
  cases hconnection : (w.load net).messenger.connection with
  | none => rfl
  | some socket =>
      rw [unread_eq hconnection] at hload
      exact decide_eq_true (by omega)

section SoundMessages

variable {sent : Nat → Bool} {s s' : Pools} (hs : SoundMessages sent s)
include hs

/-- A message with little enough data can be sent. -/
theorem SoundMessages.format {handle : Nat} {data : Bytes} {len : UInt64}
    (hlookup : ∃ message, ∀ i, s'.messages.lookup i =
      if i = handle then some (stompMessageFormat message data len)
      else s.messages.lookup i)
    (hshort : (!sent handle || shortData data) = true) : SoundMessages sent s' := by
  obtain ⟨old, hlookup⟩ := hlookup
  intro i message hsent hmessage
  rw [hlookup] at hmessage
  split at hmessage
  · rename_i heq
    obtain rfl := Option.some.inj hmessage
    subst heq
    rw [hsent, Bool.not_true, Bool.false_or] at hshort
    have hdata : data.length + 1 < 2 ^ 31 := of_decide_eq_true hshort
    refine @bodyHolds_messageFormat _ old data len ?_ rfl rfl
    have hle : (CString.ofBuffer (data.take len.toNat)).strlen ≤
        (data.take len.toNat).length := (List.takeWhile_sublist _).length_le
    have htake := List.length_take_le' len.toNat data
    omega
  · exact hs i message hsent hmessage

/-- The usual calls leave the messages that are sent alone. -/
theorem SoundMessages.call {A : Apr} {live : Nat → Bool} {op : PoolOp} {net : Net}
    {reply : PoolReply} (h : poolStep A s ⟨op, net⟩ = some (reply, s'))
    (hop : usual live sent (.call op) = true) : SoundMessages sent s' := by
  intro i message hsent hmessage
  refine hs i message hsent ?_
  rw [← hmessage]
  by_cases hreceive : ∃ handle, op = .receive handle
  · obtain ⟨handle, rfl⟩ := hreceive
    obtain ⟨-, hnot⟩ := Bool.and_eq_true_iff.mp hop
    have hne : i ≠ handle := by
      rintro rfl
      rw [hsent] at hnot
      cases hnot
    obtain ⟨old, -, -, hcases⟩ := receive_step h
    rcases hcases with ⟨frame, -, hmessages, -⟩ | ⟨-, hmessages, -⟩
    · rw [hmessages, AList.lookup_insert_ne hne]
    · rw [hmessages]
  · have hcreate : op ≠ .messageCreate := by
      rintro rfl
      cases hop
    have hdestroy : ∀ handle, op ≠ .messageDestroy handle := by
      rintro handle rfl
      cases hop
    rw [(plain_step h hcreate hdestroy (not_exists.mp hreceive)).1]

end SoundMessages

section Steps

variable {A : Apr} {x : Program} {bound : Nat} (hr : Ready x bound) {net : Net}
include hr

/-- What has a behaviour on values has one in memory. -/
theorem Ready.call (hshort : bound + net.arrivals.length + 1 < 2 ^ 64) {op : PoolOp}
    {reply : PoolReply} {s : Pools}
    (hstep : poolStep A x.values ⟨op, net⟩ = some (reply, s))
    (hdestroy : ∀ handle, op ≠ .messageDestroy handle)
    (hunread : unread s.world ≤ unread x.values.world + net.arrivals.length) :
    ∃ x', programStep A x ⟨.call op, net⟩ = some (reply, x') ∧ x'.values = s ∧
      Ready x' (bound + net.arrivals.length) := by
  have hfit : manageable x.values ⟨.call op, net⟩ = true := by
    cases op with
    | receive handle => exact unflooded_of_unread hr.bounded hshort
    | _ => rfl
  obtain ⟨x', hrun, hx', hvalues⟩ :=
    program_simulates A _ [] _ x _ _ ⟨hr.memory, rfl⟩ hfit hstep
  refine ⟨x', hrun, hvalues, hx', ?_, ?_⟩
  · rw [hvalues]
    exact readable_step hstep hr.readable hdestroy
  · rw [hvalues]
    exact hunread.trans (Nat.add_le_add_right hr.bounded _)

/-- An operation of the library. -/
theorem Ready.apart (hshort : bound + net.arrivals.length + 1 < 2 ^ 64) {op : Op}
    (hapart : op.isApart = true) {r : Reply} {w : World}
    (hstep : step A x.values.world ⟨op, net⟩ = some (r, w)) :
    ∃ x', programStep A x ⟨.call (.apart op), net⟩ =
        some (⟨r.code, none, none⟩, x') ∧
      x'.values = { x.values with world := w } ∧
      Ready x' (bound + net.arrivals.length) := by
  have hrun : poolStep A x.values ⟨.apart op, net⟩ =
      some (⟨r.code, none, none⟩, { x.values with world := w }) := by
    simp only [poolStep, hapart, hstep, if_true, Option.bind_eq_bind, Option.bind_some]
  exact hr.call hshort hrun (by simp) (unread_step hstep)

theorem Ready.format (net : Net) {handle : Nat}
    (hlive : handle ∈ x.values.messages) {data : Bytes}
    {len : UInt64} (hfit : (len + 1 ≠ 0 && Memory.readable data len) = true) :
    ∃ x', programStep A x ⟨.messageFormat handle data len, net⟩ =
        some (⟨none, none, none⟩, x') ∧
      x'.values.world = x.values.world ∧ SameHandles x.values x'.values ∧
      (∃ message, ∀ i, x'.values.messages.lookup i =
        if i = handle then some (stompMessageFormat message data len)
        else x.values.messages.lookup i) ∧
      Ready x' bound := by
  obtain ⟨message, hlookup⟩ :=
    Option.isSome_iff_exists.mp (AList.lookup_isSome.mpr hlive)
  have hstep : valueStep A x.values ⟨.messageFormat handle data len, net⟩ =
      some (⟨none, none, none⟩,
        { x.values with
          messages :=
            x.values.messages.insert handle (stompMessageFormat message data len) }) := by
    simp only [valueStep, hlookup, Option.bind_eq_bind, Option.bind_some]
  have hmanageable : manageable x.values ⟨.messageFormat handle data len, net⟩ = true :=
    hfit
  obtain ⟨x', hrun, hx', hvalues⟩ :=
    program_simulates A _ [] _ x _ _ ⟨hr.memory, rfl⟩ hmanageable hstep
  have hsame : SameHandles x.values x'.values := by
    rw [hvalues]
    refine ⟨fun i => ?_, rfl⟩
    show i ∈ AList.insert _ _ _ ↔ _
    rw [AList.mem_insert]
    exact ⟨fun hi => hi.elim (fun heq => heq ▸ hlive) id, .inr⟩
  have hworld : x'.values.world = x.values.world := by rw [hvalues]
  refine ⟨x', hrun, hworld, hsame, ⟨message, fun i => ?_⟩, hx',
    (readable_iff _).mpr fun k i howner => ?_, ?_⟩
  · rw [hvalues]
    show (AList.insert _ _ _).lookup i = _
    split
    · rename_i heq
      rw [heq, AList.lookup_insert]
    · exact AList.lookup_insert_ne ‹_›
  · rw [hsame.mem_iff]
    rw [hvalues] at howner
    exact (readable_iff _).mp hr.readable k i howner
  · rw [hworld]
    exact hr.bounded

end Steps

/-! ## Checked calls -/

/-- The bytes that arrive during the first `n` calls. -/
def arriving (env : Nat → Net) : Nat → Nat
  | 0 => 0
  | n + 1 => arriving env n + (env n).arrivals.length

/-- No call among these, up to the first that does not return `STOMP_SUCCESS`, waits in
vain for a receipt. -/
def wellAnswered (A : Apr) (env : Nat → Net) : Nat → List Action → Program → Bool
  | _, [], _ => true
  | i, action :: actions, x =>
      !waitsInVain A x.values ⟨action, env i⟩ &&
        match programStep A x ⟨action, env i⟩ with
        | none => true
        | some (reply, x) =>
            match reply.code with
            | none | some .success => wellAnswered A env (i + 1) actions x
            | _ => true

section Next

variable {A : Apr} {env : Nat → Net} {i : Nat} {action : Action} {x x' : Program}
variable {reply : PoolReply}
variable (hrun : programStep A x ⟨action, env i⟩ = some (reply, x'))
variable (actions : List Action)
include hrun

end Next

section Opening

variable {A : Apr} {x : Program} {bound : Nat} (hr : Ready x bound) {net : Net}
variable (hshort : bound + net.arrivals.length + 1 < 2 ^ 64)
include hr hshort

/-- An endpoint that is accepted is a destination. -/
theorem Ready.setEndpoint (uri : CString) :
    ∃ code x', programStep A x ⟨.call (.apart (.setEndpoint uri)), net⟩ =
        some (⟨some code, none, none⟩, x') ∧
      (code = .success → (phaseOf x'.values.world).destined = true) ∧
      SameHandles x.values x'.values ∧ Ready x' (bound + net.arrivals.length) := by
  have hdefined : (step A x.values.world ⟨.setEndpoint uri, net⟩).isSome = true := by
    rw [step_isSome]
    rfl
  obtain ⟨⟨r, w⟩, hstep⟩ := Option.isSome_iff_exists.mp hdefined
  obtain ⟨code, hset, rfl⟩ := replyCode_eq_some hstep
  obtain ⟨x', hrun, hvalues, hr'⟩ := hr.apart hshort rfl hstep
  refine ⟨code, x', hrun, fun hsuccess => ?_, ?_, hr'⟩
  · have haccepts : accepts A uri = true := by
      have hcode := setEndpoint_code hset
      by_contra hno
      rw [if_neg hno] at hcode
      cases hsuccess.symm.trans hcode
    obtain ⟨-, path, hpath, hne⟩ := accepts_iff.mp haccepts
    rw [hvalues]
    show (phaseOf w).destined = true
    rw [phase_step _ _ _ _ hstep]
    show Phase.destined { phaseOf x.values.world with uri := some (A.uriParse uri).2 } =
      true
    unfold Phase.destined
    simp only [hpath]
    split
    · rw [Bool.not_eq_true']
      exact List.isEmpty_eq_false_iff.mpr hne
    · rfl
  · rw [hvalues]
    exact ⟨fun _ => .rfl, rfl⟩

/-- A connect that succeeds has made a connection. -/
theorem Ready.connect (hdestined : (phaseOf x.values.world).destined = true)
    (header : Option ConnectionHeader) :
    ∃ code x', programStep A x ⟨.call (.apart (.connect header)), net⟩ =
        some (⟨some code, none, none⟩, x') ∧
      (code = .success → (phaseOf x'.values.world).Open) ∧
      SameHandles x.values x'.values ∧ Ready x' (bound + net.arrivals.length) := by
  have hdefined : (step A x.values.world ⟨.connect header, net⟩).isSome = true := by
    rw [step_isSome]
    show ((phaseOf x.values.world).uri.isSome && true) = true
    rw [Bool.and_true]
    unfold Phase.destined at hdestined
    cases huri : (phaseOf x.values.world).uri with
    | none => rw [huri] at hdestined; cases hdestined
    | some uri => rfl
  obtain ⟨⟨r, w⟩, hstep⟩ := Option.isSome_iff_exists.mp hdefined
  obtain ⟨code, hconnect, rfl⟩ := replyCode_eq_some hstep
  obtain ⟨x', hrun, hvalues, hr'⟩ := hr.apart hshort rfl hstep
  refine ⟨code, x', hrun, fun hsuccess => ?_, ?_, hr'⟩
  · rw [hvalues]
    show (phaseOf w).Open
    refine ⟨?_, ?_⟩
    · rw [phase_step _ _ _ _ hstep]
      exact hdestined
    · subst hsuccess
      show w.messenger.connection.isSome = true
      cases connectRun_of_connect hconnect with
      | confirmed _ _ hread =>
          cases hread with
          | frame => rfl
  · rw [hvalues]
    exact ⟨fun _ => .rfl, rfl⟩

end Opening

/-- No wait for a receipt is answered by a frame that is none and has a body without an
end. -/
def Outline.wellAnswered (p : Outline) (A : Apr) (options : UInt32) (env : Nat → Net) :
    Bool :=
  match Memory.stompMessengerInit ⟨true, true, true, true, true, true⟩
      Memory.Machine.start with
  | none => true
  | some (messenger, machine) =>
      let x := Program.start options machine messenger
      ExamplePrograms.wellAnswered A env 0 p.before x &&
        match checked A env 0 p.before x with
        | some (true, x) =>
            let n := p.before.length
            match programStep A x ⟨.call .messageCreate, env n⟩ with
            | some (_, x) => ExamplePrograms.wellAnswered A env (n + 1) p.after x
            | none => true
        | _ => true

/-- The subscription of `server.c` is refused with a body that has no end. -/
def refusal : List (Nat × Bytes) :=
  [(1, ascii "CONNECTED\n\n"), (2, ascii "ERROR\ncontent-length:2\n\nno")]

end LibStomp.Session.ExamplePrograms
