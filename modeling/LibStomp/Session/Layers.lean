import LibStomp.Session.ConnectionCalls
import LibStomp.Session.Unread
import LibStomp.Verified.Coupling

/-!
# The messenger as an application of the low-level functions

`stomp_messenger.c` is written over `stomp_engine.c` and `stomp_io.c`, and to these it
is an application like any other: it has one variable for a connection, a pool for it,
and a pool with each message.  Its model knows a connection by its socket alone; here
each operation is taken apart into the calls it makes below, on connection objects in
memory.

An operation has a script of such calls.  It makes them in order and stops at the
first one that fails, and what it replies is decided by the last reply it got.

## Main results

* `obeys_step` — what one operation does below.
* `messenger_obeys` — every run of a messenger is a run of the low-level functions by
  the scripts of its operations, and destroying the pool gives everything back.
-/

namespace LibStomp.Session.Layers

open LibStomp.Model
open LibStomp.Model.Connections
open LibStomp.Verified.Allocation
open LibStomp.Verified.Runs
open LibStomp.Verified.Coupling
open LibStomp.Session.Steps
open LibStomp.Session.Connections (Sound Exchanged ClientLog ioOf connected)

/-! ## Scripts -/

/-- Wait for a frame and read it. -/
def answer (pool : Nat) : List (EngineOp Unit) := [.canRead (), .read () pool]

/-- The pool an operation writes its frame with: that of the message it sends, if it
sends one.  The messenger has the first pool. -/
def poolOf (messagePool : Nat) : Op → Nat
  | .send _ _ => messagePool
  | _ => 0

/-- The low-level calls of an operation, on a message with this pool if it is about one.
What setting the timeout reports is not looked at. -/
def script (messagePool : Nat) (timeout : Option AprError) (m : Messenger) (op : Op) :
    List (EngineOp Unit) :=
  match request m op with
  | some q =>
      .write () q.frame (poolOf messagePool op) ::
        match q.receipt.filter (0 < ·) with
        | some _ => answer 0
        | none => []
  | none =>
      match op with
      | .connect header =>
          .connect () (m.uri.bind (·.hostname)) 0 :: .setTimeout () timeout ::
            .write () (connectFrame header) 0 :: answer 0
      | .receive _ => answer messagePool
      | _ => []

/-- The operation goes on after this reply. -/
def GoesOn : EngineOp Unit → EngineReply → Prop
  | .setTimeout _ _, _ => True
  | _, .done => True
  | _, .status rc => rc = none
  | _, .ready b => b = true
  | _, .frame (.ok _) => True
  | _, .frame (.error _) => False

/-- The calls of a script are made one after the other, up to the first that fails.  The
last index is the last reply. -/
inductive Obeys : List (EngineOp Unit) → ClientLog Unit → EngineReply → Prop
  | last (e : Event (Client Unit) (EngineCall Unit) EngineReply) :
      Obeys [e.call.op] [e] e.reply
  | fails {e : Event (Client Unit) (EngineCall Unit) EngineReply}
      (ops : List (EngineOp Unit)) (h : ¬ GoesOn e.call.op e.reply) :
      Obeys (e.call.op :: ops) [e] e.reply
  | next {e : Event (Client Unit) (EngineCall Unit) EngineReply}
      {ops : List (EngineOp Unit)} {part : ClientLog Unit} {r : EngineReply}
      (h : GoesOn e.call.op e.reply) (rest : Obeys ops part r) :
      Obeys (e.call.op :: ops) (e :: part) r

/-- The code for an awaited frame. -/
def codeFor (word : CString) (frame : Frame) : StatusCode :=
  if frame.command.startsWith word then .success else .failure

/-- The code after the last reply, where the frame `word` is awaited or none is. -/
def codeAfter (word : CString) : EngineReply → StatusCode
  | .frame (.ok frame) => codeFor word frame
  | .status none => .success
  | _ => .failure

/-- What an operation replies after the last reply from below. -/
def verdict : Op → EngineReply → Reply
  | .receive message, .frame (.ok frame) =>
      ⟨some (codeFor (.lit "MESSAGE") frame), some (messageOf message frame)⟩
  | .receive message, .frame (.error rc) =>
      ⟨some (if rc = .timeup then .success else .failure), some message⟩
  | .receive message, _ => ⟨some .successNoData, some message⟩
  | .connect _, r => ⟨some (codeAfter (.lit "CONNECTED") r), none⟩
  | _, r => ⟨some (codeAfter (.lit "RECEIPT") r), none⟩

/-- What an operation does below: nothing, or its script as far as it comes, with the
reply this leads to. -/
def Performed (messagePool : Nat) (timeout : Option AprError)
    (e : Event World Call Reply) (part : ClientLog Unit) : Prop :=
  (script messagePool timeout e.pre.messenger e.call.op = [] ∧ part = []) ∨
    ∃ r, Obeys (script messagePool timeout e.pre.messenger e.call.op) part r ∧
      e.reply = verdict e.call.op r

/-! ## The state of the messenger below -/

/-- The records are the same, the first pool and those of `n` messages are there, what
there is is in the first, and the variable leads to the connection of the messenger,
with whatever has arrived since the last call. -/
structure Layered (n : Nat) (w : World) (c : Client Unit) : Prop where
  sound : Sound c
  pools : ∀ pool ≤ n, pool ∈ c.pools
  within : ∀ a b, c.heap.get a = some b → b.pool = 0
  engine : c.engine = w.engine
  ioError : c.ioError = w.ioError
  apart : w.messenger.connection = none → c.vars () = .wild
  joined : ∀ socket, w.messenger.connection = some socket →
    ∃ route net, follow (c.vars ()) c.heap = some route ∧
      socket = arrive net route.content

variable {n : Nat} {w w' : World} {c c' : Client Unit} {A : Apr}

/-- What the relation looks at. -/
theorem Layered.congr (h : Layered n w c) (hengine : w'.engine = w.engine)
    (hioError : w'.ioError = w.ioError)
    (hconnection : w'.messenger.connection = w.messenger.connection) :
    Layered n w' c where
  sound := h.sound
  pools := h.pools
  within := h.within
  engine := h.engine.trans hengine.symm
  ioError := h.ioError.trans hioError.symm
  apart hnone := h.apart (hconnection ▸ hnone)
  joined socket hsocket := h.joined socket (hconnection ▸ hsocket)

/-- Nothing arrives, and the schedule is the one the socket has. -/
def stay (net : Net) (socket : Socket) : Net :=
  { net with
    arrivals := []
    recvs := socket.recvs
    sends := socket.sends
    waits := socket.waits
    atEnd := socket.atEnd }

theorem arrive_stay (net : Net) (socket : Socket) :
    arrive (stay net socket) socket = socket := by
  obtain ⟨descriptor, inbox, outbox, recvs, sends, waits, atEnd⟩ := socket
  unfold arrive stay
  simp

theorem loadSocket_arrive (net net' : Net) (socket : Socket) :
    loadSocket net' (arrive net socket) =
      arrive { net' with arrivals := net.arrivals ++ net'.arrivals } socket := by
  unfold loadSocket arrive
  simp

theorem Layered.load (h : Layered n w c) (net : Net) :
    Layered n (w.load net) c where
  sound := h.sound
  pools := h.pools
  within := h.within
  engine := h.engine
  ioError := h.ioError
  apart hnone := by
    rw [load_connection, Option.map_eq_none_iff] at hnone
    exact h.apart hnone
  joined socket hsocket := by
    rw [load_connection] at hsocket
    obtain ⟨socket₀, hsocket₀, rfl⟩ := Option.map_eq_some_iff.mp hsocket
    obtain ⟨route, net₀, hfollow, rfl⟩ := h.joined socket₀ hsocket₀
    exact ⟨route, _, hfollow, loadSocket_arrive net₀ net route.content⟩

/-! ## One call below -/

theorem onSocket_of_follow {V α : Type} [DecidableEq V] {c : Client V} {v : V}
    {route : Route} (net : Net) (x : Io → α × Io)
    (hfollow : follow (c.vars v) c.heap = some route) :
    ∃ c', onSocket v net x c = some ((x (ioOf c net route)).1, c') ∧
      Exchanged c v net route (x (ioOf c net route)).2 c' := by
  have hsome := Connections.onSocket_isSome v net x c
  rw [hfollow] at hsome
  obtain ⟨⟨a, c'⟩, hrun⟩ := Option.isSome_iff_exists.mp hsome
  obtain ⟨route', io, hx, hexchanged⟩ := Connections.onSocket_eq_some hrun
  obtain rfl := Option.some.inj (hfollow.symm.trans hexchanged.follow)
  rw [hx]
  exact ⟨c', hrun, hexchanged⟩

/-- The variable leads to the same connection, whose socket has changed. -/
theorem follow_exchanged {V : Type} {c c' : Client V} {v : V} {net : Net}
    {route : Route} {io : Io} (hs : Sound c) (h : Exchanged c v net route io c') :
    follow (c'.vars v) c'.heap = some { route with content := io.socket } := by
  obtain ⟨hconnection, hsocket⟩ := hs.heap.socket_of_follow h.follow
  have hv : c'.vars v = .addr route.connection := by
    rw [h.rest]
    exact (Connections.follow_eq_some h.follow).1
  have hne : route.connection ≠ route.socket := by
    intro heq
    rw [heq, hsocket] at hconnection
    cases hconnection
  have hsocket' : c'.heap.get route.socket = some (.socket route.pool io.socket) := by
    rw [h.get, if_pos rfl]
  rw [hv]
  refine Connections.follow_of_get ?_ hsocket'
  rw [h.get, if_neg hne, hconnection]

/-- A function of `stomp_io.c` does the same below. -/
theorem Layered.exchange (h : Layered n w c) {socket : Socket}
    (hsocket : w.messenger.connection = some socket) (order : HashOrder)
    (endline : UInt8) :
    ∃ net : Net, net.order = order ∧
      (∃ route, follow (c.vars ()) c.heap = some route ∧
        ioOf c net route = w.toIo endline socket) ∧
      ∀ {α : Type} (x : Io → α × Io),
      ∃ c', onSocket () net x c = some ((x (w.toIo endline socket)).1, c') ∧
        Layered n (w.withIo (x (w.toIo endline socket)).2) c' := by
  obtain ⟨route, net, hfollow, rfl⟩ := h.joined socket hsocket
  have hio : ioOf c { net with order := order, endline := endline } route =
      w.toIo endline (arrive net route.content) := by
    unfold ioOf World.toIo
    rw [h.ioError]
    rfl
  refine ⟨{ net with order := order, endline := endline }, rfl, ⟨route, hfollow, hio⟩,
    fun x => ?_⟩
  obtain ⟨c', hrun, hexchanged⟩ :=
    onSocket_of_follow { net with order := order, endline := endline } x hfollow
  rw [hio] at hrun hexchanged
  refine ⟨c', hrun, ?_⟩
  have hrest := hexchanged.rest
  exact
    { sound := hexchanged.sound h.sound
      pools := by rw [hrest]; exact h.pools
      within := fun a b hb => by
        rw [hexchanged.get] at hb
        split at hb
        · obtain rfl := Option.some.inj hb
          exact h.within _ (.connection route.pool (.addr route.socket))
            (h.sound.heap.socket_of_follow hfollow).1
        · exact h.within a b hb
      engine := by rw [hrest]; exact h.engine
      ioError := by rw [hrest]; rfl
      apart := fun hnone => by cases hnone
      joined := fun socket' hsocket' => by
        obtain rfl := Option.some.inj hsocket'
        exact ⟨_, stay net _, follow_exchanged h.sound hexchanged,
          (arrive_stay net _).symm⟩ }

/-- The outcome of a function of `stomp_io.c`, as the messenger sees it. -/
theorem onConnection_outcome {α : Type} {endline : UInt8} {x : IoM α} {socket : Socket}
    {stat : Except AprError α} (hsocket : w.messenger.connection = some socket)
    (h : w.onConnection endline x = some (stat, w')) :
    (outcome x (w.toIo endline socket)).1 = stat ∧
      w.withIo (outcome x (w.toIo endline socket)).2 = w' := by
  obtain ⟨socket', hsocket', hcases⟩ := onConnection_eq_some h
  obtain rfl := Option.some.inj (hsocket.symm.trans hsocket')
  unfold outcome
  rcases hcases with ⟨a, io, hx, rfl, rfl⟩ | ⟨rc, io, hx, rfl, rfl⟩
  · rw [hx]
    exact ⟨rfl, rfl⟩
  · rw [hx]
    exact ⟨rfl, rfl⟩

/-- What one call below has done. -/
structure Called (A : Apr) (n : Nat) (c : Client Unit) (op : EngineOp Unit)
    (r : EngineReply) (w' : World)
    (e : Event (Client Unit) (EngineCall Unit) EngineReply) : Prop where
  pre : e.pre = c
  op : e.call.op = op
  reply : e.reply = r
  step : engineStep A e.pre e.call = some (e.reply, e.post)
  layered : Layered n w' e.post

theorem called_write (h : Layered n w c) {pool : Nat} (hpool : pool ≤ n) {net : Net}
    {frame : Frame} {stat : Except AprError Unit}
    (hwrite : w.write A net frame = some (stat, w')) :
    ∃ e, Called A n c (.write () frame pool) (written stat) w' e := by
  obtain ⟨socket, hsocket, hinside⟩ := Option.bind_eq_some_iff.mp hwrite
  obtain ⟨rfl, rfl⟩ := onConnection_outcome hsocket (write_eq_some hwrite)
  split at hinside
  case isFalse => cases hinside
  rename_i hstays
  obtain ⟨below, hbelow, ⟨route, hfollow, hio⟩, hcall⟩ :=
    h.exchange hsocket net.order net.endline
  obtain ⟨c', hrun, hlayered⟩ := hcall (outcome (Model.stompWrite A net.order frame))
  refine ⟨⟨c, ⟨.write () frame pool, below⟩, _, c'⟩, rfl, rfl, rfl, ?_, hlayered⟩
  show (Model.Connections.stompWrite A () frame pool below c).map _ = _
  rw [Model.Connections.stompWrite, hfollow, Option.bind_eq_bind, Option.bind_some]
  show (if staysInside A below.order frame (ioOf c below route) &&
    (decide (pool ∈ c.pools) || !makesPool A below.order frame (ioOf c below route))
      then onSocket () below (outcome (Model.stompWrite A below.order frame)) c
      else none).map _ = _
  rw [hio, hbelow, hstays, decide_eq_true (h.pools pool hpool)]
  exact congrArg (Option.map _) hrun

theorem called_read (h : Layered n w c) {pool : Nat} (hpool : pool ≤ n)
    {endline : UInt8} {stat : Except AprError Frame}
    (hread : w.onConnection endline (Model.stompRead A) = some (stat, w')) :
    ∃ e, Called A n c (.read () pool) (.frame stat) w' e := by
  obtain ⟨socket, hsocket, -⟩ := onConnection_eq_some hread
  obtain ⟨rfl, rfl⟩ := onConnection_outcome hsocket hread
  obtain ⟨net, -, -, hcall⟩ := h.exchange hsocket .stored endline
  obtain ⟨c', hrun, hlayered⟩ := hcall (outcome (Model.stompRead A))
  refine ⟨⟨c, ⟨.read () pool, net⟩, _, c'⟩, rfl, rfl, rfl, ?_, hlayered⟩
  show (Model.Connections.stompRead A () pool net c).map _ = _
  rw [Model.Connections.stompRead, if_pos (h.pools pool hpool), hrun]
  rfl

theorem called_canRead (h : Layered n w c) {endline : UInt8} {ready : Bool}
    (hwait : w.canRead endline = some (ready, w')) :
    ∃ e, Called A n c (.canRead ()) (.ready ready) w' e := by
  unfold World.canRead at hwait
  cases hsocket : w.messenger.connection with
  | none => rw [hsocket] at hwait; cases hwait
  | some socket =>
      rw [hsocket] at hwait
      obtain ⟨rfl, rfl⟩ := Prod.mk.inj (Option.some.inj hwait)
      obtain ⟨net, -, -, hcall⟩ := h.exchange hsocket .stored endline
      obtain ⟨c', hrun, hlayered⟩ := hcall stompIoCanRead
      refine ⟨⟨c, ⟨.canRead (), net⟩, _, c'⟩, rfl, rfl, rfl, ?_, hlayered⟩
      show (onSocket () net stompIoCanRead c).map _ = _
      rw [hrun]
      rfl

/-! ## Several calls below -/

/-- The script leads to this reply and to the state of `w'`. -/
def Does (A : Apr) (n : Nat) (c : Client Unit) (ops : List (EngineOp Unit))
    (r : EngineReply) (w' : World) : Prop :=
  ∃ part c', Run (engineStep A) c part c' ∧ Obeys ops part r ∧ Layered n w' c'

section Does

variable {op : EngineOp Unit} {ops : List (EngineOp Unit)} {r r' : EngineReply}
variable {w'' : World} {e : Event (Client Unit) (EngineCall Unit) EngineReply}

theorem Called.run (h : Called A n c op r w' e) : Run (engineStep A) c [e] e.post := by
  obtain ⟨rfl, -, -, hstep, -⟩ := h
  exact .single hstep

theorem Called.last (h : Called A n c op r w' e) : Does A n c [op] r w' := by
  refine ⟨[e], e.post, h.run, ?_, h.layered⟩
  rw [← h.op, ← h.reply]
  exact .last e

theorem Called.fails (h : Called A n c op r w' e) (ops : List (EngineOp Unit))
    (hno : ¬ GoesOn op r) : Does A n c (op :: ops) r w' := by
  refine ⟨[e], e.post, h.run, ?_, h.layered⟩
  rw [← h.op, ← h.reply] at hno ⊢
  exact .fails ops hno

theorem Called.next (h : Called A n c op r w' e) (hgoes : GoesOn op r)
    (hrest : Does A n e.post ops r' w'') : Does A n c (op :: ops) r' w'' := by
  obtain ⟨part, c', hrun, hobeys, hlayered⟩ := hrest
  refine ⟨e :: part, c', h.run.append hrun, ?_, hlayered⟩
  rw [← h.op]
  rw [← h.op, ← h.reply] at hgoes
  exact .next hgoes hobeys

theorem Does.congr (h : Does A n c ops r w') (hengine : w''.engine = w'.engine)
    (hioError : w''.ioError = w'.ioError)
    (hconnection : w''.messenger.connection = w'.messenger.connection) :
    Does A n c ops r w'' := by
  obtain ⟨part, c', hrun, hobeys, hlayered⟩ := h
  exact ⟨part, c', hrun, hobeys, hlayered.congr hengine hioError hconnection⟩

theorem Does.setStatus (h : Does A n c ops r w') (code : StatusCode)
    (text : CString) : Does A n c ops r (w'.setStatus code text) :=
  h.congr rfl rfl rfl

end Does

/-! ## The operations -/

/-- A reading as the last reply. -/
def heard : Reading → EngineReply
  | .notReady => .ready false
  | .failed rc => .frame (.error rc)
  | .frame frame => .frame (.ok frame)

theorem does_readFrame (h : Layered n w c) {pool : Nat} (hpool : pool ≤ n)
    {endline : UInt8} {reading : Reading}
    (hread : w.readFrame A endline = some (reading, w')) :
    Does A n c (answer pool) (heard reading) w' := by
  obtain ⟨⟨ready, w₁⟩, hwait, hrest⟩ := Option.bind_eq_some_iff.mp hread
  obtain ⟨e, he⟩ := called_canRead (A := A) h hwait
  cases ready with
  | false =>
      obtain ⟨rfl, rfl⟩ := Prod.mk.inj (Option.some.inj hrest)
      exact he.fails _ Bool.false_ne_true
  | true =>
      obtain ⟨⟨stat, w₂⟩, hstat, hreading⟩ := Option.bind_eq_some_iff.mp hrest
      obtain ⟨e', he'⟩ := called_read he.layered hpool hstat
      refine he.next rfl ?_
      cases stat with
      | error rc =>
          obtain ⟨rfl, rfl⟩ := Prod.mk.inj (Option.some.inj hreading)
          exact he'.last
      | ok frame =>
          obtain ⟨rfl, rfl⟩ := Prod.mk.inj (Option.some.inj hreading)
          exact he'.last

theorem does_processReceipt (h : Layered n w c) {net : Net} {code : StatusCode}
    (hwait : stompProcessReceipt A net w = some (code, w')) :
    ∃ r, Does A n c (answer 0) r w' ∧ code = codeAfter (.lit "RECEIPT") r := by
  obtain ⟨⟨reading, w₁⟩, hread, hrest⟩ := Option.bind_eq_some_iff.mp hwait
  have hdoes := does_readFrame h (Nat.zero_le n) hread
  refine ⟨heard reading, ?_⟩
  cases reading with
  | notReady =>
      obtain ⟨rfl, rfl⟩ := Prod.mk.inj (Option.some.inj hrest)
      exact ⟨hdoes.setStatus _ _, rfl⟩
  | failed rc =>
      obtain ⟨rfl, rfl⟩ := Prod.mk.inj (Option.some.inj hrest)
      exact ⟨hdoes.setStatus _ _, rfl⟩
  | frame frame =>
      show _ ∧ code = codeFor _ frame
      unfold codeFor
      simp only [] at hrest
      cases hword : frame.command.startsWith (.lit "RECEIPT") with
      | true =>
          rw [hword] at hrest
          obtain ⟨rfl, rfl⟩ := Prod.mk.inj (Option.some.inj hrest)
          exact ⟨hdoes, rfl⟩
      | false =>
          rw [hword] at hrest
          obtain ⟨text, -, hsome⟩ := Option.bind_eq_some_iff.mp hrest
          obtain ⟨rfl, rfl⟩ := Prod.mk.inj (Option.some.inj hsome)
          exact ⟨hdoes.setStatus _ _, rfl⟩

theorem does_transact (h : Layered n w c) {pool : Nat} (hpool : pool ≤ n) {net : Net}
    {q : Request} {code : StatusCode}
    (hrun : transact A net q.note q.frame q.receipt w = some (code, w')) :
    ∃ r, Does A n c (.write () q.frame pool ::
        match q.receipt.filter (0 < ·) with
        | some _ => answer 0
        | none => []) r w' ∧
      code = codeAfter (.lit "RECEIPT") r := by
  obtain ⟨⟨stat, w₁⟩, hwrite, hrest⟩ := Option.bind_eq_some_iff.mp hrun
  obtain ⟨e, he⟩ := called_write h hpool hwrite
  cases stat with
  | error rc =>
      obtain ⟨rfl, rfl⟩ := Prod.mk.inj (Option.some.inj hrest)
      refine ⟨.status (some rc), ?_, rfl⟩
      exact (he.fails _ (Option.some_ne_none rc)).setStatus _ _
  | ok _ =>
      simp only [] at hrest
      cases hreceipt : q.receipt with
      | none =>
          rw [hreceipt] at hrest
          obtain ⟨rfl, rfl⟩ := Prod.mk.inj (Option.some.inj hrest)
          exact ⟨.status none, he.last, rfl⟩
      | some receipt =>
          rw [hreceipt] at hrest
          simp only [] at hrest
          by_cases hpos : 0 < receipt
          · rw [if_pos hpos] at hrest
            obtain ⟨r, hdoes, hcode⟩ := does_processReceipt he.layered hrest
            refine ⟨r, ?_, hcode⟩
            rw [Option.filter_some_pos (by simpa using hpos)]
            exact he.next rfl hdoes
          · rw [if_neg hpos] at hrest
            obtain ⟨rfl, rfl⟩ := Prod.mk.inj (Option.some.inj hrest)
            rw [Option.filter_some_neg (by simpa using hpos)]
            exact ⟨.status none, he.last, rfl⟩

theorem does_receive (h : Layered n w c) {pool : Nat} (hpool : pool ≤ n) {net : Net}
    {message message' : Message} {code : StatusCode}
    (hrun : stompReceive A net message w = some (code, message', w')) :
    ∃ r, Does A n c (answer pool) r w' ∧
      ⟨some code, some message'⟩ = verdict (.receive message) r := by
  obtain ⟨⟨reading, w₁⟩, hread, -⟩ := Option.bind_eq_some_iff.mp hrun
  have hdoes := does_readFrame h hpool hread
  have hrest := hrun
  rw [stompReceive, hread, Option.bind_eq_bind, Option.bind_some] at hrest
  refine ⟨heard reading, ?_⟩
  cases reading with
  | notReady =>
      obtain ⟨rfl, hpair⟩ := Prod.mk.inj (Option.some.inj hrest)
      obtain ⟨rfl, rfl⟩ := Prod.mk.inj hpair
      exact ⟨hdoes.setStatus _ _, rfl⟩
  | failed rc =>
      by_cases hrc : rc = .timeup
      · subst hrc
        obtain ⟨rfl, hpair⟩ := Prod.mk.inj (Option.some.inj hrest)
        obtain ⟨rfl, rfl⟩ := Prod.mk.inj hpair
        exact ⟨hdoes, rfl⟩
      · have hfailed : some (StatusCode.failure, message, w₁.setStatus .failure
            (.lit "Unable to read the frame data from the underlying connection: " ++
              formatArg w₁.ioError.message)) = some (code, message', w') := by
          cases rc <;> first | exact hrest | exact absurd rfl hrc
        obtain ⟨rfl, hpair⟩ := Prod.mk.inj (Option.some.inj hfailed)
        obtain ⟨rfl, rfl⟩ := Prod.mk.inj hpair
        refine ⟨hdoes.setStatus _ _, ?_⟩
        show _ = (⟨some (if rc = .timeup then .success else .failure), _⟩ : Reply)
        rw [if_neg hrc]
  | frame frame =>
      have hmerged : Does A n c (answer pool) (heard (.frame frame)) (merge frame w₁) :=
        hdoes.congr rfl rfl rfl
      show _ ∧ _ = (⟨some (codeFor (.lit "MESSAGE") frame),
        some (messageOf message frame)⟩ : Reply)
      unfold codeFor
      simp only [] at hrest
      cases hword : frame.command.startsWith (.lit "MESSAGE") with
      | true =>
          rw [hword] at hrest
          obtain ⟨rfl, hpair⟩ := Prod.mk.inj (Option.some.inj hrest)
          obtain ⟨rfl, rfl⟩ := Prod.mk.inj hpair
          exact ⟨hmerged, rfl⟩
      | false =>
          rw [hword] at hrest
          obtain ⟨rfl, hpair⟩ := Prod.mk.inj (Option.some.inj hrest)
          obtain ⟨rfl, rfl⟩ := Prod.mk.inj hpair
          exact ⟨hmerged, rfl⟩

/-- A pointer leads where it led if nothing has been freed or changed. -/
theorem follow_mono {h h' : Heap Cell} (hkept : ∀ a b, h.get a = some b →
    h'.get a = some b) {p : Memory.Ptr} {route : Route}
    (hfollow : follow p h = some route) : follow p h' = some route := by
  obtain ⟨rfl, hconnection, pool, hsocket⟩ := Connections.follow_eq_some hfollow
  exact Connections.follow_of_get (hkept _ _ hconnection) (hkept _ _ hsocket)

theorem kept_alloc (h : Heap Cell) (b : Cell) :
    ∀ a l, h.get a = some l → (h.alloc b).get a = some l := by
  intro a l hl
  rw [Heap.get_alloc, if_neg (Nat.ne_of_lt (Heap.lt_next hl)), hl]

/-- The new object is in the first pool, too. -/
theorem within_alloc {h : Heap Cell} {b : Cell}
    (hwithin : ∀ a b, h.get a = some b → b.pool = 0) (hb : b.pool = 0) :
    ∀ a b', (h.alloc b).get a = some b' → b'.pool = 0 := by
  intro a b' hget
  rw [Heap.get_alloc] at hget
  split at hget
  · obtain rfl := Option.some.inj hget
    exact hb
  · exact hwithin a b' hget

/-- A connect that fails leaves the variable as it is. -/
theorem called_connect_error (h : Layered n w c) {net : Net}
    {hostname : Option CString} {rc : AprError} {engine : Engine}
    (hengine : Model.stompEngineConnect A net.plan hostname w.engine =
      .error rc engine) :
    ∃ e, Called A n c (.connect () hostname 0) (.status (some rc))
      { w with engine := engine } e := by
  have hpool : 0 ∈ c.pools := h.pools 0 (Nat.zero_le n)
  rw [← h.engine] at hengine
  -- the heap has grown, by one object or by two
  obtain ⟨heap, hstep, hkept, hwithin⟩ : ∃ heap,
      engineStep A c ⟨.connect () hostname 0, net⟩ =
        some (.status (some rc), { c with heap := heap, engine := engine }) ∧
      (∀ a b, c.heap.get a = some b → heap.get a = some b) ∧
      ∀ a b, heap.get a = some b → b.pool = 0 := by
    show ∃ heap, (stompEngineConnect A () hostname 0 net c).map _ = _ ∧ _
    unfold Connections.stompEngineConnect
    rw [if_neg (not_not.mpr hpool)]
    simp only [hengine]
    by_cases hcount : engine.sockets.length = c.engine.sockets.length
    · rw [if_pos hcount]
      exact ⟨_, rfl, kept_alloc _ _, within_alloc h.within rfl⟩
    · rw [if_neg hcount]
      exact ⟨_, rfl, fun a b hb => kept_alloc _ _ a b (kept_alloc _ _ a b hb),
        within_alloc (within_alloc h.within rfl) rfl⟩
  exact ⟨⟨c, ⟨.connect () hostname 0, net⟩, _, _⟩, rfl, rfl, rfl, hstep,
    { sound := Connections.sound_step h.sound hstep
      pools := h.pools
      within := hwithin
      engine := rfl
      ioError := h.ioError
      apart := h.apart
      joined := fun socket hsocket => by
        obtain ⟨route, net₀, hfollow, hsocket⟩ := h.joined socket hsocket
        exact ⟨route, net₀, follow_mono hkept hfollow, hsocket⟩ }⟩

/-- A connect that succeeds sets it, whatever it was. -/
theorem called_connect_ok (h : Layered n w c) {net : Net}
    {hostname : Option CString} {descriptor : Nat} {engine : Engine}
    (hengine : Model.stompEngineConnect A net.plan hostname w.engine =
      .ok descriptor engine) :
    ∃ e, Called A n c (.connect () hostname 0) (.status none)
      { w with
        engine := engine
        messenger :=
          { w.messenger with connection := some (net.socket descriptor) } } e := by
  have hpool : 0 ∈ c.pools := h.pools 0 (Nat.zero_le n)
  rw [← h.engine] at hengine
  have hstep : engineStep A c ⟨.connect () hostname 0, net⟩ =
      some (.status none, { c with
        heap := connected c.heap 0 (net.socket descriptor)
        engine := engine
        vars := Function.update c.vars () (.addr c.heap.next) }) := by
    show (stompEngineConnect A () hostname 0 net c).map _ = _
    unfold Connections.stompEngineConnect
    rw [if_neg (not_not.mpr hpool)]
    simp only [hengine]
    rfl
  refine ⟨⟨c, ⟨.connect () hostname 0, net⟩, _, _⟩, rfl, rfl, rfl, hstep,
    { sound := Connections.sound_step h.sound hstep
      pools := h.pools
      within := within_alloc (within_alloc h.within rfl) rfl
      engine := rfl
      ioError := h.ioError
      apart := fun hnone => by cases hnone
      joined := fun socket hsocket => ?_ }⟩
  obtain rfl := Option.some.inj hsocket
  refine ⟨⟨c.heap.next, 0, c.heap.next + 1, net.socket descriptor⟩, stay net _, ?_,
    (arrive_stay net _).symm⟩
  show follow (Function.update c.vars () (.addr c.heap.next) ()) _ = _
  have hsocket : (connected c.heap 0 (net.socket descriptor)).get (c.heap.next + 1) =
      some (.socket 0 (net.socket descriptor)) := by
    rw [Connections.get_connected, if_pos rfl]
  rw [Function.update_self]
  refine Connections.follow_of_get ?_ hsocket
  rw [Connections.get_connected, if_neg (Nat.ne_of_lt (Nat.lt_succ_self _)), if_pos rfl]

theorem called_setTimeout (h : Layered n w c) (timeout : Option AprError)
    {socket : Socket} (hsocket : w.messenger.connection = some socket) (net : Net) :
    ∃ e, Called A n c (.setTimeout () timeout) (.status timeout) w e := by
  obtain ⟨route, net₀, hfollow, -⟩ := h.joined socket hsocket
  refine ⟨⟨c, ⟨.setTimeout () timeout, net⟩, _, c⟩, rfl, rfl, rfl, ?_, h⟩
  show ((follow (c.vars ()) c.heap).map _).map _ = _
  rw [hfollow]
  rfl

theorem does_connect (h : Layered n w c) (timeout : Option AprError) {net : Net}
    {header : Option ConnectionHeader} {code : StatusCode}
    (hrun : stompConnect A net header w = some (code, w')) :
    ∃ r, Does A n c (.connect () (w.messenger.uri.bind (·.hostname)) 0 ::
        .setTimeout () timeout :: .write () (connectFrame header) 0 :: answer 0) r w' ∧
      code = codeAfter (.lit "CONNECTED") r := by
  obtain ⟨uri, huri, hrest⟩ := Option.bind_eq_some_iff.mp hrun
  rw [huri, Option.bind_some]
  cases hengine : Model.stompEngineConnect A net.plan uri.hostname w.engine with
  | error rc engine =>
      rw [hengine] at hrest
      obtain ⟨rfl, rfl⟩ := Prod.mk.inj (Option.some.inj hrest)
      obtain ⟨e, he⟩ := called_connect_error h hengine
      refine ⟨.status (some rc), ?_, rfl⟩
      exact (he.fails _ (Option.some_ne_none rc)).setStatus _ _
  | ok descriptor engine =>
      rw [hengine] at hrest
      obtain ⟨e₁, he₁⟩ := called_connect_ok h hengine
      obtain ⟨e₂, he₂⟩ := called_setTimeout (A := A) he₁.layered timeout rfl net
      obtain ⟨⟨stat, w₁⟩, hwrite, hrest⟩ := Option.bind_eq_some_iff.mp hrest
      obtain ⟨e₃, he₃⟩ := called_write he₂.layered (Nat.zero_le n) hwrite
      have hnext : ∀ {r w'}, Does A n e₂.post
          (.write () (connectFrame header) 0 :: answer 0) r w' →
          Does A n c (.connect () uri.hostname 0 :: .setTimeout () timeout ::
            .write () (connectFrame header) 0 :: answer 0) r w' :=
        fun hdoes => he₁.next rfl (he₂.next trivial hdoes)
      cases stat with
      | error rc =>
          obtain ⟨rfl, rfl⟩ := Prod.mk.inj (Option.some.inj hrest)
          refine ⟨.status (some rc), hnext ?_, rfl⟩
          exact (he₃.fails _ (Option.some_ne_none rc)).setStatus _ _
      | ok _ =>
          obtain ⟨⟨reading, w₂⟩, hread, hrest⟩ := Option.bind_eq_some_iff.mp hrest
          have hdoes := hnext
            (he₃.next rfl (does_readFrame he₃.layered (Nat.zero_le n) hread))
          refine ⟨heard reading, ?_⟩
          cases reading with
          | notReady =>
              obtain ⟨rfl, rfl⟩ := Prod.mk.inj (Option.some.inj hrest)
              exact ⟨hdoes.setStatus _ _, rfl⟩
          | failed rc =>
              obtain ⟨rfl, rfl⟩ := Prod.mk.inj (Option.some.inj hrest)
              exact ⟨hdoes.setStatus _ _, rfl⟩
          | frame frame =>
              show _ ∧ code = codeFor _ frame
              unfold codeFor
              simp only [] at hrest
              cases hword : frame.command.startsWith (.lit "CONNECTED") with
              | true =>
                  rw [hword] at hrest
                  obtain ⟨rfl, rfl⟩ := Prod.mk.inj (Option.some.inj hrest)
                  exact ⟨hdoes, rfl⟩
              | false =>
                  rw [hword] at hrest
                  obtain ⟨rfl, rfl⟩ := Prod.mk.inj (Option.some.inj hrest)
                  exact ⟨hdoes.setStatus _ _, rfl⟩

/-- The reply of a writing operation. -/
theorem verdict_request {m : Messenger} {op : Op} {q : Request}
    (h : request m op = some q) (r : EngineReply) :
    verdict op r = ⟨some (codeAfter (.lit "RECEIPT") r), none⟩ := by
  cases op <;> first | rfl | cases h

theorem poolOf_le {messagePool : Nat} (h : messagePool ≤ n) (op : Op) :
    poolOf messagePool op ≤ n := by
  unfold poolOf
  split
  · exact h
  · exact Nat.zero_le n

/-- **One operation.** -/
theorem obeys_step (timeout : Option AprError) (e : Event World Call Reply)
    {messagePool : Nat} (hpool : messagePool ≤ n)
    (hstep : step A e.pre e.call = some (e.reply, e.post)) (c : Client Unit)
    (h : Layered n e.pre c) :
    ∃ part c', Run (engineStep A) c part c' ∧ Performed messagePool timeout e part ∧
      Layered n e.post c' := by
  obtain ⟨pre, ⟨op, net⟩, reply, post⟩ := e
  have hloaded := h.load net
  -- an operation with a script
  have hperform : ∀ {ops r}, script messagePool timeout pre.messenger op = ops →
      Does A n c ops r post → reply = verdict op r →
        ∃ part c', Run (engineStep A) c part c' ∧
          Performed messagePool timeout ⟨pre, ⟨op, net⟩, reply, post⟩ part ∧
          Layered n post c' := by
    rintro ops r rfl ⟨part, c', hrun, hobeys, hlayered⟩ hreply
    exact ⟨part, c', hrun, .inr ⟨r, hobeys, hreply⟩, hlayered⟩
  -- an operation without one
  have hidle : script messagePool timeout pre.messenger op = [] → Layered n post c →
      ∃ part c', Run (engineStep A) c part c' ∧
        Performed messagePool timeout ⟨pre, ⟨op, net⟩, reply, post⟩ part ∧
        Layered n post c' :=
    fun hscript hlayered => ⟨[], c, .nil c, .inl ⟨hscript, rfl⟩, hlayered⟩
  have hstepped : Steps.Stepped A net pre op reply post := Steps.stepped_of_step hstep
  cases hstepped with
  | request hrequest hrun =>
      obtain ⟨r, hdoes, rfl⟩ := does_transact hloaded (poolOf_le hpool op) hrun
      refine hperform ?_ hdoes (verdict_request hrequest r).symm
      simp only [script, hrequest]
  | connect hrun =>
      obtain ⟨r, hdoes, rfl⟩ := does_connect h timeout hrun
      exact hperform rfl hdoes rfl
  | receive hrun =>
      obtain ⟨r, hdoes, hreply⟩ := does_receive hloaded hpool hrun
      exact hperform rfl hdoes hreply
  | setEndpoint hrun =>
      obtain ⟨st, rfl, -⟩ := setEndpoint_cases hrun
      exact hidle rfl (hloaded.congr rfl rfl rfl)
  | noHeader => exact hidle rfl (hloaded.congr rfl rfl rfl)
  | exchangeAdd => exact hidle rfl (hloaded.congr rfl rfl rfl)
  | exchangeClear => exact hidle rfl (hloaded.congr rfl rfl rfl)

/-! ## Runs -/

/-- Creating pools. -/
theorem run_poolCreate (A : Apr) (k : Nat) : ∃ log c,
    log.map (·.call.op) = List.replicate k .poolCreate ∧
      Run (engineStep A) (Client.start Unit) log c ∧
      c.pools = (List.range k).reverse ∧
      c = { Client.start Unit with pools := c.pools, nextPool := k } := by
  induction k with
  | zero => exact ⟨[], _, rfl, .nil _, rfl, rfl⟩
  | succ k ih =>
      obtain ⟨log, c, hops, hrun, hpools, hc⟩ := ih
      refine ⟨log ++ [⟨c, ⟨.poolCreate, .quiet []⟩, .done, aprPoolCreate c⟩], _, ?_,
        hrun.append (.single rfl), ?_, ?_⟩
      · rw [List.map_append, hops, List.replicate_succ']
        rfl
      · show c.nextPool :: c.pools = _
        rw [hpools, hc, List.range_succ, List.reverse_append]
        rfl
      · rw [hc]
        rfl

/-- The pools are there, and nothing is in them. -/
theorem layered_init (options : UInt32) {c : Client Unit}
    (hpools : c.pools = (List.range (n + 1)).reverse)
    (hc : c = { Client.start Unit with pools := c.pools, nextPool := n + 1 }) :
    Layered n (stompMessengerInit options) c where
  sound := by
    rw [hc]
    exact ⟨(Connections.sound_start Unit).heap, fun hb => by cases hb⟩
  pools pool hpool := by
    rw [hpools, List.mem_reverse, List.mem_range]
    exact Nat.lt_succ_of_le hpool
  within a b hb := by
    rw [hc] at hb
    cases hb
  engine := by rw [hc]; rfl
  ioError := by rw [hc]; rfl
  apart _ := by rw [hc]; rfl
  joined _ hsocket := by cases hsocket

/-- With the pool of the messenger goes all there is. -/
theorem Layered.destroy (h : Layered n w c) (net : Net) :
    ∃ c', engineStep A c ⟨.poolDestroy 0, net⟩ = some (.done, c') ∧
      ∀ a, c'.heap.get a = none := by
  refine ⟨{ c with
    heap := c.heap.sweep (·.pool = 0)
    pools := c.pools.filter (· ≠ 0) }, ?_, fun a => ?_⟩
  · show (aprPoolDestroy 0 c).map _ = _
    rw [aprPoolDestroy, if_pos (h.pools 0 (Nat.zero_le n))]
    rfl
  · show (c.heap.sweep (·.pool = 0)).get a = none
    rw [Heap.get_sweep, Option.filter_eq_none_iff]
    intro b hb
    simp [h.within a b hb]

/-- **The messenger keeps to the scripts.**  Every run of a messenger is a run of the
low-level functions, by an application with one variable, a pool for the connections
and pools for the messages, whichever of these the message of each operation has:
each operation makes the calls of its script, in order and up to the first that
fails, and replies what the last of them decides.  The sockets and the records are
the same at the end, and destroying the first pool then leaves no connection and no
socket. -/
theorem messenger_obeys (A : Apr) (options : UInt32) (timeout : Option AprError)
    {n : Nat} (messagePool : Event World Call Reply → Nat)
    (hpools : ∀ e, messagePool e ≤ n) {w' : World} {log : Log}
    (h : Run (step A) (stompMessengerInit options) log w') :
    ∃ created parts c, created.map (·.call.op) = List.replicate (n + 1) .poolCreate ∧
      Run (engineStep A) (Client.start Unit) (created ++ parts.flatten) c ∧
      List.Forall₂ (fun e => Performed (messagePool e) timeout e) log parts ∧
      Layered n w' c ∧
      ∀ net, ∃ c', engineStep A c ⟨.poolDestroy 0, net⟩ = some (.done, c') ∧
        ∀ a, c'.heap.get a = none := by
  obtain ⟨created, c₀, hcreated, hopened, hc₀, hstart⟩ := run_poolCreate A (n + 1)
  obtain ⟨parts, c, hrun, hperformed, hlayered⟩ :=
    run_expands (fun e => obeys_step (A := A) timeout e (hpools e)) h
      (layered_init options hc₀ hstart)
  exact ⟨created, parts, c, hcreated, hopened.append hrun, hperformed, hlayered,
    hlayered.destroy⟩

/-- An endpoint, a connect and a receive into the message of the second pool. -/
theorem messenger_obeys_opening : ∃ log w',
    log.map Event.call =
        Model.opening ++ [⟨.receive stompMessageCreate, .quiet []⟩] ∧
      ∃ created parts c, created.map (·.call.op) = List.replicate 2 .poolCreate ∧
        Run (engineStep .sample) (Client.start Unit) (created ++ parts.flatten) c ∧
        List.Forall₂ (fun e => Performed 1 (some .timeup) e) log parts ∧
        Layered 1 w' c ∧
        ∀ net, ∃ c', engineStep .sample c ⟨.poolDestroy 0, net⟩ = some (.done, c') ∧
          ∀ a, c'.heap.get a = none := by
  have hsome : (exec (step .sample) (stompMessengerInit 0)
      (Model.opening ++ [⟨.receive stompMessageCreate, .quiet []⟩])).isSome =
      true := by decide +kernel
  obtain ⟨⟨log, w'⟩, hexec⟩ := Option.isSome_iff_exists.mp hsome
  exact ⟨log, w', exec_calls hexec,
    messenger_obeys .sample 0 (some .timeup) (fun _ => 1) (fun _ => Nat.le_refl 1)
      (exec_run hexec)⟩

end LibStomp.Session.Layers
