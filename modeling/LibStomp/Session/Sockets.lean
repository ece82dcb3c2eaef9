import LibStomp.Session.Steps

/-!
# The sockets of a messenger

`stomp_engine_connect` creates a socket and may fail after that; `stomp_connect`
may fail once it has got one; `stomp_disconnect` writes a frame.  None of them
closes a socket: `stomp_engine_disconnect`, which does, has no caller.

## Main results

* `engineConnect_outcome` — what `stomp_engine_connect` leaves, by what the runtime
  answers.
* `oneSocket_iff` — a messenger owns at most one open socket exactly in the runs
  that connect once, with success, and never disconnect with success.
-/

namespace LibStomp.Session.Sockets

open LibStomp.Model
open LibStomp.Verified.Runs
open LibStomp.Stream.WriteFrame
open LibStomp.Session.Steps

/-! ## Establishing a connection -/

/-- The engine gets as far as creating a socket. -/
abbrev Creates (plan : ConnectPlan) : Prop :=
  plan.resolve = none ∧ plan.create = none

/-- Nothing fails after that. -/
structure Establishes (plan : ConnectPlan) : Prop where
  connect : plan.connect.filter (· ≠ .eagain) = none
  nonblock : plan.nonblock = none
  remote : plan.remote = none
  localAddr : plan.localAddr = none
  localIp : plan.localIp = none

/-- The sockets that are open after a connect, whatever its outcome. -/
def socketsAfter (plan : ConnectPlan) (sockets : List Nat) : List Nat :=
  if Creates plan then sockets.length :: sockets else sockets

/-- What a connect with the plan may leave of the engine. -/
def EngineOutcome (plan : ConnectPlan) (e : Engine) :
    EStateM.Result AprError Engine Nat → Prop
  | .ok descriptor e' => Creates plan ∧ Establishes plan ∧
      descriptor = e.sockets.length ∧ e'.sockets = socketsAfter plan e.sockets
  | .error _ e' => (Creates plan → ¬ Establishes plan) ∧
      e'.sockets = socketsAfter plan e.sockets

/-- A call of the runtime either ends the connect, without touching a socket, or
the connect goes on. -/
theorem engineCall_rule {P : EStateM.Result AprError Engine Nat → Prop}
    {outcome : Option AprError} {text : AprError → CString} {k : Unit → EngineM Nat}
    {e : Engine}
    (hfail : ∀ rc e', outcome = some rc → e'.sockets = e.sockets →
      P (.error rc e'))
    (hpass : outcome = none → P (k () e)) :
    P ((engineCall outcome text >>= k) e) := by
  cases outcome with
  | none => exact hpass rfl
  | some rc => exact hfail rc _ rfl rfl

theorem engineConnect_outcome (A : Apr) (plan : ConnectPlan)
    (hostname : Option CString) (e : Engine) :
    EngineOutcome plan e (stompEngineConnect A plan hostname e) := by
  unfold stompEngineConnect
  refine engineCall_rule (fun rc e' hrc he => ?_) fun hresolve => ?_
  · have hno : ¬ Creates plan := fun h => nomatch hrc.symm.trans h.1
    exact ⟨fun h => absurd h hno, by rw [socketsAfter, if_neg hno, he]⟩
  refine engineCall_rule (fun rc e' hrc he => ?_) fun hcreate => ?_
  · have hno : ¬ Creates plan := fun h => nomatch hrc.symm.trans h.2
    exact ⟨fun h => absurd h hno, by rw [socketsAfter, if_neg hno, he]⟩
  have hcreates : Creates plan := ⟨hresolve, hcreate⟩
  -- from here on there is one socket more, whichever call fails
  have hfail : ∀ rc (e' : Engine), ¬ Establishes plan →
      e'.sockets = e.sockets.length :: e.sockets →
        EngineOutcome plan e (.error rc e') := fun rc e' hno he =>
    ⟨fun _ => hno, by rw [socketsAfter, if_pos hcreates, he]⟩
  refine engineCall_rule (fun rc e' hrc he => ?_) fun hconnect => ?_
  · exact hfail rc e' (fun h => nomatch hrc.symm.trans h.connect) he
  refine engineCall_rule (fun rc e' hrc he => ?_) fun hnonblock => ?_
  · exact hfail rc e' (fun h => nomatch hrc.symm.trans h.nonblock) he
  refine engineCall_rule (fun rc e' hrc he => ?_) fun hremote => ?_
  · exact hfail rc e' (fun h => nomatch hrc.symm.trans h.remote) he
  refine engineCall_rule (fun rc e' hrc he => ?_) fun hlocalAddr => ?_
  · exact hfail rc e' (fun h => nomatch hrc.symm.trans h.localAddr) he
  refine engineCall_rule (fun rc e' hrc he => ?_) fun hlocalIp => ?_
  · exact hfail rc e' (fun h => nomatch hrc.symm.trans h.localIp) he
  · exact ⟨hcreates, ⟨hconnect, hnonblock, hremote, hlocalAddr, hlocalIp⟩, rfl,
      by rw [socketsAfter, if_pos hcreates]⟩

/-- A connect that succeeds creates a socket and leaves the error record alone. -/
theorem engineConnect_ok (A : Apr) {plan : ConnectPlan} (hcreates : Creates plan)
    (h : Establishes plan) (hostname : Option CString) (e : Engine) :
    stompEngineConnect A plan hostname e =
      .ok e.sockets.length { e with sockets := e.sockets.length :: e.sockets } := by
  unfold stompEngineConnect
  rw [hcreates.1, hcreates.2, h.connect, h.nonblock, h.remote, h.localAddr, h.localIp]
  rfl

/-! ## Frames and their answers -/

/-- The frame goes out on the connection. -/
def GoesOut (A : Apr) (net : Net) (frame : Frame) (io : Io) : Prop :=
  ∃ io', stompWrite A net.order frame io = .ok () io'

/-- The frame goes out, and the peer answers with a frame whose command begins like
`command`. -/
def Answered (A : Apr) (net : Net) (frame : Frame) (command : CString)
    (io : Io) : Prop :=
  ∃ io₁ io₂ io₃ reply, stompWrite A net.order frame io = .ok () io₁ ∧
    stompIoCanRead io₁ = (true, io₂) ∧ stompRead A io₂ = .ok reply io₃ ∧
    reply.command.startsWith command = true

/-- The frame the peer has answered with, if its command begins like `command`. -/
def beginsWith (command : CString) : Reading → Bool
  | .frame reply => reply.command.startsWith command
  | _ => false

/-- What is read after a frame went out decides whether it was answered. -/
theorem answered_iff {A : Apr} {net : Net} {frame : Frame} {command : CString}
    {io io₁ : Io} {w w' : World} {reading : Reading}
    (hwrite : stompWrite A net.order frame io = .ok () io₁)
    (hendline : io.endline = net.endline)
    (hread : ReadStep A net.endline (w.withIo io₁) io₁.socket reading w') :
    Answered A net frame command io ↔ beginsWith command reading = true := by
  have hacc := (stompWrite_writes A net.order frame).accepted hwrite
  have hio : (w.withIo io₁).toIo net.endline io₁.socket = io₁ := by
    apply toIo_withIo
    obtain ⟨⟨_, _, rfl⟩, -⟩ := hacc
    exact hendline
  constructor
  · rintro ⟨_, io₂, io₃, reply, hwrite', hwait', hread', hcommand⟩
    obtain ⟨-, rfl⟩ := EStateM.Result.ok.inj (hwrite.symm.trans hwrite')
    cases hread with
    | notReady hwait =>
        rw [hio, hwait'] at hwait
        cases hwait
    | failed hwait hfailed =>
        rw [hio, hwait'] at hwait
        obtain ⟨-, rfl⟩ := Prod.mk.inj hwait
        cases hread'.symm.trans hfailed
    | frame hwait hframe =>
        rw [hio, hwait'] at hwait
        obtain ⟨-, rfl⟩ := Prod.mk.inj hwait
        obtain ⟨rfl, -⟩ := EStateM.Result.ok.inj (hread'.symm.trans hframe)
        exact hcommand
  · intro hbegins
    cases hread with
    | notReady => cases hbegins
    | failed => cases hbegins
    | frame hwait hframe =>
        rw [hio] at hwait
        exact ⟨io₁, _, _, _, hwrite, hwait, hframe, hbegins⟩

/-! ## Connecting and disconnecting -/

/-- Everything that follows the creation of the socket succeeds, the answer of the
broker included. -/
def Completes (A : Apr) (net : Net) (header : Option ConnectionHeader)
    (w : World) : Prop :=
  Establishes net.plan ∧
    Answered A net (connectFrame header) (.lit "CONNECTED")
      ⟨net.socket w.engine.sockets.length, w.ioError, net.endline⟩

private theorem untouched_sockets :
    Untouched fun w : World => w.engine.sockets :=
  ⟨fun _ _ => rfl, fun _ _ _ => rfl⟩

/-- The code says whether `P` holds. -/
def Tells (code : StatusCode) (P : Prop) : Prop :=
  code = .success ∧ P ∨ code = .failure ∧ ¬ P

theorem Tells.success_iff {code : StatusCode} {P : Prop} (h : Tells code P) :
    code = .success ↔ P := by
  rcases h with ⟨rfl, hp⟩ | ⟨rfl, hp⟩ <;> simp [hp]

theorem Tells.failure_iff {code : StatusCode} {P : Prop} (h : Tells code P) :
    code = .failure ↔ ¬ P := by
  rcases h with ⟨rfl, hp⟩ | ⟨rfl, hp⟩ <;> simp [hp]

theorem connect_sockets {A : Apr} {net : Net} {w w' : World}
    {header : Option ConnectionHeader} {code : StatusCode}
    (h : stompConnect A net header w = some (code, w')) :
    w'.engine.sockets = socketsAfter net.plan w.engine.sockets ∧
      Tells code (Creates net.plan ∧ Completes A net header w) ∧
      (¬ Creates net.plan →
        w'.messenger.connection = w.messenger.connection) := by
  cases connectRun_of_connect h with
  | unreachable text hengine =>
      obtain ⟨hno, hsockets⟩ := hengine ▸ engineConnect_outcome A net.plan _ w.engine
      exact ⟨hsockets,
        .inr ⟨rfl, fun ⟨hcreates, hdone, _⟩ => hno hcreates hdone⟩, fun _ => rfl⟩
  | unwritten text hengine hwrite =>
      obtain ⟨hcreates, -, rfl, hsockets⟩ :=
        hengine ▸ engineConnect_outcome A net.plan _ w.engine
      refine ⟨hsockets, .inr ⟨rfl, ?_⟩, absurd hcreates⟩
      rintro ⟨-, -, io₁, _, _, _, hwrite', -⟩
      cases hwrite'.symm.trans hwrite
  | @refused uri descriptor engine io reading w₂ text hengine hwrite hread hreply =>
      obtain ⟨hcreates, -, rfl, hsockets⟩ :=
        hengine ▸ engineConnect_outcome A net.plan _ w.engine
      have hanswered : Answered A net (connectFrame header) (.lit "CONNECTED") _ ↔
          beginsWith (.lit "CONNECTED") reading = true :=
        answered_iff hwrite rfl hread
      have hno : beginsWith (.lit "CONNECTED") reading ≠ true := by
        cases reading with
        | frame frame => exact ne_true_of_eq_false (hreply frame rfl)
        | _ => exact Bool.false_ne_true
      have hsame := hread.untouched untouched_sockets
      exact ⟨hsame.trans hsockets,
        .inr ⟨rfl, fun ⟨_, _, ha⟩ => hno (hanswered.mp ha)⟩, absurd hcreates⟩
  | confirmed hengine hwrite hread hreply =>
      obtain ⟨hcreates, hestablishes, rfl, hsockets⟩ :=
        hengine ▸ engineConnect_outcome A net.plan _ w.engine
      have hanswered := (answered_iff hwrite rfl hread).mpr hreply
      have hsame := hread.untouched untouched_sockets
      exact ⟨hsame.trans hsockets,
        .inl ⟨rfl, hcreates, hestablishes, hanswered⟩, absurd hcreates⟩

private theorem tells_confirmation (reading : Reading) :
    Tells (confirmation reading) (beginsWith (.lit "RECEIPT") reading = true) := by
  cases reading with
  | frame reply =>
      by_cases hreceipt : reply.command.startsWith (.lit "RECEIPT") = true
      · exact .inl ⟨if_pos hreceipt, hreceipt⟩
      · exact .inr ⟨if_neg hreceipt, hreceipt⟩
  | _ => exact .inr ⟨rfl, Bool.false_ne_true⟩

/-- The frame goes out and, if a receipt is asked for, is confirmed. -/
def Confirmed (A : Apr) (net : Net) (frame : Frame) (receipt : Option UInt32)
    (io : Io) : Prop :=
  GoesOut A net frame io ∧
    ((∃ r, receipt = some r ∧ 0 < r) → Answered A net frame (.lit "RECEIPT") io)

theorem transact_tells {A : Apr} {net : Net} {w w' : World} {frame : Frame}
    {text : World → CString} {receipt : Option UInt32} {code : StatusCode}
    (h : transact A net text frame receipt w = some (code, w')) :
    ∃ socket, w.messenger.connection = some socket ∧
      Tells code
        (Confirmed A net frame receipt (w.toIo net.endline socket)) := by
  unfold transact at h
  obtain ⟨⟨stat, w₁⟩, hwrite, hrest⟩ := Option.bind_eq_some_iff.mp h
  obtain ⟨socket, hsocket, hcases⟩ := onConnection_eq_some (write_eq_some hwrite)
  refine ⟨socket, hsocket, ?_⟩
  rcases hcases with ⟨_, io, hok, rfl, rfl⟩ | ⟨rc, io, herror, rfl, rfl⟩
  · by_cases hwaits : ∃ r, receipt = some r ∧ 0 < r
    · obtain ⟨r, rfl, hpos⟩ := hwaits
      simp only [if_pos hpos] at hrest
      obtain ⟨socket', hsocket', hwaited⟩ := waited_of_processReceipt hrest
      obtain rfl := Option.some.inj hsocket'
      obtain ⟨reading, _, hread, -, rfl⟩ := hwaited.reading
      have hiff : Confirmed A net frame (some r) (w.toIo net.endline socket) ↔
          beginsWith (.lit "RECEIPT") reading = true := by
        rw [← answered_iff hok rfl hread]
        exact ⟨fun ⟨_, hasked⟩ => hasked ⟨r, rfl, hpos⟩,
          fun ha => ⟨⟨io, hok⟩, fun _ => ha⟩⟩
      rw [hiff]
      exact tells_confirmation reading
    · have hdone : code = .success := by
        cases receipt with
        | none => exact (Prod.mk.inj (Option.some.inj hrest)).1.symm
        | some r =>
            have hpos : ¬ 0 < r := fun hpos => hwaits ⟨r, rfl, hpos⟩
            simp only [if_neg hpos] at hrest
            exact (Prod.mk.inj (Option.some.inj hrest)).1.symm
      exact .inl ⟨hdone, ⟨io, hok⟩, fun hasked => absurd hasked hwaits⟩
  · refine .inr ⟨(Prod.mk.inj (Option.some.inj hrest)).1.symm, ?_⟩
    rintro ⟨⟨_, hok⟩, -⟩
    cases hok.symm.trans herror

/-- The DISCONNECT goes out on the connection and is confirmed if it asks for
that. -/
def Disconnects (A : Apr) (net : Net) (header : Option DisconnectionHeader)
    (w : World) : Prop :=
  ∃ socket, w.messenger.connection = some socket ∧
    Confirmed A net (disconnectFrame header) (header.map (·.receipt))
      ⟨loadSocket net socket, w.ioError, net.endline⟩

theorem disconnect_tells {A : Apr} {net : Net} {w w' : World}
    {header : Option DisconnectionHeader} {code : StatusCode}
    (h : stompDisconnect A net header (w.load net) = some (code, w')) :
    Tells code (Disconnects A net header w) := by
  obtain ⟨_, hloaded, htells⟩ := transact_tells h
  rw [load_connection] at hloaded
  obtain ⟨socket, hsocket, rfl⟩ := Option.map_eq_some_iff.mp hloaded
  have hiff : Disconnects A net header w ↔
      Confirmed A net (disconnectFrame header) (header.map (·.receipt))
        ((w.load net).toIo net.endline (loadSocket net socket)) := by
    constructor
    · rintro ⟨socket', hsocket', hconfirmed⟩
      obtain rfl := Option.some.inj (hsocket.symm.trans hsocket')
      exact hconfirmed
    · exact fun hconfirmed => ⟨socket, hsocket, hconfirmed⟩
  rwa [hiff]

/-! ## One call -/

/-- A call leaves the sockets it found, and a connect that got so far leaves one
more. -/
theorem sockets_step {A : Apr} {net : Net} {w w' : World} {op : Op} {r : Reply}
    (h : step A w ⟨op, net⟩ = some (r, w')) :
    w'.engine.sockets =
      match op with
      | .connect _ => socketsAfter net.plan w.engine.sockets
      | _ => w.engine.sockets := by
  have hstepped : Stepped A net w op r w' := stepped_of_step h
  cases hstepped with
  | request hrequest hrun =>
      obtain ⟨_, -, htransacted⟩ := transacted_of_transact hrun
      have hsame := htransacted.untouched untouched_sockets
      cases op <;> first | exact hsame | cases hrequest
  | connect hrun => exact (connect_sockets hrun).1
  | receive hrun =>
      obtain ⟨_, -, hreceived⟩ := received_of_receive hrun
      have hsame := hreceived.untouched untouched_sockets fun _ _ => rfl
      exact hsame
  | setEndpoint hrun =>
      obtain ⟨_, rfl, -⟩ := setEndpoint_cases hrun
      rfl
  | noHeader => rfl
  | exchangeAdd => rfl
  | exchangeClear => rfl

/-- Before the first socket is created there is no connection. -/
def NoneUnopened (w : World) : Prop :=
  w.engine.sockets = [] → w.messenger.connection = none

theorem noneUnopened_step {A : Apr} {net : Net} {w w' : World} {op : Op}
    {r : Reply} (h : step A w ⟨op, net⟩ = some (r, w')) (hw : NoneUnopened w) :
    NoneUnopened w' := by
  intro hempty
  have hsockets := sockets_step h
  have hstepped : Stepped A net w op r w' := stepped_of_step h
  have hbefore : w.engine.sockets = [] ∧
      ((∃ header, op = .connect header) → ¬ Creates net.plan) := by
    cases op with
    | connect header =>
        simp only [hempty, socketsAfter] at hsockets
        by_cases hcreates : Creates net.plan
        · rw [if_pos hcreates] at hsockets
          cases hsockets
        · rw [if_neg hcreates] at hsockets
          exact ⟨hsockets.symm, fun _ => hcreates⟩
    | _ => exact ⟨hsockets.symm.trans hempty, fun ⟨_, hop⟩ => nomatch hop⟩
  have hnone := hw hbefore.1
  have hloaded : (w.load net).messenger.connection = none := by
    rw [load_connection, hnone]
    rfl
  cases hstepped with
  | request _ hrun =>
      obtain ⟨_, hsocket, -⟩ := transacted_of_transact hrun
      cases hloaded.symm.trans hsocket
  | connect hrun =>
      obtain ⟨-, -, hsame⟩ := connect_sockets hrun
      exact (hsame (hbefore.2 ⟨_, rfl⟩)).trans hnone
  | receive hrun =>
      obtain ⟨_, hsocket, -⟩ := received_of_receive hrun
      cases hloaded.symm.trans hsocket
  | setEndpoint hrun =>
      obtain ⟨_, rfl, -⟩ := setEndpoint_cases hrun
      exact hloaded
  | noHeader => exact hloaded
  | exchangeAdd => exact hloaded
  | exchangeClear => exact hloaded

/-! ## Runs -/

def isConnect : Op → Bool
  | .connect _ => true
  | _ => false

def isDisconnect : Op → Bool
  | .disconnect _ => true
  | _ => false

/-- The call leaves at most one socket, and none if it was a connect that has failed
or a disconnect that has succeeded. -/
structure OneSocket (e : Event World Call Reply) : Prop where
  atMostOne : e.post.engine.sockets.length ≤ 1
  failed : isConnect e.call.op = true → e.reply.code = some .failure →
    e.post.engine.sockets = []
  closed : isDisconnect e.call.op = true → e.reply.code = some .success →
    e.post.engine.sockets = []

/-- A connect finds no socket and completes what it begins, and a disconnect does
not get through. -/
def KeepsOne (A : Apr) (w : World) (c : Call) : Prop :=
  match c.op with
  | .connect header => w.engine.sockets = [] ∧
      (Creates c.net.plan → Completes A c.net header w)
  | .disconnect header => ¬ Disconnects A c.net header w
  | _ => True

private theorem oneSocket_connect {A : Apr} {net : Net} {w w' : World} {r : Reply}
    {header : Option ConnectionHeader}
    (h : step A w ⟨.connect header, net⟩ = some (r, w')) :
    OneSocket ⟨w, ⟨.connect header, net⟩, r, w'⟩ ↔
      w.engine.sockets = [] ∧ (Creates net.plan → Completes A net header w) := by
  obtain ⟨code, hrun, rfl⟩ := replyCode_eq_some h
  obtain ⟨hsockets, htells, -⟩ := connect_sockets hrun
  by_cases hcreates : Creates net.plan
  · rw [socketsAfter, if_pos hcreates] at hsockets
    constructor
    · intro hone
      have hlength : w'.engine.sockets.length ≤ 1 := hone.atMostOne
      rw [hsockets, List.length_cons] at hlength
      have hempty := List.length_eq_zero_iff.mp (Nat.le_zero.mp
        (Nat.succ_le_succ_iff.mp hlength))
      refine ⟨hempty, fun _ => ?_⟩
      by_contra hno
      have hfailure := htells.failure_iff.mpr fun hall => hno hall.2
      have hclosed : w'.engine.sockets = [] :=
        hone.failed rfl (congrArg some hfailure)
      rw [hsockets] at hclosed
      cases hclosed
    · rintro ⟨hempty, hcompletes⟩
      refine ⟨?_, fun _ hcode => ?_, fun hop => nomatch hop⟩
      · show w'.engine.sockets.length ≤ 1
        rw [hsockets, hempty]
        exact Nat.le_refl 1
      · have hno := htells.failure_iff.mp (Option.some.inj hcode)
        exact absurd ⟨hcreates, hcompletes hcreates⟩ hno
  · rw [socketsAfter, if_neg hcreates] at hsockets
    constructor
    · intro hone
      have hfailure := htells.failure_iff.mpr fun hall => hcreates hall.1
      have hclosed : w'.engine.sockets = [] :=
        hone.failed rfl (congrArg some hfailure)
      exact ⟨hsockets.symm.trans hclosed, fun h => absurd h hcreates⟩
    · rintro ⟨hempty, -⟩
      have hclosed : w'.engine.sockets = [] := hsockets.trans hempty
      refine ⟨?_, fun _ _ => hclosed, fun hop => nomatch hop⟩
      show w'.engine.sockets.length ≤ 1
      rw [hclosed]
      exact Nat.zero_le 1

private theorem oneSocket_disconnect {A : Apr} {net : Net} {w w' : World}
    {r : Reply} {header : Option DisconnectionHeader}
    (h : step A w ⟨.disconnect header, net⟩ = some (r, w'))
    (hnone : NoneUnopened w) :
    OneSocket ⟨w, ⟨.disconnect header, net⟩, r, w'⟩ ↔
      w.engine.sockets.length ≤ 1 ∧ ¬ Disconnects A net header w := by
  have hsockets : w'.engine.sockets = w.engine.sockets := sockets_step h
  obtain ⟨code, hrun, rfl⟩ := replyCode_eq_some h
  have htells := disconnect_tells hrun
  constructor
  · intro hone
    have hlength : w'.engine.sockets.length ≤ 1 := hone.atMostOne
    refine ⟨hsockets ▸ hlength, fun hdone => ?_⟩
    have hclosed : w'.engine.sockets = [] :=
      hone.closed rfl (congrArg some (htells.success_iff.mpr hdone))
    obtain ⟨socket, hsocket, -⟩ := hdone
    cases (hnone (hsockets.symm.trans hclosed)).symm.trans hsocket
  · rintro ⟨hlength, hno⟩
    refine ⟨?_, (fun hop => nomatch hop), fun _ hcode => ?_⟩
    · show w'.engine.sockets.length ≤ 1
      rwa [hsockets]
    · exact absurd (htells.success_iff.mp (Option.some.inj hcode)) hno

/-- What the call must be like is what it leaves of the sockets. -/
theorem oneSocket_event {A : Apr} {e : Event World Call Reply}
    (h : step A e.pre e.call = some (e.reply, e.post))
    (hnone : NoneUnopened e.pre) :
    OneSocket e ↔
      e.pre.engine.sockets.length ≤ 1 ∧ KeepsOne A e.pre e.call := by
  obtain ⟨pre, ⟨op, net⟩, reply, post⟩ := e
  have hother : isConnect op = false → isDisconnect op = false →
      post.engine.sockets = pre.engine.sockets →
        (OneSocket ⟨pre, ⟨op, net⟩, reply, post⟩ ↔
          pre.engine.sockets.length ≤ 1) := by
    intro hconnect hdisconnect hsame
    constructor
    · intro hone
      have hlength : post.engine.sockets.length ≤ 1 := hone.atMostOne
      exact hsame ▸ hlength
    · intro hlength
      refine ⟨?_, fun hop => ?_, fun hop => ?_⟩
      · show post.engine.sockets.length ≤ 1
        rwa [hsame]
      · cases hconnect.symm.trans hop
      · cases hdisconnect.symm.trans hop
  cases op with
  | connect header =>
      rw [oneSocket_connect h]
      constructor
      · intro hk
        have hlength : pre.engine.sockets.length = 0 :=
          List.length_eq_zero_iff.mpr hk.1
        exact ⟨hlength ▸ Nat.zero_le 1, hk⟩
      · exact And.right
  | disconnect header => exact oneSocket_disconnect h hnone
  | _ =>
      rw [hother rfl rfl (sockets_step h)]
      exact (and_iff_left trivial).symm

/-- **A messenger owns at most one open socket exactly in the runs that connect once,
with success, and never disconnect with success.** -/
theorem oneSocket_iff (A : Apr) (options : UInt32) (w : World) (log : Log)
    (h : Run (step A) (stompMessengerInit options) log w) :
    (∀ e ∈ log, OneSocket e) ↔ ∀ e ∈ log, KeepsOne A e.pre e.call := by
  have hinit : NoneUnopened (stompMessengerInit options) := fun _ => rfl
  have hstepNone : ∀ s c r s', NoneUnopened s → True →
      step A s c = some (r, s') → NoneUnopened s' :=
    fun _ _ _ _ hs _ hstep => noneUnopened_step hstep hs
  have hnone : ∀ e ∈ log, NoneUnopened e.pre := fun e he =>
    ((h.invariant_of_guard hstepNone hinit fun _ _ => trivial).2 e he).1
  constructor
  · intro hone e he
    exact ((oneSocket_event (h.step_of_mem he) (hnone e he)).mp (hone e he)).2
  · intro hkeeps
    have hstep : ∀ s c r s',
        (s.engine.sockets.length ≤ 1 ∧ NoneUnopened s) → KeepsOne A s c →
          step A s c = some (r, s') →
            s'.engine.sockets.length ≤ 1 ∧ NoneUnopened s' := by
      rintro s c r s' ⟨hlength, hs⟩ hk hstep
      have hone := (oneSocket_event (e := ⟨s, c, r, s'⟩) hstep hs).mpr
        ⟨hlength, hk⟩
      exact ⟨hone.atMostOne, noneUnopened_step hstep hs⟩
    have hinv := (h.invariant_of_guard hstep ⟨Nat.zero_le 1, hinit⟩ hkeeps).2
    intro e he
    exact (oneSocket_event (h.step_of_mem he) (hnone e he)).mpr
      ⟨(hinv e he).1.1, hkeeps e he⟩

/-- The socket count and the code after each call of a session that connects and
disconnects. -/
private theorem closingCalls_run :
    ∃ (log : Log) (w : World), Run (step .sample) (stompMessengerInit 0) log w ∧
      log.map Event.call = opening ++ [⟨.disconnect none, .quiet []⟩] ∧
      log.map (fun e => (e.post.engine.sockets, e.reply.code)) =
        [([], some .success), ([0], some .success), ([0], some .success)] := by
  have hrun : (exec (step .sample) (stompMessengerInit 0)
      (opening ++ [⟨.disconnect none, .quiet []⟩])).map
        (fun p => p.1.map fun e => (e.post.engine.sockets, e.reply.code)) =
      some [([], some .success), ([0], some .success), ([0], some .success)] := by
    decide +kernel
  obtain ⟨⟨log, w⟩, hexec, hvalues⟩ := Option.map_eq_some_iff.mp hrun
  exact ⟨log, w, exec_run hexec, exec_calls hexec, hvalues⟩

theorem oneSocket_opening :
    ∃ log : Log, log.map Event.call = opening ∧
      ∀ e ∈ log, KeepsOne .sample e.pre e.call := by
  obtain ⟨log, w, hrun, hcalls, hvalues⟩ := closingCalls_run
  obtain ⟨before, last, rfl, hbefore, -⟩ := List.map_eq_append_iff.mp hcalls
  obtain ⟨w₁, hopening, -⟩ := hrun.split
  refine ⟨before, hbefore, (oneSocket_iff .sample 0 w₁ before hopening).mp ?_⟩
  intro e he
  have hvalue : (e.post.engine.sockets, e.reply.code) ∈
      [([], some .success), ([0], some .success), ([0], some .success)] := by
    rw [← hvalues]
    exact List.mem_map_of_mem (f := fun e : Event World Call Reply =>
      (e.post.engine.sockets, e.reply.code)) (List.mem_append_left _ he)
  have hcall : e.call ∈ opening := hbefore ▸ List.mem_map_of_mem he
  simp only [List.mem_cons, Prod.mk.injEq, List.not_mem_nil, or_false] at hvalue
  refine ⟨?_, fun _ hcode => ?_, fun hop => ?_⟩
  · rcases hvalue with ⟨h, -⟩ | ⟨h, -⟩ | ⟨h, -⟩ <;> simp [h]
  · rcases hvalue with ⟨-, h⟩ | ⟨-, h⟩ | ⟨-, h⟩ <;> cases h.symm.trans hcode
  · rcases List.mem_cons.mp hcall with hc | hc
    · rw [hc] at hop
      cases hop
    · rw [List.mem_singleton.mp hc] at hop
      cases hop

/-- The disconnect succeeds, and the socket stays open. -/
theorem oneSocket_fails :
    ¬ ∀ (A : Apr) (options : UInt32) (w : World) (log : Log),
      Run (step A) (stompMessengerInit options) log w →
        ∀ e ∈ log, OneSocket e := by
  intro h
  obtain ⟨log, w, hrun, hcalls, hvalues⟩ := closingCalls_run
  have hone := h .sample 0 w log hrun
  obtain ⟨before, last, rfl, hbefore, hlast⟩ := List.map_eq_append_iff.mp hcalls
  obtain ⟨e, rfl, he⟩ := List.map_eq_singleton_iff.mp hlast
  have hclosed := (hone e (by simp)).closed (by rw [he]; rfl)
  rw [List.map_append] at hvalues
  have hlength : before.length = 2 := by
    rw [← List.length_map (f := Event.call), hbefore]
    rfl
  have hvalue : (e.post.engine.sockets, e.reply.code) = ([0], some .success) := by
    have hdrop := congrArg (List.drop 2) hvalues
    rw [List.drop_left' (by rw [List.length_map, hlength])] at hdrop
    exact (List.cons.inj hdrop).1
  obtain ⟨hsockets, hcode⟩ := Prod.mk.inj hvalue
  cases hsockets.symm.trans (hclosed hcode)

end LibStomp.Session.Sockets
