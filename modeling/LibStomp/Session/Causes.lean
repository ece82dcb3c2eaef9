import LibStomp.Session.Reporting
import LibStomp.Session.Sockets
import LibStomp.Session.Unread
import LibStomp.Stream.ErrorTexts

/-!
# Which failure the status text names

`stomp_io.c` and `stomp_engine.c` keep an `error` record each.  Where `stomp_write` or
`stomp_read` fails, the cause is in the first of them; but all operations that write,
`stomp_connect` included, paste the message of the second one into the status text,
and `stomp_ack` pastes none.  Only `stomp_receive` asks the record of the module that
failed.

## Main results

* `namesCause_iff` — the status text names the failure whatever the two records held
  before the call if and only if the call is a `stomp_receive`.
-/

namespace LibStomp.Session.Causes

open LibStomp.Model
open LibStomp.Stream.ErrorTexts
open LibStomp.Stream.WriteFrame
open LibStomp.Session.Steps
open LibStomp.Session.Reporting
open LibStomp.Session.Sockets
open LibStomp.Session.Unread

/-! ## Failures of the input and output layer -/

section Fails

variable (A : Apr) (net : Net)

/-- Writing the frame fails, or it goes out and reading what is waited for fails;
`cause` is in the record of `stomp_io.c` then.  The body of the frame is not left. -/
inductive ExchangeFails (frame : Frame) (waits : Prop) (io : Io) : CString → Prop
  | write {rc : AprError} {io' : Io} {cause : CString}
      (hinside : staysInside A net.order frame io = true)
      (hwrite : stompWrite A net.order frame io = .error rc io')
      (hcause : io'.error.message = some cause) : ExchangeFails frame waits io cause
  | read {io₁ io₂ io₃ : Io} {rc : AprError} {cause : CString}
      (hinside : staysInside A net.order frame io = true)
      (hwrite : stompWrite A net.order frame io = .ok () io₁) (hwaits : waits)
      (hwait : stompIoCanRead io₁ = (true, io₂))
      (hread : stompRead A io₂ = .error rc io₃)
      (hcause : io₃.error.message = some cause) : ExchangeFails frame waits io cause

/-- In the call of `op`, `stomp_write` or `stomp_read` fails and `cause` is what the
module has recorded for that. -/
inductive IoFails (w : World) : Op → CString → Prop
  | request {op : Op} {q : Request} {socket : Socket} {cause : CString}
      (hrequest : request w.messenger op = some q)
      (hsocket : (w.load net).messenger.connection = some socket)
      (hfails : ExchangeFails A net q.frame q.waits
        ((w.load net).toIo net.endline socket) cause) : IoFails w op cause
  | connect {header : Option ConnectionHeader} {uri : Uri} {descriptor : Nat}
      {engine : Engine} {cause : CString} (huri : w.messenger.uri = some uri)
      (hengine : stompEngineConnect A net.plan uri.hostname w.engine =
        .ok descriptor engine)
      (hfails : ExchangeFails A net (connectFrame header) True
        ⟨net.socket descriptor, w.ioError, net.endline⟩ cause) :
      IoFails w (.connect header) cause
  | receive {message : Message} {socket : Socket} {io io' : Io} {rc : AprError}
      {cause : CString} (hsocket : (w.load net).messenger.connection = some socket)
      (hwait : stompIoCanRead ((w.load net).toIo net.endline socket) = (true, io))
      (hread : stompRead A io = .error rc io')
      (hcause : io'.error.message = some cause) : IoFails w (.receive message) cause

end Fails

section Texts

variable {A : Apr} {net : Net} {w : World} {cause : CString}

theorem ExchangeFails.isIoText {frame : Frame} {waits : Prop} {io : Io}
    (h : ExchangeFails A net frame waits io cause) : IsIoText cause := by
  have hrecorded : ∃ io', Recorded io' ∧ io'.error.message = some cause := by
    cases h with
    | write _ hwrite hcause => exact ⟨_, stompWrite_recorded hwrite, hcause⟩
    | read _ _ _ _ hread hcause => exact ⟨_, stompRead_recorded hread, hcause⟩
  obtain ⟨io', ⟨text, htext, hio⟩, hcause⟩ := hrecorded
  obtain rfl := Option.some.inj (htext.symm.trans hcause)
  exact hio

theorem IoFails.isIoText {op : Op} (hop : isReceive op = false)
    (h : IoFails A net w op cause) : IsIoText cause := by
  cases h with
  | request _ _ hfails => exact hfails.isIoText
  | connect _ _ hfails => exact hfails.isIoText
  | receive => cases hop

end Texts

/-! ## The status texts -/

/-- The texts the writing operations have for such a failure. -/
def statusTexts (engineError : Status) : List CString :=
  [.lit "Unable to write the frame data to the underlying connection: " ++
      formatArg engineError.message,
    .lit "Unable to read the frame data to the underlying connection: " ++
      formatArg engineError.message,
    .lit "Unable to write the frame data to the underlying connection"]

/-- The operation has failed with one of them. -/
def FailsWith (engineError : Status) (result : Option (StatusCode × World)) : Prop :=
  ∃ w' text, result = some (.failure, w') ∧
    w'.messenger.status.message = some text ∧ text ∈ statusTexts engineError

theorem failsWith_failure {w : World} {text : CString} {engineError : Status}
    (h : text ∈ statusTexts engineError) : FailsWith engineError (w.failure text) :=
  ⟨_, text, rfl, rfl, h⟩

section Operations

variable {A : Apr} {net : Net} {w : World} {cause : CString}

theorem processReceipt_failsWith {socket : Socket} {io io' : Io} {rc : AprError}
    (hsocket : w.messenger.connection = some socket)
    (hwait : stompIoCanRead (w.toIo net.endline socket) = (true, io))
    (hread : stompRead A io = .error rc io') :
    FailsWith w.engine.error (stompProcessReceipt A net w) := by
  unfold stompProcessReceipt
  rw [readFrame_of_error hsocket hwait hread]
  exact failsWith_failure (by simp [statusTexts, World.withIo])

/-- After a frame went out the wait is for the connection as the write left it. -/
private theorem canRead_written {frame : Frame} {io io₁ io₂ : Io}
    (hwrite : stompWrite A net.order frame io = .ok () io₁)
    (hendline : io.endline = net.endline) (hwait : stompIoCanRead io₁ = (true, io₂)) :
    stompIoCanRead ((w.withIo io₁).toIo net.endline io₁.socket) = (true, io₂) := by
  have hacc := (stompWrite_writes A net.order frame).accepted hwrite
  rw [toIo_withIo w (hacc.endline.trans hendline)]
  exact hwait

theorem transact_failsWith {q : Request} {socket : Socket}
    (hnote : ∀ w, q.note w ∈ statusTexts w.engine.error)
    (hsocket : w.messenger.connection = some socket)
    (h : ExchangeFails A net q.frame q.waits (w.toIo net.endline socket) cause) :
    FailsWith w.engine.error (transact A net q.note q.frame q.receipt w) := by
  unfold transact
  cases h with
  | write hinside hwrite _ =>
      rw [write_of_staysInside hsocket hinside, onConnection_of_error hsocket hwrite]
      exact failsWith_failure (hnote _)
  | read hinside hwrite hwaits hwait hread _ =>
      obtain ⟨receipt, hreceipt, hpos⟩ := hwaits
      rw [write_of_staysInside hsocket hinside, onConnection_of_ok hsocket hwrite,
        hreceipt]
      simp only [Option.bind_eq_bind, Option.bind_some, if_pos hpos]
      exact processReceipt_failsWith rfl (canRead_written hwrite rfl hwait) hread

theorem connect_failsWith {header : Option ConnectionHeader} {uri : Uri}
    {descriptor : Nat} {engine : Engine} (huri : w.messenger.uri = some uri)
    (hengine : stompEngineConnect A net.plan uri.hostname w.engine =
      .ok descriptor engine)
    (herror : engine.error = w.engine.error)
    (h : ExchangeFails A net (connectFrame header) True
      ⟨net.socket descriptor, w.ioError, net.endline⟩ cause) :
    FailsWith w.engine.error (stompConnect A net header w) := by
  unfold stompConnect
  rw [huri, ← herror]
  simp only [Option.bind_eq_bind, Option.bind_some, hengine]
  -- the state in which the frame is written
  obtain ⟨w₁, hw₁⟩ : ∃ w₁ : World, w₁ = { w with
      engine := engine
      messenger := { w.messenger with connection := some (net.socket descriptor) } } :=
    ⟨_, rfl⟩
  have hsocket : w₁.messenger.connection = some (net.socket descriptor) := by rw [hw₁]
  have hio : w₁.toIo net.endline (net.socket descriptor) =
      ⟨net.socket descriptor, w.ioError, net.endline⟩ := by rw [hw₁]; rfl
  have hrecord : engine.error = w₁.engine.error := by rw [hw₁]
  rw [← hw₁, hrecord]
  rw [← hio] at h
  rw [write_of_bodyHolds rfl]
  cases h with
  | write _ hwrite _ =>
      rw [onConnection_of_error hsocket hwrite]
      exact failsWith_failure (by simp [statusTexts, writeFailure, World.withIo])
  | read _ hwrite _ hwait hread _ =>
      rw [onConnection_of_ok hsocket hwrite]
      simp only [Option.bind_some]
      rw [readFrame_of_error rfl (canRead_written hwrite rfl hwait) hread]
      exact failsWith_failure (by simp [statusTexts, World.withIo])

/-- The engine's record is the same after a connect with success. -/
private theorem engine_ok {plan : ConnectPlan} {hostname : Option CString}
    {e e' : Engine} {descriptor : Nat}
    (h : stompEngineConnect A plan hostname e = .ok descriptor e') :
    e'.error = e.error ∧ ∀ st, ∃ e'', stompEngineConnect A plan hostname
      { e with error := st } = .ok descriptor e'' := by
  have houtcome := engineConnect_outcome A plan hostname e
  rw [h] at houtcome
  obtain ⟨hcreates, hestablishes, rfl, -⟩ := houtcome
  have hok := engineConnect_ok A hcreates hestablishes hostname
  obtain ⟨-, rfl⟩ := EStateM.Result.ok.inj (h.symm.trans (hok e))
  exact ⟨rfl, fun st => ⟨_, hok { e with error := st }⟩⟩

/-- **Where writing operations fail so, the status text has the engine's message**, or
none. -/
theorem step_failsWith {op : Op} (hop : isReceive op = false)
    (h : IoFails A net w op cause) :
    ∃ result, step A w ⟨op, net⟩ = replyCode result ∧
      FailsWith w.engine.error result := by
  cases h with
  | @request _ q _ _ hrequest hsocket hfails =>
      have hnote : ∀ w, q.note w ∈ statusTexts w.engine.error := by
        intro w
        rcases request_note hrequest with hq | hq <;> rw [hq] <;>
          simp [statusTexts, writeFailure, ackWriteFailure]
      exact ⟨_, step_request hrequest, transact_failsWith hnote hsocket hfails⟩
  | connect huri hengine hfails =>
      exact ⟨_, rfl, connect_failsWith huri hengine (engine_ok hengine).1 hfails⟩
  | receive => cases hop

/-- A receive that fails so has the recorded cause in its text. -/
theorem receive_names {message : Message} {r : Reply} {w' : World}
    (h : IoFails A net w (.receive message) cause)
    (hstep : step A w ⟨.receive message, net⟩ = some (r, w'))
    (hfail : r.code = some .failure) :
    w'.messenger.status.message = some
      (.lit "Unable to read the frame data from the underlying connection: " ++
        cause) := by
  cases h with
  | request hrequest => cases hrequest
  | @receive _ _ _ io' rc _ hsocket hwait hread hcause =>
      have hframe := readFrame_of_error hsocket hwait hread
      by_cases hrc : rc = .timeup
      · -- a timeout is not a failure for `stomp_receive`
        subst hrc
        have hrun : stompReceive A net message (w.load net) =
            some (.success, message, (w.load net).withIo io') :=
          Option.bind_eq_some_iff.mpr ⟨_, hframe, rfl⟩
        obtain ⟨rfl, -⟩ :=
          Prod.mk.inj (Option.some.inj (hstep.symm.trans (congrArg replyMessage hrun)))
        cases hfail
      · have hrun := congrArg replyMessage (receive_failed hframe hrc message)
        obtain ⟨-, rfl⟩ := Prod.mk.inj (Option.some.inj (hstep.symm.trans hrun))
        have hrecord : ((w.load net).withIo io').ioError.message = some cause := hcause
        show some _ = some _
        rw [hrecord]
        rfl

end Operations

/-! ## Naming the failure -/

/-- The same world with other error records of the two modules. -/
def withRecords (ioError engineError : Status) (w : World) : World :=
  { w with
    ioError := ioError
    engine := { w.engine with error := engineError } }

/-- Whatever the two records hold before the call: if it fails because `stomp_write` or
`stomp_read` does, the status text contains what was recorded for that. -/
def NamesCause (A : Apr) (w : World) (c : Call) : Prop :=
  ∀ ioError engineError cause r w',
    IoFails A c.net (withRecords ioError engineError w) c.op cause →
    step A (withRecords ioError engineError w) c = some (r, w') →
    r.code = some .failure →
      ∃ text, w'.messenger.status.message = some text ∧ cause.bytes <:+: text.bytes

section NamesCause

variable {A : Apr} {w : World} {cause : CString}

theorem namesCause_of_receive {c : Call} (hop : isReceive c.op = true) :
    NamesCause A w c := by
  obtain ⟨op, net⟩ := c
  cases op with
  | receive message =>
      intro ioError engineError cause r w' hfails hstep hfail
      exact ⟨_, receive_names hfails hstep hfail, List.suffix_append _ _ |>.isInfix⟩
  | _ => cases hop

/-- The call fails in the same way when the engine's record is another one. -/
theorem IoFails.withEngineError {net : Net} {op : Op} (h : IoFails A net w op cause)
    (st : Status) : IoFails A net (withRecords w.ioError st w) op cause := by
  cases h with
  | request hrequest hsocket hfails => exact .request hrequest hsocket hfails
  | connect huri hengine hfails =>
      obtain ⟨engine, hengine'⟩ := (engine_ok hengine).2 st
      exact .connect huri hengine' hfails
  | receive hsocket hwait hread hcause => exact .receive hsocket hwait hread hcause

/-- No text of the input and output layer is in a text without one. -/
private theorem not_infix_null {text : CString} (hcause : IsIoText cause)
    (htext : text ∈ statusTexts ⟨.success, none⟩) : ¬ cause.bytes <:+: text.bytes := by
  have hnone : ∀ b ∈ beginnings, ∀ text ∈ statusTexts ⟨.success, none⟩,
      ¬ b.bytes <:+: text.bytes := by
    decide +kernel
  intro hinfix
  obtain ⟨b, hb, hbegins⟩ := hcause
  exact hnone b hb text htext (hbegins.isInfix.trans hinfix)

/-- With a fresh record of the engine the others name nothing. -/
theorem not_namesCause {c : Call} (hop : isReceive c.op = false)
    (h : IoFails A c.net w c.op cause) : ¬ NamesCause A w c := by
  intro hnames
  have hfails := h.withEngineError ⟨.success, none⟩
  obtain ⟨_, hstep, w', text, rfl, htext, hmem⟩ := step_failsWith hop hfails
  obtain ⟨text', htext', hinfix⟩ := hnames _ _ _ _ _ hfails hstep rfl
  obtain rfl := Option.some.inj (htext.symm.trans htext')
  exact not_infix_null (h.isIoText hop) hmem hinfix

end NamesCause

/-- **The failure is named in every state of the records exactly by `stomp_receive`**,
among the calls in which `stomp_write` or `stomp_read` fails. -/
theorem namesCause_iff (A : Apr) (w : World) (c : Call) (cause : CString)
    (h : IoFails A c.net w c.op cause) :
    NamesCause A w c ↔ isReceive c.op = true := by
  refine ⟨fun hnames => ?_, namesCause_of_receive⟩
  cases hop : isReceive c.op with
  | true => rfl
  | false => exact absurd hnames (not_namesCause hop h)

/-- A messenger whose endpoint has been set. -/
def located : World :=
  { stompMessengerInit 0 with
    messenger :=
      { (stompMessengerInit 0).messenger with
        uri :=
          some (Apr.sample.uriParse (.lit "stomp://localhost:61613/queue/test")).2 } }

/-- A connect whose first send reports an end of file. -/
def unsentConnect : Call :=
  ⟨.connect none, { Net.quiet [] with sends := [.fail .eof] }⟩

/-- A messenger with a connection. -/
def connected : World :=
  { located with messenger :=
    { located.messenger with connection := some ((Net.quiet []).socket 0) } }

/-- A receive whose first receive call reports an end of file. -/
def unreadReceive : Call :=
  ⟨.receive stompMessageCreate, { Net.quiet [] with recvs := [.fail .eof] }⟩

private theorem ioFails_unsentConnect :
    ∃ cause, IoFails .sample unsentConnect.net located unsentConnect.op cause := by
  have hwrite : ∃ io', stompWrite .sample unsentConnect.net.order (connectFrame none)
      ⟨unsentConnect.net.socket 0, located.ioError, unsentConnect.net.endline⟩ =
        .error .eof io' := ⟨_, rfl⟩
  obtain ⟨io', hwrite⟩ := hwrite
  obtain ⟨cause, hcause, -⟩ := stompWrite_recorded hwrite
  exact ⟨cause, .connect rfl rfl (.write rfl hwrite hcause)⟩

/-- The condition decides between the two calls. -/
theorem namesCause_calls :
    (NamesCause .sample located unsentConnect ↔ isReceive unsentConnect.op = true) ∧
      (NamesCause .sample connected unreadReceive ↔
        isReceive unreadReceive.op = true) := by
  have hread : ∃ socket io', (connected.load unreadReceive.net).messenger.connection =
      some socket ∧ stompRead .sample ((connected.load unreadReceive.net).toIo
        unreadReceive.net.endline socket) = .error .eof io' := ⟨_, _, rfl, rfl⟩
  obtain ⟨socket, io', hsocket, hread⟩ := hread
  obtain ⟨cause, hcause, -⟩ := stompRead_recorded hread
  obtain ⟨cause', hfails⟩ := ioFails_unsentConnect
  obtain rfl := Option.some.inj hsocket
  exact ⟨namesCause_iff .sample located unsentConnect cause' hfails,
    namesCause_iff .sample connected unreadReceive cause
      (.receive rfl rfl hread hcause)⟩

/-- The status of that connect ends in the message of an engine that had no error. -/
theorem namesCause_fails :
    ¬ ∀ (A : Apr) (w : World) (c : Call), NamesCause A w c := by
  intro h
  obtain ⟨cause, hfails⟩ := ioFails_unsentConnect
  exact not_namesCause rfl hfails (h .sample located unsentConnect)

end LibStomp.Session.Causes
