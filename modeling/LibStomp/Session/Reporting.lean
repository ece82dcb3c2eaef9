import LibStomp.Session.Steps

/-!
# Failures and the status object

`stomp_messenger.h` promises for every operation that upon failure it sets the
error details on the status member of the messenger.  Every failure exit does,
except one: `stomp_receive` returns a failure for a frame that is not a MESSAGE
and leaves the status as it was.

That a call set the status, and not an earlier one, is expressed by independence:
the state the call leaves is the same whatever the status was before it.

## Main results

* `failures_reported_iff` — in a run, every failure is reported by the call that
  returns it if and only if no `stomp_receive` reads a complete frame that is not
  a MESSAGE.
-/

namespace LibStomp.Session.Reporting

open LibStomp.Model
open LibStomp.Verified.Runs
open LibStomp.Session.Steps

/-- The same world with another status. -/
def withStatus (st : Status) (w : World) : World :=
  { w with messenger := { w.messenger with status := st } }

@[simp] theorem withStatus_connection (st : Status) (w : World) :
    (withStatus st w).messenger.connection = w.messenger.connection := rfl

/-- The outcome of a call does not depend on the status, which it does not set. -/
private def carry {α : Type} (st : Status) (x : Option (α × World)) :
    Option (α × World) :=
  x.map fun (a, w) => (a, withStatus st w)

/-! ## Calls on the connection neither read nor set the status -/

private theorem onConnection_withStatus {α : Type} (endline : UInt8) (x : IoM α)
    (st : Status) (w : World) :
    (withStatus st w).onConnection endline x =
      carry st (w.onConnection endline x) := by
  unfold World.onConnection
  rw [withStatus_connection]
  cases w.messenger.connection with
  | none => rfl
  | some socket =>
      have hio : (withStatus st w).toIo endline socket =
          w.toIo endline socket := rfl
      simp only [hio]
      cases x (w.toIo endline socket) <;> rfl

private theorem canRead_withStatus (endline : UInt8) (st : Status) (w : World) :
    (withStatus st w).canRead endline = carry st (w.canRead endline) := by
  unfold World.canRead
  rw [withStatus_connection]
  cases w.messenger.connection with
  | none => rfl
  | some socket => rfl

private theorem readFrame_withStatus (A : Apr) (endline : UInt8) (st : Status)
    (w : World) :
    (withStatus st w).readFrame A endline = carry st (w.readFrame A endline) := by
  unfold World.readFrame
  rw [canRead_withStatus]
  cases hready : w.canRead endline with
  | none => rfl
  | some p =>
      obtain ⟨ready, w₁⟩ := p
      cases ready with
      | false => rfl
      | true =>
          show ((withStatus st w₁).onConnection endline (stompRead A)).bind _ =
            carry st ((w₁.onConnection endline (stompRead A)).bind _)
          rw [onConnection_withStatus]
          cases w₁.onConnection endline (stompRead A) with
          | none => rfl
          | some q =>
              obtain ⟨stat, w₂⟩ := q
              cases stat <;> rfl

private theorem write_withStatus (A : Apr) (net : Net) (frame : Frame) (st : Status)
    (w : World) :
    (withStatus st w).write A net frame = carry st (w.write A net frame) := by
  unfold World.write
  rw [onConnection_withStatus]
  cases hsocket : w.messenger.connection with
  | none =>
      have hnone : (withStatus st w).messenger.connection = none := hsocket
      rw [hnone]
      rfl
  | some socket =>
      have hsome : (withStatus st w).messenger.connection = some socket := hsocket
      rw [hsome]
      show (if staysInside A net.order frame (w.toIo net.endline socket) then _
        else _) = carry st (if _ then _ else _)
      split <;> rfl

/-! ## Failures override the status -/

private theorem processReceipt_withStatus {A : Apr} {net : Net} {w w' : World}
    (h : stompProcessReceipt A net w = some (.failure, w')) (st : Status) :
    stompProcessReceipt A net (withStatus st w) = some (.failure, w') := by
  unfold stompProcessReceipt at h ⊢
  rw [readFrame_withStatus]
  obtain ⟨⟨reading, w₁⟩, hread, hrest⟩ := Option.bind_eq_some_iff.mp h
  rw [hread]
  cases reading with
  | notReady => exact hrest
  | failed rc => exact hrest
  | frame frame =>
      show (if !frame.command.startsWith (.lit "RECEIPT") then _ else _) = _
      simp only [] at hrest
      split at hrest
      · rename_i hreceipt
        rw [if_pos hreceipt]
        exact hrest
      · cases hrest

private theorem transact_withStatus {A : Apr} {net : Net} {note : World → CString}
    {frame : Frame} {receipt : Option UInt32} {w w' : World}
    (h : transact A net note frame receipt w = some (.failure, w')) (st : Status)
    (hnote : ∀ w, note (withStatus st w) = note w) :
    transact A net note frame receipt (withStatus st w) =
      some (.failure, w') := by
  unfold transact at h ⊢
  rw [write_withStatus]
  obtain ⟨⟨stat, w₁⟩, hwrite, hrest⟩ := Option.bind_eq_some_iff.mp h
  rw [hwrite]
  cases stat with
  | error rc =>
      show (withStatus st w₁).failure (note (withStatus st w₁)) = _
      rw [hnote]
      exact hrest
  | ok _ =>
      cases receipt with
      | none => cases hrest
      | some receipt =>
          show (if 0 < receipt then stompProcessReceipt A net (withStatus st w₁)
            else _) = _
          simp only [] at hrest
          split at hrest
          · rename_i hpos
            rw [if_pos hpos]
            exact processReceipt_withStatus hrest st
          · cases hrest

private theorem setEndpoint_withStatus {A : Apr} {uri : CString} {w w' : World}
    (h : stompSetEndpoint A uri w = some (.failure, w')) (st : Status) :
    stompSetEndpoint A uri (withStatus st w) = some (.failure, w') := by
  unfold stompSetEndpoint at h ⊢
  simp only [] at h ⊢
  split at h
  · rename_i hstat
    rw [if_pos hstat]
    exact h
  · rename_i hstat
    rw [if_neg hstat]
    cases hpath : (A.uriParse uri).2.path with
    | none =>
        rw [hpath] at h
        exact h
    | some path =>
        rw [hpath] at h
        simp only [] at h ⊢
        split at h
        · rename_i hempty
          rw [if_pos hempty]
          exact h
        · cases h

private theorem connect_withStatus {A : Apr} {net : Net}
    {header : Option ConnectionHeader}
    {w w' : World} (h : stompConnect A net header w = some (.failure, w'))
    (st : Status) :
    stompConnect A net header (withStatus st w) = some (.failure, w') := by
  unfold stompConnect at h ⊢
  obtain ⟨uri, huri, h⟩ := Option.bind_eq_some_iff.mp h
  have huri' : (withStatus st w).messenger.uri = some uri := huri
  have hcreate :
      stompEngineConnect A net.plan uri.hostname (withStatus st w).engine =
      stompEngineConnect A net.plan uri.hostname w.engine := rfl
  refine Option.bind_eq_some_iff.mpr ⟨uri, huri', ?_⟩
  rw [hcreate]
  cases hengine : stompEngineConnect A net.plan uri.hostname w.engine with
  | error rc engine =>
      rw [hengine] at h
      exact h
  | ok descriptor engine =>
      rw [hengine] at h
      obtain ⟨⟨stat, w₁⟩, hwrite, hrest⟩ := Option.bind_eq_some_iff.mp h
      have hwrite' := write_withStatus A net (connectFrame header) st
        { w with
          engine := engine
          messenger :=
            { w.messenger with connection := some (net.socket descriptor) } }
      rw [hwrite] at hwrite'
      refine Option.bind_eq_some_iff.mpr ⟨_, hwrite', ?_⟩
      cases stat with
      | error rc => exact hrest
      | ok _ =>
          obtain ⟨⟨reading, w₂⟩, hread, hfinish⟩ :=
            Option.bind_eq_some_iff.mp hrest
          have hread' := readFrame_withStatus A net.endline st w₁
          rw [hread] at hread'
          refine Option.bind_eq_some_iff.mpr ⟨_, hread', ?_⟩
          cases reading with
          | notReady => exact hfinish
          | failed rc => exact hfinish
          | frame frame =>
              simp only [] at hfinish ⊢
              split at hfinish
              · rename_i hreply
                rw [if_pos hreply]
                exact hfinish
              · cases hfinish

/-- The call reads a complete frame that is not a MESSAGE into a message object. -/
def ReadsForeign (A : Apr) (w : World) (c : Call) : Prop :=
  ∃ message frame w', c.op = .receive message ∧
    (w.load c.net).readFrame A c.net.endline = some (.frame frame, w') ∧
    frame.command.startsWith (.lit "MESSAGE") = false

/-- A receive fails for a foreign frame, and then merges it, or it sets the status
from what the input layer reported. -/
private theorem receive_failure {A : Apr} {net : Net} {message message' : Message}
    {w w' : World}
    (h : stompReceive A net message w = some (.failure, message', w')) :
    (∃ frame w₁, w.readFrame A net.endline = some (.frame frame, w₁) ∧
      frame.command.startsWith (.lit "MESSAGE") = false ∧
      message' = messageOf message frame ∧ w' = merge frame w₁) ∨
    ∃ rc w₁ text, w.readFrame A net.endline = some (.failed rc, w₁) ∧
      rc ≠ .timeup ∧
      message' = message ∧ w' = w₁.setStatus .failure text ∧
      text = .lit
      "Unable to read the frame data from the underlying connection: " ++
        formatArg w₁.ioError.message := by
  unfold stompReceive at h
  obtain ⟨⟨reading, w₁⟩, hread, hrest⟩ := Option.bind_eq_some_iff.mp h
  cases reading with
  | notReady => cases hrest
  | failed rc =>
      have hrc : rc ≠ .timeup := by
        rintro rfl
        cases hrest
      refine .inr ⟨rc, w₁, _, hread, hrc, ?_, ?_, rfl⟩
      · cases rc <;> cases hrest <;> rfl
      · cases rc <;> cases hrest <;> rfl
  | frame frame =>
      simp only [] at hrest
      cases hcommand : frame.command.startsWith (.lit "MESSAGE") with
      | true =>
          rw [hcommand] at hrest
          cases hrest
      | false =>
          rw [hcommand] at hrest
          obtain ⟨-, hpair⟩ := Prod.mk.inj (Option.some.inj hrest)
          obtain ⟨rfl, rfl⟩ := Prod.mk.inj hpair
          exact .inl ⟨frame, w₁, hread, hcommand, rfl, rfl⟩

/-- A receive whose reading fails otherwise than by a timeout. -/
theorem receive_failed {A : Apr} {net : Net} {w w₁ : World}
    {rc : AprError}
    (hread : w.readFrame A net.endline = some (.failed rc, w₁))
    (hrc : rc ≠ .timeup) (message : Message) :
    stompReceive A net message w = some (.failure, message, w₁.setStatus .failure
      (.lit "Unable to read the frame data from the underlying connection: " ++
        formatArg w₁.ioError.message)) := by
  refine Option.bind_eq_some_iff.mpr ⟨_, hread, ?_⟩
  cases rc <;> first | rfl | exact absurd rfl hrc

private theorem receive_foreign {A : Apr} {net : Net} {w w₁ : World}
    {frame : Frame}
    (hread : w.readFrame A net.endline = some (.frame frame, w₁))
    (hcommand : frame.command.startsWith (.lit "MESSAGE") = false)
    (message : Message) :
    stompReceive A net message w =
      some (.failure, messageOf message frame, merge frame w₁) := by
  refine Option.bind_eq_some_iff.mpr ⟨_, hread, ?_⟩
  simp only [hcommand]
  rfl

/-! ## One call -/

/-- If the call returns a failure, it has set the status to a failure with a text,
and it would have left the same state whatever the status had been. -/
def FailureReported (A : Apr) (w : World) (c : Call) (r : Reply) (w' : World) :
    Prop :=
  r.code = some .failure →
    (∃ text, w'.messenger.status = ⟨.failure, some text⟩) ∧
      ∀ st, step A (withStatus st w) c = some (r, w')

section OneCall

variable {A : Apr} {w w' : World} {c : Call} {r : Reply}
variable (h : step A w c = some (r, w'))
include h

/-- A failure other than the one for a foreign frame leaves a failure status. -/
private theorem status_of_failure (hforeign : ¬ ReadsForeign A w c)
    (hfail : r.code = some .failure) :
    ∃ text, w'.messenger.status = ⟨.failure, some text⟩ := by
  have hstepped := stepped_of_step h
  obtain ⟨op, net⟩ := c
  generalize hop : (⟨op, net⟩ : Call).op = op' at hstepped
  cases hstepped with
  | request _ hrun =>
      obtain rfl := Option.some.inj hfail
      obtain ⟨socket, -, htransacted⟩ := transacted_of_transact hrun
      cases htransacted with
      | unwritten => exact ⟨_, rfl⟩
      | waited _ _ hwaited =>
          cases hwaited with
          | refused _ _ text => exact ⟨text, rfl⟩
  | connect hrun =>
      obtain rfl := Option.some.inj hfail
      cases connected_of_connect hrun with
      | unreachable _ text => exact ⟨text, rfl⟩
      | unwritten text => exact ⟨text, rfl⟩
      | refused text => exact ⟨text, rfl⟩
  | receive hrun =>
      obtain rfl := Option.some.inj hfail
      obtain rfl := hop
      rcases receive_failure hrun with ⟨frame, w₁, hread, hcommand, -, -⟩ |
        ⟨rc, w₁, text, -, -, -, rfl, -⟩
      · exact absurd ⟨_, frame, w₁, rfl, hread, hcommand⟩ hforeign
      · exact ⟨text, rfl⟩
  | setEndpoint hrun =>
      obtain rfl := Option.some.inj hfail
      obtain ⟨st, rfl, hst⟩ := setEndpoint_cases hrun
      exact (hst.resolve_left fun hno => by cases hno).2
  | noHeader => exact ⟨_, rfl⟩
  | exchangeAdd => cases hfail
  | exchangeClear => cases hfail

/-- Such a call leaves the same state whatever the status was. -/
private theorem step_withStatus (hforeign : ¬ ReadsForeign A w c)
    (hfail : r.code = some .failure) (st : Status) :
    step A (withStatus st w) c = some (r, w') := by
  have hstepped := stepped_of_step h
  obtain ⟨op, net⟩ := c
  generalize hop : (⟨op, net⟩ : Call).op = op' at hstepped
  obtain rfl : op = op' := hop
  cases hstepped with
  | @request _ q _ _ hrequest hrun =>
      obtain rfl := Option.some.inj hfail
      have hnote : ∀ w, q.note (withStatus st w) = q.note w := fun w => by
        rcases request_note hrequest with hq | hq <;> rw [hq] <;> rfl
      have hrequest' : request (withStatus st w).messenger op = some q := hrequest
      rw [step_request hrequest']
      exact congrArg replyCode (transact_withStatus hrun st hnote)
  | connect hrun =>
      obtain rfl := Option.some.inj hfail
      exact congrArg replyCode (connect_withStatus hrun st)
  | receive hrun =>
      obtain rfl := Option.some.inj hfail
      rcases receive_failure hrun with ⟨frame, w₁, hread, hcommand, -, -⟩ |
        ⟨rc, w₁, text, hread, hrc, rfl, rfl, rfl⟩
      · exact absurd ⟨_, frame, w₁, rfl, hread, hcommand⟩ hforeign
      · have hread' := readFrame_withStatus A net.endline st (w.load net)
        rw [hread] at hread'
        exact congrArg replyMessage (receive_failed hread' hrc _)
  | setEndpoint hrun =>
      obtain rfl := Option.some.inj hfail
      exact congrArg replyCode (setEndpoint_withStatus hrun st)
  | noHeader => rfl
  | exchangeAdd => cases hfail
  | exchangeClear => cases hfail

/-- A foreign frame is a failure that leaves the status alone. -/
private theorem not_reported_of_foreign (hforeign : ReadsForeign A w c) :
    ¬ FailureReported A w c r w' := by
  intro hreported
  obtain ⟨op, net⟩ := c
  obtain ⟨message, frame, w₁, rfl, hread, hcommand⟩ := hforeign
  have hrun := congrArg replyMessage (receive_foreign hread hcommand message)
  obtain ⟨rfl, rfl⟩ := Prod.mk.inj (Option.some.inj (h.symm.trans hrun))
  obtain ⟨⟨text, htext⟩, hsame⟩ := hreported rfl
  have hread' := readFrame_withStatus A net.endline ⟨.success, none⟩ (w.load net)
  rw [hread] at hread'
  have hrun' := congrArg replyMessage (receive_foreign hread' hcommand message)
  have hpost :=
    (Prod.mk.inj (Option.some.inj ((hsame ⟨.success, none⟩).symm.trans hrun'))).2
  have hstatus : (merge frame w₁).messenger.status = ⟨.success, none⟩ :=
    congrArg (fun w => w.messenger.status) hpost
  rw [htext] at hstatus
  cases hstatus

theorem failureReported_iff : FailureReported A w c r w' ↔ ¬ ReadsForeign A w c :=
  ⟨fun hreported hforeign => not_reported_of_foreign h hforeign hreported,
    fun hforeign hfail =>
    ⟨status_of_failure h hforeign hfail, step_withStatus h hforeign hfail⟩⟩

end OneCall

/-! ## Runs -/

/-- **Every failure of a run is reported by the call that returns it exactly when
no receive of the run reads a foreign frame.** -/
theorem failures_reported_iff (A : Apr) (options : UInt32) (log : Log)
    (w : World) (h : Run (step A) (stompMessengerInit options) log w) :
    (∀ e ∈ log, FailureReported A e.pre e.call e.reply e.post) ↔
      ∀ e ∈ log, ¬ ReadsForeign A e.pre e.call := by
  have hevent :=
    h.forall_event (P := fun e => FailureReported A e.pre e.call e.reply e.post ↔
    ¬ ReadsForeign A e.pre e.call) fun e he => failureReported_iff he
  exact forall₂_congr hevent

/-- A session in which the broker answers with an ERROR frame. -/
def errorCalls : List Call :=
  opening ++
    [⟨.receive stompMessageCreate, .quiet (ascii "ERROR\n\n" ++ [nul, lf])⟩]

private theorem errorCalls_run :
    ∃ (log : Log) (w : World), Run (step .sample) (stompMessengerInit 0) log w ∧
      log.getLast?.map (fun e => (e.reply.code, e.post.messenger.status)) =
        some (some .failure, ⟨.success, none⟩) := by
  have hlast :
      (exec (step .sample) (stompMessengerInit 0) errorCalls).map (fun p =>
      p.1.getLast?.map fun e => (e.reply.code, e.post.messenger.status)) =
        some (some (some .failure, ⟨.success, none⟩)) := by
    decide +kernel
  obtain ⟨⟨log, w⟩, hexec, hstatus⟩ := Option.map_eq_some_iff.mp hlast
  exact ⟨log, w, exec_run hexec, hstatus⟩

theorem failures_reported_errorCalls :
    ∃ log : Log, log ≠ [] ∧
      ((∀ e ∈ log, FailureReported .sample e.pre e.call e.reply e.post) ↔
      ∀ e ∈ log, ¬ ReadsForeign .sample e.pre e.call) := by
  obtain ⟨log, w, hrun, hlast⟩ := errorCalls_run
  refine ⟨log, ?_, failures_reported_iff .sample 0 log w hrun⟩
  rintro rfl
  cases hlast

/-- The failure for the ERROR frame leaves a status that shows success. -/
theorem failures_reported_fails :
    ¬ ∀ (A : Apr) (options : UInt32) (log : Log) (w : World),
      Run (step A) (stompMessengerInit options) log w →
        ∀ e ∈ log, FailureReported A e.pre e.call e.reply e.post := by
  intro h
  obtain ⟨log, w, hrun, hlast⟩ := errorCalls_run
  obtain ⟨e, he, hpair⟩ := Option.map_eq_some_iff.mp hlast
  obtain ⟨hcode, hstatus⟩ := Prod.mk.inj hpair
  obtain ⟨⟨text, htext⟩, -⟩ :=
    h .sample 0 log w hrun e (List.mem_of_getLast? he) hcode
  rw [hstatus] at htext
  cases htext

end LibStomp.Session.Reporting
