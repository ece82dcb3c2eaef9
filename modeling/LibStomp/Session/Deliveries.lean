import LibStomp.Session.Unread

/-!
# Two consumers of one stream

`stomp_receive` and the wait for a receipt take frames off the same connection.
The wait takes the next frame whatever it is and refuses it if it is not a
RECEIPT; nothing keeps a message that it has taken for the next
`stomp_receive`.

## Main results

* `deliveries_run` — without timeouts and errors every frame is taken by one
  call, in stream order, and nothing is lost or refused exactly when each wait
  for a receipt meets one.
-/

namespace LibStomp.Session.Deliveries

open LibStomp.Model
open LibStomp.Verified.Framing
open LibStomp.Verified.Runs
open LibStomp.Session.Steps
open LibStomp.Session.Unread
open LibStomp.Stream.Grammar
open LibStomp.Stream.WholeFrames

/-- A call without timeouts and socket errors. -/
structure Undisturbed (w : World) (c : Call) : Prop extends Orderly w c where
  wait : waitOk c.net.waits = true
  sends : SendsOk c.net

/-- The event is a call that takes a frame. -/
def takesFrame (e : Event World Call Reply) : Bool :=
  reads e.pre.messenger e.call.op

/-- The frames are taken by the calls of the log one by one, and answered. -/
def TakenBy (log : Log) (frames : List WireFrame) : Prop :=
  List.Forall₂ (fun e f => Took e (some f)) (log.filter takesFrame) frames

/-- Every wait for a receipt meets a RECEIPT frame. -/
def ReceiptsMet (log : Log) (frames : List WireFrame) : Prop :=
  List.Forall₂
    (fun e f => receiptOf e.pre.messenger e.call.op ≠ none → isReceipt f = true)
    (log.filter takesFrame) frames

/-- Every MESSAGE frame is handed over once and in order, and every operation that asked
for a receipt succeeds. -/
def NothingLost (log : Log) (frames : List WireFrame) : Prop :=
  log.filterMap delivered = (frames.filter isMessage).map handed ∧
    ∀ e ∈ log, receiptOf e.pre.messenger e.call.op ≠ none →
      e.reply.code = some .success

/-! ## One call -/

theorem takesFrame_of_took {e : Event World Call Reply}
    {mark : Option WireFrame} (h : Took e mark)
    (hu : Undisturbed e.pre e.call) : takesFrame e = mark.isSome := by
  unfold takesFrame
  cases h with
  | nothing hidle =>
      rcases hidle with hreads | hwait | ⟨-, hsends⟩
      · exact hreads
      · cases hu.wait.symm.trans hwait
      · exact absurd hu.sends hsends
  | received _ hop =>
      rw [hop]
      rfl
  | waited _ hreceipt =>
      rw [reads, Option.isSome_iff_ne_none.mpr hreceipt, Bool.or_true]
      rfl

/-- A wait succeeds exactly when it meets a receipt. -/
theorem success_iff_isReceipt {e : Event World Call Reply} {f : WireFrame}
    (h : Took e (some f))
    (hreceipt : receiptOf e.pre.messenger e.call.op ≠ none) :
    e.reply.code = some .success ↔ isReceipt f = true := by
  cases h with
  | received _ hop =>
      rw [hop] at hreceipt
      exact absurd rfl hreceipt
  | waited _ _ hreply =>
      rw [hreply]
      cases isReceipt f <;> simp

/-! ## Logs -/

section Logs

variable {log : Log} {marks : List (Option WireFrame)}
    (h : List.Forall₂ Took log marks)
variable (hu : ∀ e ∈ log, Undisturbed e.pre e.call)
include h hu

theorem takenBy_of_took : TakenBy log (taken marks) := by
  induction h with
  | nil => exact .nil
  | @cons e mark log marks htook _ ih =>
      have hrest := ih fun e he => hu e (by simp [he])
      have htakes := takesFrame_of_took htook (hu e (by simp))
      cases mark with
      | none => rwa [TakenBy, List.filter_cons_of_neg (by simp [htakes])]
      | some f =>
          rw [TakenBy, List.filter_cons_of_pos (by simp [htakes])]
          exact .cons htook hrest

theorem waitsMeetReceipts_iff :
    WaitsMeetReceipts log marks ↔ ReceiptsMet log (taken marks) := by
  induction h with
  | nil => exact ⟨fun _ => .nil, fun _ => .nil⟩
  | @cons e mark log marks htook _ ih =>
      have hrest := ih fun e he => hu e (by simp [he])
      have htakes := takesFrame_of_took htook (hu e (by simp))
      rw [WaitsMeetReceipts, List.forall₂_cons, ← WaitsMeetReceipts, hrest]
      cases mark with
      | none =>
          rw [ReceiptsMet, ReceiptsMet,
            List.filter_cons_of_neg (by simp [htakes])]
          simp
      | some f =>
          rw [ReceiptsMet, ReceiptsMet,
            List.filter_cons_of_pos (by simp [htakes])]
          simp

/-- All operations that asked for a receipt succeed exactly when each has met one. -/
theorem successes_iff :
    (∀ e ∈ log, receiptOf e.pre.messenger e.call.op ≠ none →
      e.reply.code = some .success) ↔
      WaitsMeetReceipts log marks := by
  induction h with
  | nil => simp [WaitsMeetReceipts]
  | @cons e mark log marks htook _ ih =>
      have hrest := ih fun e he => hu e (by simp [he])
      have htakes := takesFrame_of_took htook (hu e (by simp))
      rw [List.forall_mem_cons, hrest, WaitsMeetReceipts, WaitsMeetReceipts,
        List.forall₂_cons]
      refine and_congr_left fun _ => forall_congr' fun hreceipt => ?_
      cases mark with
      | none =>
          rw [takesFrame, reads, Option.isSome_iff_ne_none.mpr hreceipt,
            Bool.or_true] at htakes
          cases htakes
      | some f =>
          rw [success_iff_isReceipt htook hreceipt]
          simp

end Logs

/-! ## Runs -/

/-- **Each frame is taken by one call, in stream order**: a receive hands a message over,
a wait succeeds on a receipt and refuses everything else.  So nothing is lost exactly
when each wait meets a receipt. -/
theorem deliveries_run (A : Apr) (w w' : World) (log : Log)
    (h : Run (step A) w log w')
    (socket : Socket) (hsocket : w.messenger.connection = some socket)
    (hundisturbed : ∀ e ∈ log, Undisturbed e.pre e.call) (fs : List WireFrame)
    (future : Bytes)
    (hstream : socket.inbox ++ arrivals log ++ future =
      streamOf WireFrame.bytes fs) :
    ∃ frames unread socket', fs = frames ++ unread ∧
      w'.messenger.connection = some socket' ∧
      socket'.inbox ++ future = streamOf WireFrame.bytes unread ∧
        TakenBy log frames ∧
        (NothingLost log frames ↔ ReceiptsMet log frames) := by
  obtain ⟨marks, unread, socket', hmarks, hfs, hsocket', hunread⟩ :=
    took_run h (fun e he => (hundisturbed e he).toOrderly) hsocket hstream
  refine ⟨taken marks, unread, socket', hfs, hsocket', hunread,
    takenBy_of_took hmarks hundisturbed, ?_⟩
  rw [← waitsMeetReceipts_iff hmarks hundisturbed, NothingLost,
    successes_iff hmarks hundisturbed]
  exact ⟨fun hnothing => hnothing.2,
    fun hmeets => ⟨deliveries_of_took hmarks hmeets, hmeets⟩⟩

/-- A subscription that asks for the receipt 1, answered by these bytes. -/
def subscribeCall (answer : Bytes) : Call :=
  ⟨.subscribe (some ⟨1, 7⟩), .quiet answer⟩

def receiveCall : Call := ⟨.receive stompMessageCreate, .quiet []⟩

/-- Where the next frame has no length, arrivals alone disturb nothing. -/
private theorem undisturbed_quiet {w : World} {op : Op}
    {arrivals inbox t : Bytes} {f : WireFrame}
    (hop : ∀ header, op ≠ .connect header)
    (hinbox : w.messenger.connection.map (·.inbox) = some inbox)
    (hstart : inbox ++ arrivals = f.bytes ++ t) (hunwrapped : Unwrapped f)
    (hnone : contentLength f.lines = none) :
    Undisturbed w ⟨op, .quiet arrivals⟩ :=
  ⟨orderly_of_uncounted hop (fun turn ht => by cases ht) hinbox hstart hunwrapped
      hnone, rfl,
    fun turn ht => by cases ht⟩

/-- The receipt comes first, the message after it. -/
def servedCalls : List Call :=
  [subscribeCall (firstReceipt.bytes ++ greeting.bytes), receiveCall]

theorem deliveries_servedCalls :
    ∃ (log : Log) (frames unread : List WireFrame),
      log.map Event.call = servedCalls ∧
      [firstReceipt, greeting] = frames ++ unread ∧ TakenBy log frames ∧
        (NothingLost log frames ↔ ReceiptsMet log frames) := by
  have hrun : (exec (step .sample) opened servedCalls).map (fun p =>
      p.1.map fun e => e.pre.messenger.connection.map (·.inbox)) =
        some [some [], some greeting.bytes] := by
    decide +kernel
  obtain ⟨⟨log, w'⟩, hexec, hinboxes⟩ := Option.map_eq_some_iff.mp hrun
  have hcalls := exec_calls hexec
  obtain ⟨e₁, es, rfl, he₁, hes⟩ := List.map_eq_cons_iff.mp hcalls
  obtain ⟨e₂, rfl, he₂⟩ := List.map_eq_singleton_iff.mp hes
  obtain ⟨hinbox₁, hinbox₂⟩ := List.cons.inj hinboxes
  obtain ⟨socket, hsocket, hinbox⟩ := Option.map_eq_some_iff.mp opened_inbox
  have hundisturbed : ∀ e ∈ [e₁, e₂], Undisturbed e.pre e.call := by
    intro e he
    rcases List.mem_cons.mp he with rfl | he
    · rw [he₁]
      exact undisturbed_quiet (fun header hc => by cases hc) hinbox₁
        (t := greeting.bytes) rfl
        (by decide : Unwrapped firstReceipt) (by decide)
    · rw [List.mem_singleton.mp he, he₂]
      exact undisturbed_quiet (fun header hc => by cases hc)
        (List.singleton_inj.mp hinbox₂)
        (t := []) rfl (by decide : Unwrapped greeting) (by decide)
  have hstream : socket.inbox ++ arrivals [e₁, e₂] ++ [] =
      streamOf WireFrame.bytes [firstReceipt, greeting] := by
    rw [hinbox]
    simp [arrivals, he₁, he₂, subscribeCall, receiveCall, Net.quiet]
  obtain ⟨frames, unread, _, hfs, -, -, htaken, hiff⟩ :=
    deliveries_run .sample opened w' [e₁, e₂] (exec_run hexec) socket hsocket
      hundisturbed
      [firstReceipt, greeting] [] hstream
  exact ⟨[e₁, e₂], frames, unread, hcalls, hfs, htaken, hiff⟩

/-- Each operation whose receipt the broker has sent succeeds. -/
def ConfirmedSucceed (log : Log) (fs : List WireFrame) : Prop :=
  ∀ e ∈ log, ∀ receipt, receiptOf e.pre.messenger e.call.op = some receipt →
    (∃ f ∈ fs, isReceipt f = true ∧
      receiptId f = some (aprItoa (cInt receipt.toNat))) →
      e.reply.code = some .success

/-- The message comes before the receipt. -/
def lossyCall : Call := subscribeCall (greeting.bytes ++ firstReceipt.bytes)

/-- The message that comes before the receipt of the subscription is lost. -/
theorem deliveries_run_fails :
    ¬ ∀ (A : Apr) (w w' : World) (log : Log), Run (step A) w log w' →
      (∃ options before, Run (step A) (stompMessengerInit options) before w) →
      ∀ socket, w.messenger.connection = some socket →
        (∀ e ∈ log, Undisturbed e.pre e.call) → ∀ fs future,
          socket.inbox ++ arrivals log ++ future = streamOf WireFrame.bytes fs →
            (∀ f ∈ fs, isMessage f = true ∨ isReceipt f = true) →
              ∃ frames unread socket', fs = frames ++ unread ∧
                w'.messenger.connection = some socket' ∧
                socket'.inbox ++ future = streamOf WireFrame.bytes unread ∧
                log.filterMap delivered = (frames.filter isMessage).map handed ∧
                ConfirmedSucceed log fs := by
  intro h
  have hrun : (exec (step .sample) opened [lossyCall]).map (fun p =>
      (p.1.filterMap delivered, p.2.messenger.connection.map (·.inbox))) =
        some ([], some firstReceipt.bytes) := by
    decide +kernel
  obtain ⟨⟨log, w'⟩, hexec, hpair⟩ := Option.map_eq_some_iff.mp hrun
  obtain ⟨hnone, hinbox'⟩ := Prod.mk.inj hpair
  obtain ⟨r, hstep, rfl⟩ := exec_singleton hexec
  obtain ⟨socket, hsocket, hinbox⟩ := Option.map_eq_some_iff.mp opened_inbox
  obtain ⟨before, hbefore⟩ := opened_reachable
  obtain ⟨socket₁, hsocket₁, hinbox₁⟩ := Option.map_eq_some_iff.mp hinbox'
  have hundisturbed :
      ∀ e ∈ [(⟨opened, lossyCall, r, w'⟩ : Event World Call Reply)],
      Undisturbed e.pre e.call := by
    intro e he
    rw [List.mem_singleton.mp he]
    exact undisturbed_quiet (fun header hc => by cases hc) opened_inbox rfl
      (by decide : Unwrapped greeting) (by decide)
  have hstream : socket.inbox ++ arrivals [⟨opened, lossyCall, r, w'⟩] ++ [] =
      streamOf WireFrame.bytes [greeting, firstReceipt] := by
    rw [hinbox]
    simp [arrivals, lossyCall, subscribeCall, Net.quiet]
  have hkinds : ∀ f ∈ [greeting, firstReceipt],
      isMessage f = true ∨ isReceipt f = true := by
    decide
  obtain ⟨frames, unread, socket', hfs, hsocket', hunread, hdelivered, -⟩ :=
    h .sample opened w' _ (.single hstep) ⟨0, before, hbefore⟩ socket hsocket
      hundisturbed
      [greeting, firstReceipt] [] hstream hkinds
  rw [hnone] at hdelivered
  cases frames with
  | nil =>
      -- no frame was taken, but the message is gone
      obtain rfl := Option.some.inj (hsocket₁.symm.trans hsocket')
      obtain rfl : [greeting, firstReceipt] = unread := hfs
      rw [hinbox₁] at hunread
      exact absurd hunread (by decide)
  | cons f frames =>
      obtain ⟨rfl, -⟩ := List.cons.inj hfs
      cases hdelivered

end LibStomp.Session.Deliveries
