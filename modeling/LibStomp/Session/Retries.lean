import LibStomp.Session.Unread

/-!
# Receiving again after a timeout

An application that calls `stomp_receive` until a message is there relies on a
timeout leaving the stream where it was.  A timeout of the wait does.  A timeout
of a receive inside a frame does not: the bytes of the frame read so far are
gone, the call returns success with the message object as it was, and the next
call starts in the middle of the frame.

## Main results

* `retries_inStep` — if timeouts strike the waits only, the messages handed over
  are those of the frames the broker sends, in order.
-/

namespace LibStomp.Session.Retries

open LibStomp.Model
open LibStomp.Verified.Framing
open LibStomp.Verified.Runs
open LibStomp.Session.Steps
open LibStomp.Session.Unread
open LibStomp.Stream.Grammar
open LibStomp.Stream.WholeFrames

/-- The calls of the log whose wait succeeds. -/
def readyCalls (log : Log) : Nat := log.countP fun e => waitOk e.call.net.waits

/-- The first messages of the stream have been handed over, each once and in order,
and the stream stands at the next frame. -/
def InStep (fs : List WireFrame) (future : Bytes) (log : Log) (w' : World)
    (n : Nat) : Prop :=
  n ≤ fs.length ∧ log.filterMap delivered = (fs.take n).map handed ∧
    ∃ socket', w'.messenger.connection = some socket' ∧
      socket'.inbox ++ future = streamOf WireFrame.bytes (fs.drop n)

private theorem receiptOf_receive {m : Messenger} {op : Op}
    (h : isReceive op = true) :
    receiptOf m op = none := by
  cases op <;> first | rfl | cases h

/-- A receive takes a frame exactly when its wait succeeds. -/
private theorem ready_of_took {e : Event World Call Reply}
    {mark : Option WireFrame}
    (h : Took e mark) (he : isReceive e.call.op = true) :
    waitOk e.call.net.waits = mark.isSome := by
  cases h with
  | nothing hidle =>
      rcases hidle with hreads | hwait | ⟨hno, -⟩
      · rw [reads, he] at hreads
        cases hreads
      · exact hwait
      · cases he.symm.trans hno
  | received hwait => exact hwait
  | waited hwait => exact hwait

private theorem receives_of_took {log : Log} {marks : List (Option WireFrame)}
    (h : List.Forall₂ Took log marks)
    (hreceive : ∀ e ∈ log, isReceive e.call.op = true) :
    WaitsMeetReceipts log marks ∧ readyCalls log = (taken marks).length := by
  induction h with
  | nil => exact ⟨.nil, rfl⟩
  | @cons e mark log marks htook _ ih =>
      obtain ⟨hmeets, hcount⟩ := ih fun e he => hreceive e (by simp [he])
      have he := hreceive e (by simp)
      have hwait := ready_of_took htook he
      refine ⟨.cons (fun hm => absurd (receiptOf_receive he) hm) hmeets, ?_⟩
      rw [readyCalls] at hcount ⊢
      cases mark with
      | none => rw [List.countP_cons_of_neg (by simp [hwait]), hcount]; rfl
      | some f => rw [List.countP_cons_of_pos (by simp [hwait]), hcount]; rfl

/-! ## Runs -/

/-- **As long as no receive fails inside a frame, receiving stays in step with the
stream**: as many messages have been handed over as waits have succeeded. -/
theorem retries_inStep (A : Apr) (w w' : World) (log : Log)
    (h : Run (step A) w log w')
    (socket : Socket) (hsocket : w.messenger.connection = some socket)
    (hreceive : ∀ e ∈ log, isReceive e.call.op = true) (fs : List WireFrame)
    (future : Bytes)
    (hstream : socket.inbox ++ arrivals log ++ future =
      streamOf WireFrame.bytes fs)
    (hmessages : ∀ f ∈ fs, isMessage f = true)
    (horderly : ∀ e ∈ log, Orderly e.pre e.call) :
    InStep fs future log w' (readyCalls log) := by
  obtain ⟨marks, unread, socket', hmarks, rfl, hsocket', hunread⟩ :=
    took_run h horderly hsocket hstream
  obtain ⟨hmeets, hcount⟩ := receives_of_took hmarks hreceive
  have hall : (taken marks).filter isMessage = taken marks :=
    List.filter_eq_self.mpr fun f hf => hmessages f (List.mem_append_left _ hf)
  refine ⟨?_, ?_, socket', hsocket', ?_⟩
  · rw [hcount, List.length_append]
    exact Nat.le_add_right _ _
  · rw [hcount, List.take_left, deliveries_of_took hmarks hmeets, hall]
  · rw [hcount, List.drop_left, hunread]

/-- The first wait times out.  Then two frames arrive, in pieces of three bytes, and are
received one by one. -/
def patientCalls : List Call :=
  [⟨.receive stompMessageCreate, { Net.quiet [] with waits := [some .timeup] }⟩,
    ⟨.receive stompMessageCreate,
      { Net.quiet (greeting.bytes ++ greeting.bytes) with recvs := [.upTo 3, .upTo 3] }⟩,
    ⟨.receive stompMessageCreate, .quiet []⟩]

theorem retries_inStep_patientCalls :
    ∃ (log : Log) (w' : World), log.map Event.call = patientCalls ∧
      readyCalls log = 2 ∧ InStep [greeting, greeting] [] log w' 2 := by
  have hrun : (exec (step .sample) opened patientCalls).map (fun p =>
      p.1.map fun e => e.pre.messenger.connection.map (·.inbox)) =
        some [some [], some [], some greeting.bytes] := by
    decide +kernel
  obtain ⟨⟨log, w'⟩, hexec, hinboxes⟩ := Option.map_eq_some_iff.mp hrun
  have hcalls := exec_calls hexec
  obtain ⟨e₁, es, rfl, he₁, hes⟩ := List.map_eq_cons_iff.mp hcalls
  obtain ⟨e₂, es, rfl, he₂, hes⟩ := List.map_eq_cons_iff.mp hes
  obtain ⟨e₃, rfl, he₃⟩ := List.map_eq_singleton_iff.mp hes
  obtain ⟨-, hinboxes⟩ := List.cons.inj hinboxes
  obtain ⟨hinbox₂, hinboxes⟩ := List.cons.inj hinboxes
  obtain ⟨socket, hsocket, hinbox⟩ := Option.map_eq_some_iff.mp opened_inbox
  have horderly : ∀ e ∈ [e₁, e₂, e₃], Orderly e.pre e.call := by
    intro e he
    simp only [List.mem_cons, List.not_mem_nil, or_false] at he
    rcases he with rfl | rfl | rfl
    · rw [he₁]
      exact ⟨fun header hc => (by cases hc), fun turn ht => (by cases ht),
        fun _ hok => (by cases hok)⟩
    · rw [he₂]
      refine orderly_of_uncounted (fun header hc => by cases hc) (fun turn ht => ?_)
        hinbox₂ (t := greeting.bytes) rfl (by decide : Unwrapped greeting) (by decide)
      simp only [List.mem_cons, List.not_mem_nil, or_false] at ht
      rcases ht with rfl | rfl <;> exact ⟨3, rfl⟩
    · rw [he₃]
      exact orderly_of_uncounted (fun header hc => by cases hc)
        (fun turn ht => by cases ht) (List.singleton_inj.mp hinboxes) (t := []) rfl
        (by decide : Unwrapped greeting) (by decide)
  have hready : readyCalls [e₁, e₂, e₃] = 2 := by
    rw [readyCalls]
    simp only [List.countP_cons, List.countP_nil, he₁, he₂, he₃]
    decide
  refine ⟨_, w', hcalls, hready, ?_⟩
  rw [← hready]
  refine retries_inStep .sample opened w' _ (exec_run hexec) socket hsocket ?_
    [greeting, greeting] [] ?_ (by decide) horderly
  · intro e he
    simp only [List.mem_cons, List.not_mem_nil, or_false] at he
    rcases he with rfl | rfl | rfl <;> simp [he₁, he₂, he₃, isReceive]
  · rw [hinbox]
    simp [arrivals, he₁, he₂, he₃, Net.quiet]

/-- All failures of the call are timeouts. -/
def OnlyTimeouts (net : Net) : Prop :=
  (∀ turn ∈ net.recvs, (∃ extra, turn = .upTo extra) ∨ turn = .fail .timeup) ∧
    (∀ outcome ∈ net.waits, outcome = none ∨ outcome = some .timeup) ∧
      net.atEnd = .timeup

/-- The receive after four bytes of the frame times out. -/
def cutCall : Call :=
  ⟨.receive stompMessageCreate,
    { Net.quiet greeting.bytes with
      recvs := [.upTo 0, .upTo 0, .upTo 0, .upTo 0, .fail .timeup]
      atEnd := .timeup }⟩

/-- A session in which a timeout inside the frame is answered with a success. -/
theorem retries_inStep_fails :
    ¬ ∀ (A : Apr) (w w' : World) (log : Log), Run (step A) w log w' →
      (∃ options before, Run (step A) (stompMessengerInit options) before w) →
      ∀ socket, w.messenger.connection = some socket →
        (∀ e ∈ log, isReceive e.call.op = true) → ∀ fs future,
          socket.inbox ++ arrivals log ++ future = streamOf WireFrame.bytes fs →
            (∀ f ∈ fs, isMessage f = true) →
              (∀ e ∈ log, OnlyTimeouts e.call.net) →
              ∃ n, InStep fs future log w' n := by
  intro h
  have hrun :
      (exec (step .sample) opened [cutCall]).map (fun p => p.1.map (·.reply)) =
      some [⟨some .success, some stompMessageCreate⟩] := by
    decide +kernel
  obtain ⟨⟨log, w'⟩, hexec, hreplies⟩ := Option.map_eq_some_iff.mp hrun
  obtain ⟨e, rfl, he⟩ := List.map_eq_singleton_iff.mp (exec_calls hexec)
  obtain ⟨socket, hsocket, hinbox⟩ := Option.map_eq_some_iff.mp opened_inbox
  obtain ⟨before, hbefore⟩ := opened_reachable
  have hreceive : ∀ e' ∈ [e], isReceive e'.call.op = true := by
    intro e' he'
    rw [List.mem_singleton.mp he', he]
    rfl
  have hstream : socket.inbox ++ arrivals [e] ++ [] =
      streamOf WireFrame.bytes [greeting] := by
    rw [hinbox]
    simp [arrivals, he, cutCall, Net.quiet]
  have hmessages : ∀ f ∈ [greeting], isMessage f = true := by
    intro f hf
    rw [List.mem_singleton.mp hf]
    decide
  have htimeouts : ∀ e' ∈ [e], OnlyTimeouts e'.call.net := by
    intro e' he'
    rw [List.mem_singleton.mp he', he]
    refine ⟨?_, fun outcome ho => (by cases ho), rfl⟩
    intro turn ht
    simp only [cutCall, List.mem_cons, List.not_mem_nil, or_false] at ht
    rcases ht with rfl | rfl | rfl | rfl | rfl
    all_goals first | exact .inr rfl | exact .inl ⟨0, rfl⟩
  obtain ⟨n, -, hdelivered, -⟩ :=
    h .sample opened w' [e] (exec_run hexec) ⟨0, before, hbefore⟩
    socket hsocket hreceive [greeting] [] hstream hmessages htimeouts
  have hreply : e.reply = ⟨some .success, some stompMessageCreate⟩ :=
    List.singleton_inj.mp hreplies
  have hone : [e].filterMap delivered = [stompMessageCreate] := by
    simp [delivered, hreply]
  rw [hone] at hdelivered
  have hmem : stompMessageCreate ∈ ([greeting].take n).map handed :=
    hdelivered ▸ by simp
  obtain ⟨f, hf, heq⟩ := List.mem_map.mp hmem
  rw [List.mem_singleton.mp (List.mem_of_mem_take hf)] at heq
  exact absurd heq (by decide)

end LibStomp.Session.Retries
