import LibStomp.Stream.ReadLine

/-!
# Reading never writes

Whatever the schedule of the socket, and whether it succeeds or fails,
`stomp_read` takes bytes off the front of the stream and sends nothing.  The
relation is closed under sequencing, so one lemma per function suffices.

## Main results

* `stompRead_receives` — `stomp_read` leaves the outbox alone and the inbox a
  suffix of what it was.
* `stompIoCanRead_cases` — what the wait in front of a read says.
-/

namespace LibStomp.Stream.Receiving

open LibStomp.Model
open LibStomp.Verified.BlockChain
open LibStomp.Stream.ReadLine

/-- `io'` is `io` after some bytes were taken off its stream. -/
structure Drained (io io' : Io) : Prop where
  outbox : io'.socket.outbox = io.socket.outbox
  inbox : io'.socket.inbox <:+ io.socket.inbox

theorem Drained.refl (io : Io) : Drained io io := ⟨rfl, List.suffix_refl _⟩

theorem Drained.trans {io io' io'' : Io} (h : Drained io io')
    (h' : Drained io' io'') :
    Drained io io'' :=
  ⟨h'.outbox.trans h.outbox, h'.inbox.trans h.inbox⟩

/-- On every outcome `x` has only taken bytes off the stream. -/
structure Receives {α : Type} (x : IoM α) : Prop where
  ok : ∀ {io io' : Io} {a : α}, x io = .ok a io' → Drained io io'
  error : ∀ {io io' : Io} {rc : AprError}, x io = .error rc io' → Drained io io'

/-! ## Composition -/

theorem receives_pure {α : Type} (a : α) : Receives (pure a : IoM α) where
  ok h := by
    obtain ⟨-, rfl⟩ := EStateM.Result.ok.inj h
    exact .refl _
  error h := by cases h

theorem receives_throw {α : Type} (rc : AprError) :
    Receives (throw rc : IoM α) where
  ok h := by cases h
  error h := by
    obtain ⟨-, rfl⟩ := EStateM.Result.error.inj h
    exact .refl _

theorem receives_get : Receives (get : IoM Io) where
  ok h := by
    obtain ⟨-, rfl⟩ := EStateM.Result.ok.inj h
    exact .refl _
  error h := by cases h

theorem receives_failWith {α : Type} (rc : AprError) (text : CString) :
    Receives (failWith rc text : IoM α) where
  ok h := by cases h
  error h := by
    obtain ⟨-, rfl⟩ := EStateM.Result.error.inj h
    exact ⟨rfl, List.suffix_refl _⟩

theorem Receives.bind {α β : Type} {x : IoM α} {f : α → IoM β} (hx : Receives x)
    (hf : ∀ a, Receives (f a)) : Receives (x >>= f) where
  ok {io io' b} h := by
    obtain ⟨a, io₁, ha, hb⟩ := bind_eq_ok h
    exact (hx.ok ha).trans ((hf a).ok hb)
  error {io io' rc} h := by
    cases ha : x io with
    | ok a io₁ =>
        exact (hx.ok ha).trans ((hf a).error ((bind_of_ok ha).symm.trans h))
    | error rc' io₁ =>
        obtain ⟨-, rfl⟩ :=
          EStateM.Result.error.inj ((bind_of_error ha).symm.trans h)
        exact hx.error ha

theorem Receives.onError {α : Type} {x : IoM α} {note : AprError → Io → Io}
    (hx : Receives x)
    (hnote : ∀ rc io, Drained io (note rc io)) : Receives (onError x note) where
  ok {io io' a} h := by
    cases ha : x io with
    | ok a' io₁ =>
        obtain ⟨-, rfl⟩ := EStateM.Result.ok.inj ((onError_of_ok ha).symm.trans h)
        exact hx.ok ha
    | error rc io₁ => cases (onError_of_error ha).symm.trans h
  error {io io' rc} h := by
    cases ha : x io with
    | ok a' io₁ => cases (onError_of_ok ha).symm.trans h
    | error rc' io₁ =>
        obtain ⟨rfl, rfl⟩ :=
          EStateM.Result.error.inj ((onError_of_error ha).symm.trans h)
        exact (hx.error ha).trans (hnote _ _)

theorem drained_setError (A : Apr) (text : CString) (rc : AprError) (io : Io) :
    Drained io (io.setError A text rc) := ⟨rfl, List.suffix_refl _⟩

theorem drained_statusSet (text : CString) (io : Io) :
    Drained io (io.statusSet text) :=
  ⟨rfl, List.suffix_refl _⟩

/-! ## The functions of `stomp_io.c` that read -/

private theorem pull_cases (n : Nat) (s : Socket) :
    (∃ rc, s.pull n = .error rc s) ∨
      s.pull n = .ok (s.inbox.take n) { s with inbox := s.inbox.drop n } := by
  unfold Socket.pull
  split
  · exact .inl ⟨_, rfl⟩
  split
  · exact .inl ⟨_, rfl⟩
  · exact .inr rfl

theorem receives_recv (len : Nat) : Receives (recv len) := by
  have hcases :
      ∀ io : Io, (∃ rc io', recv len io = .error rc io' ∧ Drained io io') ∨
      ∃ bytes io', recv len io = .ok bytes io' ∧ Drained io io' := by
    intro io
    unfold recv aprSocketRecv
    cases io.socket.recvs with
    | nil =>
        rcases pull_cases len io.socket with ⟨rc, h⟩ | h
        · simp only [h]
          exact .inl ⟨rc, _, rfl, .refl _⟩
        · simp only [h]
          exact .inr ⟨_, _, rfl, rfl, List.drop_suffix _ _⟩
    | cons turn rest =>
        cases turn with
        | fail rc => exact .inl ⟨rc, _, rfl, rfl, List.suffix_refl _⟩
        | upTo extra =>
            rcases pull_cases (min len (extra + 1))
              { io.socket with recvs := rest } with
              ⟨rc, h⟩ | h
            · simp only [h]
              exact .inl ⟨rc, _, rfl, rfl, List.suffix_refl _⟩
            · simp only [h]
              exact .inr ⟨_, _, rfl, rfl, List.drop_suffix _ _⟩
  constructor
  · intro io io' a h
    rcases hcases io with ⟨rc, io₁, herror, -⟩ | ⟨bytes, io₁, hok, hd⟩
    · cases herror.symm.trans h
    · obtain ⟨-, rfl⟩ := EStateM.Result.ok.inj (hok.symm.trans h)
      exact hd
  · intro io io' rc h
    rcases hcases io with ⟨rc', io₁, herror, hd⟩ | ⟨bytes, io₁, hok, -⟩
    · obtain ⟨-, rfl⟩ := EStateM.Result.error.inj (herror.symm.trans h)
      exact hd
    · cases hok.symm.trans h

private theorem receives_readLineLoop (A : Apr) {fuel : Nat} :
    ∀ (chain : Chain UInt8 blockSize) (k : Nat),
      Receives (readLineLoop A fuel chain k) := by
  induction fuel with
  | zero => exact fun _ _ => receives_throw _
  | succ fuel ih =>
      intro chain k
      rw [readLineLoop]
      refine ((receives_recv 1).onError fun _ _ => drained_setError _ _ _
        _).bind fun received => ?_
      split
      · split
        · exact receives_pure _
        split
        · exact receives_failWith _ _
        · exact ih _ _
      · exact ih _ _

theorem receives_stompReadLine (A : Apr) : Receives (stompReadLine A) :=
  receives_get.bind fun _ => (receives_readLineLoop A _ _).bind fun _ =>
    receives_pure _

private theorem receives_recvEndline : Receives recvEndline where
  ok {io io' b} h := by
    unfold recvEndline at h
    cases hrecv : recv 1 io with
    | ok bytes io₁ =>
        have hd := (receives_recv 1).ok hrecv
        rw [hrecv] at h
        cases bytes <;> obtain ⟨-, rfl⟩ := EStateM.Result.ok.inj h <;> exact hd
    | error rc io₁ =>
        have hd := (receives_recv 1).error hrecv
        rw [hrecv] at h
        obtain ⟨-, rfl⟩ := EStateM.Result.ok.inj h
        exact hd
  error {io io' rc} h := by
    unfold recvEndline at h
    cases hrecv : recv 1 io with
    | ok bytes io₁ =>
        rw [hrecv] at h
        cases bytes <;> cases h
    | error rc io₁ =>
        rw [hrecv] at h
        cases h

private theorem receives_readBufferLoop (A : Apr) {fuel : Nat} :
    ∀ (chain : Chain UInt8 blockSize) (k : Nat),
      Receives (readBufferLoop A fuel chain k) := by
  induction fuel with
  | zero => exact fun _ _ => receives_throw _
  | succ fuel ih =>
      intro chain k
      rw [readBufferLoop]
      refine ((receives_recv 1).onError fun _ _ => drained_setError _ _ _
        _).bind fun received => ?_
      split
      · split
        · refine receives_recvEndline.bind fun endline => ?_
          split
          · exact receives_failWith _ _
          · exact receives_pure _
        · exact ih _ _
      · exact ih _ _

private theorem receives_stompReadBuffer (A : Apr) :
    Receives (stompReadBuffer A) :=
  receives_get.bind fun _ => (receives_readBufferLoop A _ _).bind fun _ =>
    receives_pure _

private theorem receives_readHeaders (A : Apr) {fuel : Nat} :
    ∀ headers : Hash, Receives (readHeaders A fuel headers) := by
  induction fuel with
  | zero => exact fun _ => receives_throw _
  | succ fuel ih =>
      intro headers
      rw [readHeaders]
      refine (receives_stompReadLine A).bind fun p => ?_
      obtain ⟨line, length⟩ := p
      simp only []
      split
      · exact receives_pure _
      split
      · exact receives_failWith _ _
      · exact ih _

private theorem receives_readCounted (v : CString) :
    Receives (readCounted v) := by
  refine ((receives_recv _).onError fun _ _ => drained_statusSet _ _).bind
    fun received => ?_
  refine ((receives_recv _).onError fun _ _ => drained_statusSet _ _).bind
    fun endbuffer => ?_
  split
  · exact receives_failWith _ _
  · exact receives_pure _

private theorem receives_readBody (A : Apr) (command : CString) (headers : Hash) :
    Receives (readBody A command headers) := by
  rw [readBody]
  split
  · exact (receives_readCounted _).bind fun _ => receives_pure _
  · exact ((receives_stompReadBuffer A).onError fun _ _ => drained_statusSet _
      _).bind
      fun _ => receives_pure _

theorem stompRead_receives (A : Apr) : Receives (stompRead A) :=
  (receives_stompReadLine A).bind fun _ => receives_get.bind fun _ =>
    (receives_readHeaders A _).bind fun _ => receives_readBody A _ _

/-! ## Waiting -/

/-- The state after a wait. -/
def afterWait (io : Io) : Io :=
  { io with socket := { io.socket with waits := io.socket.waits.drop 1 } }

/-- **There is something to read unless the wait fails**, with whatever status. -/
theorem stompIoCanRead_cases (io : Io) :
    (∃ rc rest io', io.socket.waits = some rc :: rest ∧
      stompIoCanRead io = (false, io') ∧ io'.socket = (afterWait io).socket ∧
        io'.endline = io.endline) ∨
    (∀ rc rest, io.socket.waits ≠ some rc :: rest) ∧
      stompIoCanRead io = (true, afterWait io) := by
  obtain ⟨⟨fd, inbox, outbox, recvs, sends, waits, atEnd⟩, error, endline⟩ := io
  cases waits with
  | nil => exact .inr ⟨by simp, rfl⟩
  | cons outcome rest =>
      cases outcome with
      | none => exact .inr ⟨by simp, rfl⟩
      | some rc =>
          refine .inl ⟨rc, rest, ?_⟩
          cases rc <;> exact ⟨_, rfl, rfl, rfl, rfl⟩

/-- A wait changes nothing but its own schedule. -/
theorem socket_of_stompIoCanRead {io io' : Io} {ready : Bool}
    (h : stompIoCanRead io = (ready, io')) :
    io'.socket = (afterWait io).socket ∧ io'.endline = io.endline := by
  rcases stompIoCanRead_cases io with ⟨rc, rest, io₁, -, hcan, hsame⟩ | ⟨-, hcan⟩
  · obtain ⟨-, rfl⟩ := Prod.mk.inj (hcan.symm.trans h)
    exact hsame
  · obtain ⟨-, rfl⟩ := Prod.mk.inj (hcan.symm.trans h)
    exact ⟨rfl, rfl⟩

theorem stompIoCanRead_ready {io io' : Io} (h : stompIoCanRead io = (true, io')) :
    (∀ rc rest, io.socket.waits ≠ some rc :: rest) ∧ io' = afterWait io := by
  rcases stompIoCanRead_cases io with ⟨rc, rest, io₁, -, hcan, -⟩ | ⟨hwaits, hcan⟩
  · cases hcan.symm.trans h
  · exact ⟨hwaits, (Prod.mk.inj (h.symm.trans hcan)).2⟩

theorem stompIoCanRead_notReady {io io' : Io} (h : stompIoCanRead io = (false, io')) :
    ∃ rc rest, io.socket.waits = some rc :: rest := by
  rcases stompIoCanRead_cases io with ⟨rc, rest, -, hwaits, -⟩ | ⟨-, hcan⟩
  · exact ⟨rc, rest, hwaits⟩
  · cases hcan.symm.trans h

/-- Waiting takes nothing off the stream either. -/
theorem drained_stompIoCanRead {io io' : Io} {ready : Bool}
    (h : stompIoCanRead io = (ready, io')) : Drained io io' := by
  obtain ⟨hsocket, -⟩ := socket_of_stompIoCanRead h
  refine ⟨?_, ?_⟩
  · rw [hsocket]
    rfl
  · rw [hsocket]
    exact List.suffix_refl _

end LibStomp.Stream.Receiving
