import LibStomp.Model.Io
import LibStomp.Verified.Coupling

/-!
# Error texts do not steer `stomp_io.c`

The error record is written on every failure and the descriptor is only handed on;
neither is ever tested.  So two states that agree in everything else are told
apart by no function of the module, whatever texts the two runtimes have for
their errors.

What has been sent and how the coming sends will go does not matter to reading
either.  Reading keeps any relation `P` on these two; writing needs the coming
sends to go the same, and keeps what is said about the bytes sent before.

## Main results

* `couples_stompRead`, `couples_stompWrite`, `alike_stompIoCanRead` — the three
  functions the messenger calls do the same in states that are alike.
-/

namespace LibStomp.Stream.Diagnostics

open LibStomp.Model
open LibStomp.Verified.BlockChain
open LibStomp.Verified.Coupling

/-! ## States that are alike -/

/-- The side of a socket that only writing looks at. -/
abbrev Output := Bytes × List Turn

/-- What was sent, and how the coming sends go. -/
def output (socket : Socket) : Output := (socket.outbox, socket.sends)

/-- Sockets that read alike.  The descriptors may differ. -/
structure AlikeSockets (P : Output → Output → Prop) (s t : Socket) : Prop where
  inbox : s.inbox = t.inbox
  recvs : s.recvs = t.recvs
  waits : s.waits = t.waits
  atEnd : s.atEnd = t.atEnd
  output : P (output s) (output t)

/-- States that read alike.  The error records may differ. -/
structure Alike (P : Output → Output → Prop) (io io' : Io) : Prop where
  socket : AlikeSockets P io.socket io'.socket
  endline : io.endline = io'.endline

/-- The function writes to the error record only. -/
structure Notes (note : AprError → Io → Io) : Prop where
  socket : ∀ rc io, (note rc io).socket = io.socket
  endline : ∀ rc io, (note rc io).endline = io.endline

theorem notes_setError (A : Apr) (text : CString) : Notes (Io.setError A text) :=
  ⟨fun _ _ => rfl, fun _ _ => rfl⟩

theorem notes_statusSet (text : AprError → CString) :
    Notes fun rc io => io.statusSet (text rc) :=
  ⟨fun _ _ => rfl, fun _ _ => rfl⟩

variable {P : Output → Output → Prop}

theorem Alike.note {io io' : Io} (h : Alike P io io')
    {note note' : AprError → Io → Io} (hn : Notes note) (hn' : Notes note')
    (rc rc' : AprError) : Alike P (note rc io) (note' rc' io') where
  socket := by
    rw [hn.socket, hn'.socket]
    exact h.socket
  endline := by
    rw [hn.endline, hn'.endline]
    exact h.endline

theorem couples_failWith {α : Type} (rc : AprError) (text text' : CString) :
    Couples (Alike P) (failWith rc text : IoM α) (failWith rc text') :=
  fun _ _ h => .error rc
    (h.note (notes_statusSet fun _ => text) (notes_statusSet fun _ => text') rc rc)

theorem couples_onError {α : Type} {x y : IoM α} {note note' : AprError → Io → Io}
    (h : Couples (Alike P) x y) (hn : Notes note) (hn' : Notes note') :
    Couples (Alike P) (onError x note) (onError y note') := by
  intro io io' hio
  have hresult := h io io' hio
  unfold onError
  generalize x io = p at hresult ⊢
  generalize y io' = q at hresult ⊢
  cases hresult with
  | ok a h' => exact .ok a h'
  | error rc h' => exact .error rc (h'.note hn hn' rc rc)

/-! ## The socket -/

theorem coupled_pull (n : Nat) {s t : Socket} (h : AlikeSockets P s t) :
    Coupled (AlikeSockets P) (s.pull n) (t.pull n) := by
  unfold Socket.pull
  rw [h.inbox, h.atEnd]
  split
  · exact .error _ h
  split
  · exact .error _ h
  · exact .ok _ ⟨rfl, h.recvs, h.waits, rfl, h.output⟩

theorem coupled_aprSocketRecv (len : Nat) {s t : Socket} (h : AlikeSockets P s t) :
    Coupled (AlikeSockets P) (aprSocketRecv len s) (aprSocketRecv len t) := by
  unfold aprSocketRecv
  rw [h.recvs]
  cases t.recvs with
  | nil => exact coupled_pull len h
  | cons turn rest =>
      have hrest : AlikeSockets P { s with recvs := rest }
          { t with recvs := rest } :=
        ⟨h.inbox, rfl, h.waits, h.atEnd, h.output⟩
      cases turn with
      | upTo extra => exact coupled_pull _ hrest
      | fail rc => exact .error rc hrest

theorem couples_recv (len : Nat) : Couples (Alike P) (recv len) (recv len) := by
  intro io io' h
  have hresult := coupled_aprSocketRecv len h.socket
  unfold recv
  generalize aprSocketRecv len io.socket = p at hresult ⊢
  generalize aprSocketRecv len io'.socket = q at hresult ⊢
  cases hresult with
  | ok bytes h' => exact .ok bytes ⟨h', h.endline⟩
  | error rc h' => exact .error rc ⟨h', h.endline⟩

/-! ## Writing -/

/-- To send the same, the two sockets must have the same schedule. -/
def SendsAlike (B : Bytes → Bytes → Prop) (o o' : Output) : Prop :=
  B o.1 o'.1 ∧ o.2 = o'.2

/-- What is said about two streams stays true when the same is appended to both. -/
def Growing (B : Bytes → Bytes → Prop) : Prop :=
  ∀ o o' bs, B o o' → B (o ++ bs) (o' ++ bs)

theorem growing_eq : Growing Eq := fun _ _ bs h => congrArg (· ++ bs) h

variable {B : Bytes → Bytes → Prop} (hB : Growing B)
include hB

theorem couples_send (data : Bytes) :
    Couples (Alike (SendsAlike B)) (send data) (send data) := by
  intro io io' h
  obtain ⟨houtbox, hsends⟩ := h.socket.output
  have hsends : io.socket.sends = io'.socket.sends := hsends
  unfold send aprSocketSend
  rw [hsends]
  cases io'.socket.sends with
  | nil =>
      refine .ok _ ⟨⟨h.socket.inbox, h.socket.recvs, h.socket.waits, h.socket.atEnd,
        ?_⟩, h.endline⟩
      exact ⟨hB _ _ data houtbox, rfl⟩
  | cons turn rest =>
      cases turn with
      | upTo extra =>
          refine .ok _ ⟨⟨h.socket.inbox, h.socket.recvs, h.socket.waits,
            h.socket.atEnd, ?_⟩, h.endline⟩
          exact ⟨hB _ _ (data.take (extra + 1)) houtbox, rfl⟩
      | fail rc =>
          refine .error rc ⟨⟨h.socket.inbox, h.socket.recvs, h.socket.waits,
            h.socket.atEnd, ?_⟩, h.endline⟩
          exact ⟨houtbox, rfl⟩

variable (A A' : Apr)

theorem couples_writeLoop (fuel : Nat) : ∀ data : Bytes,
    Couples (Alike (SendsAlike B)) (writeLoop A fuel data)
      (writeLoop A' fuel data) := by
  induction fuel with
  | zero => intro data; exact couples_pure ()
  | succ fuel ih =>
      intro data
      unfold writeLoop
      refine Couples.ite (couples_pure ()) ?_
      refine Couples.bind ?_ fun length => ih _
      exact couples_onError (couples_send hB data) (notes_statusSet _)
        (notes_statusSet _)

theorem couples_stompWriteBuffer (data : Bytes) :
    Couples (Alike (SendsAlike B)) (stompWriteBuffer A data)
      (stompWriteBuffer A' data) :=
  couples_writeLoop hB A A' data.length data

theorem couples_writeHeaders (headers : List Header) :
    Couples (Alike (SendsAlike B)) (writeHeaders A headers)
      (writeHeaders A' headers) := by
  induction headers with
  | nil => exact couples_pure ()
  | cons header rest ih =>
      obtain ⟨key, value⟩ := header
      unfold writeHeaders
      refine Couples.bind (couples_stompWriteBuffer hB A A' _) fun _ => ?_
      refine Couples.bind (couples_stompWriteBuffer hB A A' _) fun _ => ?_
      refine Couples.bind (couples_stompWriteBuffer hB A A' _) fun _ => ?_
      exact Couples.bind (couples_stompWriteBuffer hB A A' _) fun _ => ih

theorem couples_writeFrame (O : HashOrder) (frame : Frame) :
    Couples (Alike (SendsAlike B)) (writeFrame A O frame)
      (writeFrame A' O frame) := by
  have hwrite := couples_stompWriteBuffer hB A A'
  unfold writeFrame
  refine Couples.bind (hwrite _) fun _ => Couples.bind (hwrite _) fun _ => ?_
  have hend := hwrite [nul, lf]
  cases frame.headers with
  | none =>
      refine Couples.bind (hwrite _) fun _ => ?_
      cases frame.body with
      | none => exact hend
      | some body => exact Couples.bind (hwrite _) fun _ => hend
  | some headers =>
      refine Couples.bind (couples_writeHeaders hB A A' _) fun _ => ?_
      refine Couples.bind (hwrite _) fun _ => Couples.bind (hwrite _) fun _ => ?_
      refine Couples.bind (hwrite _) fun _ => Couples.bind (hwrite _) fun _ => ?_
      cases frame.body with
      | none => exact hend
      | some body => exact Couples.bind (hwrite _) fun _ => hend

theorem couples_writeFront (O : HashOrder) (frame : Frame) :
    Couples (Alike (SendsAlike B)) (writeFront A O frame)
      (writeFront A' O frame) := by
  have hwrite := couples_stompWriteBuffer hB A A'
  unfold writeFront
  refine Couples.bind (hwrite _) fun _ => Couples.bind (hwrite _) fun _ => ?_
  cases frame.headers with
  | none => exact hwrite _
  | some headers =>
      refine Couples.bind (couples_writeHeaders hB A A' _) fun _ => ?_
      refine Couples.bind (hwrite _) fun _ => Couples.ite (couples_pure ()) ?_
      refine Couples.bind (hwrite _) fun _ => Couples.bind (hwrite _) fun _ => ?_
      exact hwrite _

/-- Whether a body is left depends on its frame and on the schedule. -/
theorem staysInside_alike (O : HashOrder) (frame : Frame) {io io' : Io}
    (h : Alike (SendsAlike B) io io') :
    staysInside A O frame io = staysInside A' O frame io' := by
  have hfront := couples_writeFront hB A A' O frame io io' h
  unfold staysInside
  congr 1
  generalize writeFront A O frame io = p at hfront ⊢
  generalize writeFront A' O frame io' = q at hfront ⊢
  cases hfront <;> rfl

theorem couples_stompWrite (O : HashOrder) (frame : Frame) :
    Couples (Alike (SendsAlike B)) (stompWrite A O frame)
      (stompWrite A' O frame) :=
  couples_onError (couples_writeFrame hB A A' O frame) (notes_setError A _)
    (notes_setError A' _)

omit hB

/-! ## Reading -/

theorem couples_readLineLoop (fuel : Nat) : ∀ (chain : Chain UInt8 blockSize)
    (bytesRead : Nat), Couples (Alike P) (readLineLoop A fuel chain bytesRead)
      (readLineLoop A' fuel chain bytesRead) := by
  induction fuel with
  | zero => intro _ _; exact couples_throw _
  | succ fuel ih =>
      intro chain bytesRead
      unfold readLineLoop
      refine Couples.bind (couples_onError (couples_recv 1) (notes_setError A _)
        (notes_setError A' _)) fun received => ?_
      match received with
      | [] => exact ih _ _
      | [b] =>
          refine Couples.ite (couples_pure _) ?_
          exact Couples.ite (couples_failWith _ _ _) (ih _ _)
      | _ :: _ :: _ => exact ih _ _

theorem couples_stompReadLine :
    Couples (Alike P) (stompReadLine A) (stompReadLine A') := by
  unfold stompReadLine
  refine Couples.get_bind fun io io' h => ?_
  rw [h.socket.inbox]
  exact Couples.bind (couples_readLineLoop A A' _ _ _) fun _ => couples_pure _

/-- The dropped status is the same, and so is what the local contains. -/
theorem couples_recvEndline :
    Couples (Alike P) recvEndline recvEndline := by
  intro io io' h
  have hresult : Coupled (Alike P) (recv 1 io) (recv 1 io') := couples_recv 1 io io' h
  unfold recvEndline
  generalize recv 1 io = p at hresult ⊢
  generalize recv 1 io' = q at hresult ⊢
  cases hresult with
  | @error s t rc h' =>
      show Coupled _ (.ok s.endline s) (.ok t.endline t)
      rw [h'.endline]
      exact .ok _ h'
  | @ok s t bytes h' =>
      cases bytes with
      | nil =>
          show Coupled _ (.ok s.endline s) (.ok t.endline t)
          rw [h'.endline]
          exact .ok _ h'
      | cons b _ => exact .ok b h'

theorem couples_readBufferLoop (fuel : Nat) : ∀ (chain : Chain UInt8 blockSize)
    (bytesRead : Nat), Couples (Alike P) (readBufferLoop A fuel chain bytesRead)
      (readBufferLoop A' fuel chain bytesRead) := by
  induction fuel with
  | zero => intro _ _; exact couples_throw _
  | succ fuel ih =>
      intro chain bytesRead
      unfold readBufferLoop
      refine Couples.bind (couples_onError (couples_recv 1) (notes_setError A _)
        (notes_setError A' _)) fun received => ?_
      match received with
      | [] => exact ih _ _
      | [b] =>
          refine Couples.ite ?_ (ih _ _)
          refine Couples.bind couples_recvEndline fun endline => ?_
          exact Couples.ite (couples_failWith _ _ _) (couples_pure _)
      | _ :: _ :: _ => exact ih _ _

theorem couples_stompReadBuffer :
    Couples (Alike P) (stompReadBuffer A) (stompReadBuffer A') := by
  unfold stompReadBuffer
  refine Couples.get_bind fun io io' h => ?_
  rw [h.socket.inbox]
  exact Couples.bind (couples_readBufferLoop A A' _ _ _) fun _ => couples_pure _

theorem couples_readHeaders (fuel : Nat) : ∀ headers : Hash,
    Couples (Alike P) (readHeaders A fuel headers) (readHeaders A' fuel headers) := by
  induction fuel with
  | zero => intro _; exact couples_throw _
  | succ fuel ih =>
      intro headers
      unfold readHeaders
      refine Couples.bind (couples_stompReadLine A A') fun line => ?_
      obtain ⟨p, length⟩ := line
      refine Couples.ite (couples_pure _) ?_
      cases (CString.ofBuffer p).splitColon with
      | none => exact couples_failWith _ _ _
      | some header => exact ih _

theorem couples_readCounted (contentLength : CString) :
    Couples (Alike P) (readCounted contentLength) (readCounted contentLength) := by
  unfold readCounted
  refine Couples.bind (couples_onError (couples_recv _) (notes_statusSet fun _ => _)
    (notes_statusSet fun _ => _)) fun received => ?_
  refine Couples.bind (couples_onError (couples_recv 2) (notes_statusSet fun _ => _)
    (notes_statusSet fun _ => _)) fun endbuffer => ?_
  exact Couples.ite (couples_failWith _ _ _) (couples_pure _)

theorem couples_readBody (command : CString) (headers : Hash) :
    Couples (Alike P) (readBody A command headers) (readBody A' command headers) := by
  unfold readBody
  cases headers.lookup (.lit "content-length") with
  | some contentLength =>
      exact Couples.bind (couples_readCounted contentLength) fun _ => couples_pure _
  | none =>
      refine Couples.bind (couples_onError (couples_stompReadBuffer A A')
        (notes_statusSet fun _ => _) (notes_statusSet fun _ => _)) fun _ => ?_
      exact couples_pure _

theorem couples_stompRead : Couples (Alike P) (stompRead A) (stompRead A') := by
  unfold stompRead
  refine Couples.bind (couples_stompReadLine A A') fun line => ?_
  refine Couples.get_bind fun io io' h => ?_
  rw [h.socket.inbox]
  exact Couples.bind (couples_readHeaders A A' _ _) fun headers =>
    couples_readBody A A' _ _

/-- The wait says the same, and leaves states that are alike. -/
theorem alike_stompIoCanRead {io io' : Io} (h : Alike P io io') :
    (stompIoCanRead io).1 = (stompIoCanRead io').1 ∧
      Alike P (stompIoCanRead io).2 (stompIoCanRead io').2 := by
  unfold stompIoCanRead aprWaitForIo
  rw [h.socket.waits]
  cases io'.socket.waits with
  | nil => exact ⟨rfl, h⟩
  | cons outcome rest =>
      have hrest : AlikeSockets P { io.socket with waits := rest }
          { io'.socket with waits := rest } :=
        ⟨h.socket.inbox, h.socket.recvs, rfl, h.socket.atEnd, h.socket.output⟩
      cases outcome with
      | none => exact ⟨rfl, hrest, h.endline⟩
      | some rc => cases rc <;> exact ⟨rfl, hrest, h.endline⟩

end LibStomp.Stream.Diagnostics
