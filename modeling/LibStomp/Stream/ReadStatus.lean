import LibStomp.Stream.ReadBody

/-!
# The status of a read

Which status `stomp_read` returns depends on the bytes of the stream, on the
schedule of the receives, on how the stream ends and on the uninitialised local.
`readStatus` computes it from these alone: the status of the receive that fails
first, where one fails before the frame is complete, and `APR_EGENERAL` where the
code finds fault with the bytes.

## Main results

* `statusOf_stompRead` — this is the status of every `stomp_read`.
-/

namespace LibStomp.Stream.ReadStatus

open LibStomp.Model
open LibStomp.Verified.Lines
open LibStomp.Stream.Grammar
open LibStomp.Stream.ReadLine
open LibStomp.Stream.ReadFrame
open LibStomp.Stream.ReadBody

/-- The status of an outcome; there is none when it is `APR_SUCCESS`. -/
def statusOf {α : Type} : EStateM.Result AprError Io α → Option AprError
  | .ok _ _ => none
  | .error rc _ => some rc

/-! ## Bodies -/

/-- The status with which a body of `n` octets and its end are received. -/
def countedStatus (n : Nat) (io : Io) : Option AprError :=
  match recvStatus n io.socket with
  | some rc => some rc
  | none =>
      match recvStatus 2 (takePiece (pieceSize io.socket.recvs n) io).socket with
      | some rc => some rc
      | none =>
          if (endPieces n io.socket.inbox io.socket.recvs).2 = [nul, lf] then none
          else some .egeneral

/-- The status with which a body is read behind the header block `ls`. -/
def bodyStatus (ls : List Bytes) (io : Io) : Option AprError :=
  match contentLength ls with
  | some v => countedStatus (announced v) io
  | none =>
      match scanLine nul nul (supply io) with
      | .line _ t => if endlineOf io t = lf then none else some .egeneral
      | _ => some (cause io)

private theorem statusOf_readCounted (v : CString) (io : Io) :
    statusOf (readCounted v io) = countedStatus (announced v) io := by
  have hbody := recv_eq (announced v) io
  unfold countedStatus
  cases hstatus : recvStatus (announced v) io.socket with
  | some rc =>
      rw [hstatus] at hbody
      have hread : readCounted v io = .error rc _ :=
        bind_of_error (onError_of_error hbody)
      rw [hread]
      rfl
  | none =>
      rw [hstatus] at hbody
      have hend := recv_eq 2 (takePiece (pieceSize io.socket.recvs (announced v)) io)
      simp only []
      cases hstatus' : recvStatus 2
          (takePiece (pieceSize io.socket.recvs (announced v)) io).socket with
      | some rc =>
          rw [hstatus'] at hend
          have hread : readCounted v io = .error rc _ :=
            (bind_of_ok (onError_of_ok hbody)).trans
              (bind_of_error (onError_of_error hend))
          rw [hread]
          rfl
      | none =>
          rw [hstatus'] at hend
          rw [readCounted_end hbody hend]
          show statusOf ((if (endPieces (announced v) io.socket.inbox
            io.socket.recvs).2 ≠ [nul, lf] then _ else _ : IoM (Bytes × UInt64)) _) = _
          by_cases he :
              (endPieces (announced v) io.socket.inbox io.socket.recvs).2 = [nul, lf]
          · rw [if_neg (not_not_intro he), if_pos he]
            rfl
          · rw [if_pos he, if_neg he]
            rfl

private theorem statusOf_stompReadBuffer (A : Apr) (io : Io) :
    statusOf (stompReadBuffer A io) =
      match scanLine nul nul (supply io) with
      | .line _ t => if endlineOf io t = lf then none else some .egeneral
      | _ => some (cause io) := by
  have hscan := stompReadBuffer_scan A io
  cases hline : scanLine nul nul (supply io) with
  | line p t =>
      rw [hline] at hscan
      simp only [] at hscan ⊢
      rw [hscan]
      by_cases he : endlineOf io t = lf
      · rw [if_neg (not_not_intro he), if_pos he]
        rfl
      · rw [if_pos he, if_neg he]
        rfl
  | stop p t =>
      rw [hline] at hscan
      simp only [] at hscan ⊢
      rw [hscan]
      rfl
  | short =>
      rw [hline] at hscan
      simp only [] at hscan ⊢
      rw [hscan]
      rfl

/-- What is done with a body that was read does not fail. -/
private theorem statusOf_bind_pure {α β : Type} (x : IoM α) (f : α → β) (io : Io) :
    statusOf ((x >>= fun a => pure (f a)) io) = statusOf (x io) := by
  cases hx : x io with
  | ok a io' =>
      rw [bind_of_ok hx]
      rfl
  | error rc io' =>
      rw [bind_of_error hx]
      rfl

private theorem statusOf_onError {α : Type} (x : IoM α) (note : AprError → Io → Io)
    (io : Io) : statusOf (onError x note io) = statusOf (x io) := by
  cases hx : x io with
  | ok a io' =>
      rw [onError_of_ok hx]
  | error rc io' =>
      rw [onError_of_error hx]
      rfl

private theorem statusOf_readBody (A : Apr) (command : CString) (ls : List Bytes)
    (io : Io) : statusOf (readBody A command (table ls) io) = bodyStatus ls io := by
  unfold bodyStatus
  cases hv : contentLength ls with
  | some v =>
      have hlookup : (table ls).lookup (.lit "content-length") = some v := hv
      rw [readBody, hlookup]
      exact (statusOf_bind_pure _ _ io).trans (statusOf_readCounted v io)
  | none =>
      have hlookup : (table ls).lookup (.lit "content-length") = none := hv
      rw [readBody, hlookup]
      exact (statusOf_bind_pure _ _ io).trans
        ((statusOf_onError _ _ io).trans (statusOf_stompReadBuffer A io))

/-! ## Frames -/

/-- The status with which a frame is read off the stream. -/
def readStatus (io : Io) : Option AprError :=
  match scanHead (supply io) with
  | .failed _ => headStatus (supply io) (cause io)
  | .head _ ls _ rest => bodyStatus ls (advance ((supply io).length - rest.length) io)

/-- **The status of a read is a function of the stream and its schedule.** -/
theorem statusOf_stompRead (A : Apr) (io : Io) :
    statusOf (stompRead A io) = readStatus io := by
  unfold readStatus
  cases hhead : scanHead (supply io) with
  | failed rest =>
      obtain ⟨rc, io', hstatus, -, hread⟩ := stompRead_of_failure A hhead
      rw [hread, hstatus]
      rfl
  | head command ls last rest =>
      obtain ⟨-, n, hn, -, hread⟩ := stompRead_of_scan A hhead
      simp only []
      rw [hread, statusOf_readBody, show (supply io).length - rest.length = n by omega]

end LibStomp.Stream.ReadStatus
