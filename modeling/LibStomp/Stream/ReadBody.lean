import LibStomp.Stream.ReadFrame

/-!
# What the body read does

A body without `content-length` is read byte by byte and behaves like a line
(`LibStomp.Stream.ReadLine`).  A counted body is different: it is one receive of
the announced size, followed by one receive of two bytes, and either of them may
deliver less than it was asked for.  `pieceSize` names what the schedule makes
of such a request, and `readCounted_pieces` is the outcome in its terms.
-/

namespace LibStomp.Stream.ReadBody

open LibStomp.Model
open LibStomp.Stream.Grammar
open LibStomp.Stream.ReadLine

/-! ## Receives of any size -/

/-- The most the next scheduled receive moves when `len` bytes are requested. -/
def pieceSize (turns : List Turn) (len : Nat) : Nat :=
  match turns with
  | .upTo extra :: _ => min len (extra + 1)
  | _ => len

theorem pieceSize_le (turns : List Turn) (len : Nat) :
    pieceSize turns len ≤ len := by
  unfold pieceSize
  split
  · exact Nat.min_le_left _ _
  · exact Nat.le_refl _

theorem pieceSize_pos (turns : List Turn) {len : Nat} (h : 0 < len) :
    0 < pieceSize turns len := by
  unfold pieceSize
  split <;> omega

/-- The state after one receive of `k` bytes. -/
def takePiece (k : Nat) (io : Io) : Io :=
  { io with socket :=
    { io.socket with
      inbox := io.socket.inbox.drop k
      recvs := io.socket.recvs.drop 1 } }

@[simp] theorem takePiece_inbox (k : Nat) (io : Io) :
    (takePiece k io).socket.inbox = io.socket.inbox.drop k := rfl

@[simp] theorem takePiece_recvs (k : Nat) (io : Io) :
    (takePiece k io).socket.recvs = io.socket.recvs.drop 1 := rfl

theorem delivering_takePiece {io : Io} (h : Delivering io) (k : Nat) :
    Delivering (takePiece k io) :=
  fun turn ht => h turn (List.mem_of_mem_drop ht)

/-- The status a receive of `len` octets fails with, if it does. -/
def recvStatus (len : Nat) (s : Socket) : Option AprError :=
  match scheduled s.recvs with
  | some rc => some rc
  | none =>
      if len = 0 then some .eof
      else if s.inbox = [] then some s.atEnd
      else none

theorem recvStatus_eq_none {len : Nat} {s : Socket} :
    recvStatus len s = none ↔ scheduled s.recvs = none ∧ len ≠ 0 ∧ s.inbox ≠ [] := by
  unfold recvStatus
  cases scheduled s.recvs with
  | some rc => simp
  | none => by_cases hlen : len = 0 <;> by_cases hin : s.inbox = [] <;> simp [hlen, hin]

/-- **A receive fails with its status or delivers one piece of the stream.** -/
theorem recv_eq (len : Nat) (io : Io) :
    recv len io =
      match recvStatus len io.socket with
      | some rc => .error rc (failed io)
      | none => .ok (io.socket.inbox.take (pieceSize io.socket.recvs len))
          (takePiece (pieceSize io.socket.recvs len) io) := by
  obtain ⟨⟨fd, inbox, outbox, recvs, sends, waits, atEnd⟩, error, endline⟩ := io
  unfold recv aprSocketRecv recvStatus
  cases recvs with
  | nil =>
      by_cases hlen : len = 0 <;> by_cases hin : inbox = [] <;>
        simp [Socket.pull, scheduled, hlen, hin, failed, pieceSize, takePiece]
  | cons turn rest =>
      cases turn with
      | fail rc => rfl
      | upTo extra =>
          by_cases hlen : len = 0 <;> by_cases hin : inbox = [] <;>
            simp [Socket.pull, scheduled, hlen, hin, failed, pieceSize, takePiece]

theorem Delivering.scheduled_eq {io : Io} (hd : Delivering io) :
    scheduled io.socket.recvs = none := by
  cases hrecvs : io.socket.recvs with
  | nil => rfl
  | cons turn rest =>
      obtain ⟨extra, rfl⟩ := hd turn (by simp [hrecvs])
      rfl

/-- A receive on a stream that has bytes delivers one piece of it. -/
theorem recv_piece {io : Io} (hd : Delivering io) {len : Nat} (hlen : 0 < len)
    (hne : io.socket.inbox ≠ []) :
    recv len io =
      .ok (io.socket.inbox.take (pieceSize io.socket.recvs len))
        (takePiece (pieceSize io.socket.recvs len) io) := by
  rw [recv_eq, recvStatus_eq_none.mpr
    ⟨Delivering.scheduled_eq hd, Nat.ne_of_gt hlen, hne⟩]

/-- A request of no bytes fails and takes nothing off the stream. -/
theorem recv_zero (io : Io) :
    ∃ rc io', recv 0 io = .error rc io' ∧ io'.socket.inbox = io.socket.inbox := by
  rw [recv_eq]
  cases hstatus : recvStatus 0 io.socket with
  | some rc => exact ⟨rc, failed io, rfl, rfl⟩
  | none => exact absurd rfl (recvStatus_eq_none.mp hstatus).2.1

/-- At the end of the stream a receive reports how the stream ended. -/
theorem recv_nil {io : Io} (hd : Delivering io) {len : Nat} (hlen : 0 < len)
    (h : io.socket.inbox = []) :
    recv len io = .error io.socket.atEnd (failed io) := by
  have hstatus : recvStatus len io.socket = some io.socket.atEnd := by
    unfold recvStatus
    rw [Delivering.scheduled_eq hd]
    simp [Nat.ne_of_gt hlen, h]
  rw [recv_eq, hstatus]

/-! ## Counted bodies -/

/-- The number of octets `stomp_read` allocates and requests for a counted body. -/
def announced (contentLength : CString) : Nat :=
  (toSize (aprAtoi64 contentLength)).toNat

/-- A counted body of no octets is never read. -/
theorem readCounted_zero (io : Io) {v : CString} (hv : announced v = 0) :
    ∃ rc io', io'.socket.inbox = io.socket.inbox ∧
      readCounted v io = .error rc io' := by
  obtain ⟨rc, io', hrecv, hinbox⟩ := recv_zero io
  rw [← hv] at hrecv
  refine ⟨_, _, ?_, bind_of_error (onError_of_error hrecv)⟩
  exact hinbox

/-- The octets of the buffer allocated for `n` octets that received `received`. -/
def padded (n : Nat) (received : Bytes) : Bytes :=
  received ++ List.replicate (n - received.length) nul

/-- What the two receives at the end of a counted frame deliver when the stream
holds `s`: the body piece and the terminator piece. -/
def endPieces (n : Nat) (s : Bytes) (turns : List Turn) : Bytes × Bytes :=
  (s.take (pieceSize turns n),
    (s.drop (pieceSize turns n)).take (pieceSize (turns.drop 1) 2))

/-- The pieces are cut off the front of the stream. -/
theorem endPieces_append (n : Nat) (s : Bytes) (turns : List Turn) :
    ∃ k, (endPieces n s turns).1 ++ (endPieces n s turns).2 = s.take k :=
  ⟨_, List.take_add.symm⟩

private theorem readCounted_nil {io : Io} (hd : Delivering io) {v : CString}
    (hv : 0 < announced v) (hin : io.socket.inbox = []) :
    ∃ rc io', io'.socket.inbox = [] ∧ readCounted v io = .error rc io' := by
  refine ⟨_, _, ?_, bind_of_error (onError_of_error (recv_nil hd hv hin))⟩
  exact hin

private theorem readCounted_noEnd {io : Io} (hd : Delivering io) {v : CString}
    {k : Nat}
    {body : Bytes} (hbody : recv (announced v) io = .ok body (takePiece k io))
    (hrest : io.socket.inbox.drop k = []) :
    ∃ rc io', io'.socket.inbox = [] ∧ readCounted v io = .error rc io' := by
  have hend := recv_nil (delivering_takePiece hd k) (Nat.succ_pos 1) hrest
  refine ⟨_, _, ?_, (bind_of_ok (onError_of_ok hbody)).trans
    (bind_of_error (onError_of_error hend))⟩
  exact hrest

/-- Both receives of a counted body have succeeded. -/
theorem readCounted_end {io : Io} {v : CString} {k j : Nat}
    {body endbuffer : Bytes}
    (hbody : recv (announced v) io = .ok body (takePiece k io))
    (hend : recv 2 (takePiece k io) =
      .ok endbuffer (takePiece j (takePiece k io))) :
    readCounted v io =
      (if endbuffer ≠ [nul, lf] then
        failWith .egeneral
          (.lit "protocol error (missing data and/or character terminators)")
      else pure (padded (announced v) body, UInt64.ofNat body.length) :
      IoM (Bytes × UInt64))
        (takePiece j (takePiece k io)) :=
  (bind_of_ok (onError_of_ok hbody)).trans (bind_of_ok (onError_of_ok hend))

/-- The pieces, once their sizes `k` and `j` are named. -/
private theorem readCounted_sizes {io : Io} (hd : Delivering io) {v : CString}
    (hv : 0 < announced v) {k j : Nat}
    (hk : k = pieceSize io.socket.recvs (announced v))
    (hj : j = pieceSize (io.socket.recvs.drop 1) 2) {body endbuffer : Bytes}
    (hbody : body = io.socket.inbox.take k)
    (hend : endbuffer = (io.socket.inbox.drop k).take j) :
    if endbuffer = [nul, lf] then
      readCounted v io =
        .ok (padded (announced v) body, UInt64.ofNat body.length)
          (takePiece 2 (takePiece body.length io))
    else
      ∃ rc io',
        io'.socket.inbox = io.socket.inbox.drop (body.length + endbuffer.length) ∧
        readCounted v io = .error rc io' := by
  have hjpos : 0 < j := hj ▸ pieceSize_pos _ (by decide)
  have hj2 : j ≤ 2 := hj ▸ pieceSize_le _ _
  by_cases hin : io.socket.inbox = []
  · obtain ⟨rc, io', hinbox, heq⟩ := readCounted_nil hd hv hin
    rw [hin] at hbody hend
    rw [hend, if_neg (by simp)]
    exact ⟨rc, io', by rw [hinbox, hin, List.drop_nil], heq⟩
  have hrecv : recv (announced v) io = .ok body (takePiece k io) := by
    rw [hbody, hk]
    exact recv_piece hd hv hin
  by_cases hr : io.socket.inbox.drop k = []
  · obtain ⟨rc, io', hinbox, heq⟩ := readCounted_noEnd hd hrecv hr
    have hlen : io.socket.inbox.length ≤ k := List.drop_eq_nil_iff.mp hr
    rw [hr] at hend
    rw [hend, if_neg (by simp)]
    refine ⟨rc, io', ?_, heq⟩
    rw [hinbox, hbody, List.take_of_length_le hlen,
      List.drop_eq_nil_of_le (by omega)]
  have hlt : k < io.socket.inbox.length := by
    rw [← ne_eq, ← List.length_pos_iff, List.length_drop] at hr
    omega
  have hlen : body.length = k := by
    rw [hbody, List.length_take_of_le (Nat.le_of_lt hlt)]
  have hrecv' :
      recv 2 (takePiece k io) = .ok endbuffer (takePiece j (takePiece k io)) := by
    rw [hend, hj]
    exact recv_piece (delivering_takePiece hd k) (Nat.succ_pos 1) hr
  have hrun := readCounted_end hrecv hrecv'
  by_cases he : endbuffer = [nul, lf]
  · rw [if_neg (not_not_intro he)] at hrun
    rw [if_pos he, hrun, hlen]
    have hlen2 := congrArg List.length he
    rw [hend, List.length_take, List.length_drop] at hlen2
    simp only [List.length_cons, List.length_nil] at hlen2
    rw [show j = 2 by omega]
    rfl
  · rw [if_pos he] at hrun
    rw [if_neg he]
    refine ⟨_, _, ?_, hrun⟩
    show (io.socket.inbox.drop k).drop j = _
    rw [List.drop_drop, hlen, hend, List.length_take, List.length_drop]
    rcases Nat.le_total j (io.socket.inbox.length - k) with h | h
    · rw [Nat.min_eq_left h]
    · rw [Nat.min_eq_right h, List.drop_eq_nil_of_le (by omega),
        List.drop_eq_nil_of_le (by omega)]

/-- **A counted body, piece by piece.**  The first piece is taken for the body
whatever its size, and the second one must be exactly NUL LF. -/
theorem readCounted_pieces {io : Io} (hd : Delivering io) {v : CString}
    (hv : 0 < announced v) {p : Bytes × Bytes}
    (hp : p = endPieces (announced v) io.socket.inbox io.socket.recvs) :
    if p.2 = [nul, lf] then
      readCounted v io =
        .ok (padded (announced v) p.1, UInt64.ofNat p.1.length)
          (takePiece 2 (takePiece p.1.length io))
    else
      ∃ rc io',
        io'.socket.inbox = io.socket.inbox.drop (p.1.length + p.2.length) ∧
        readCounted v io = .error rc io' :=
  readCounted_sizes hd hv rfl rfl (congrArg Prod.fst hp) (congrArg Prod.snd hp)

/-! ## `readBody` in its two framings -/

/-- A body without `content-length` that ends in a NUL. -/
theorem readBody_uncounted (A : Apr) (command : CString) {io : Io}
    (hd : Delivering io)
    {headers : Hash} (hcl : headers.lookup (.lit "content-length") = none)
    {p t : Bytes} (hp : nul ∉ p) (hin : io.socket.inbox = p ++ nul :: t) :
    if endlineOf io t ≠ lf then
      ∃ rc io', io'.socket.inbox = io.socket.inbox.drop (p.length + 2) ∧
        readBody A command headers io = .error rc io'
    else
      readBody A command headers io =
        .ok (frameOf command headers (p ++ [nul]) (p.length + 1))
          (advance (p.length + 2) io) := by
  have hread := stompReadBuffer_nul A hd hp hin
  rw [readBody, hcl]
  by_cases he : endlineOf io t = lf
  · rw [if_neg (not_not_intro he)] at hread ⊢
    exact (bind_of_ok (onError_of_ok hread)).trans rfl
  · rw [if_pos he] at hread ⊢
    refine ⟨_, _, ?_, bind_of_error (onError_of_error hread)⟩
    rfl

/-- A body without `content-length` and without a NUL. -/
theorem readBody_unterminated (A : Apr) (command : CString) {io : Io}
    (hd : Delivering io)
    {headers : Hash} (hcl : headers.lookup (.lit "content-length") = none)
    (hnul : nul ∉ io.socket.inbox) :
    ∃ rc io', io'.socket.inbox = [] ∧
      readBody A command headers io = .error rc io' := by
  obtain ⟨io', hinbox, hread⟩ := stompReadBuffer_short A hd hnul
  rw [readBody, hcl]
  refine ⟨_, _, ?_, bind_of_error (onError_of_error hread)⟩
  exact hinbox

/-- A counted body announced with no octets. -/
theorem readBody_zero (A : Apr) (command : CString) (io : Io)
    {headers : Hash} {v : CString}
    (hcl : headers.lookup (.lit "content-length") = some v)
    (hv : announced v = 0) :
    ∃ rc io', io'.socket.inbox = io.socket.inbox ∧
      readBody A command headers io = .error rc io' := by
  obtain ⟨rc, io', hinbox, heq⟩ := readCounted_zero io hv
  rw [readBody, hcl]
  exact ⟨rc, io', hinbox, bind_of_error heq⟩

/-- A counted body of at least one octet. -/
theorem readBody_counted (A : Apr) (command : CString) {io : Io}
    (hd : Delivering io)
    {headers : Hash} {v : CString}
    (hcl : headers.lookup (.lit "content-length") = some v)
    (hv : 0 < announced v) {p : Bytes × Bytes}
    (hp : p = endPieces (announced v) io.socket.inbox io.socket.recvs) :
    if p.2 = [nul, lf] then
      readBody A command headers io =
        .ok (frameOf command headers (padded (announced v) p.1) p.1.length)
          (takePiece 2 (takePiece p.1.length io))
    else
      ∃ rc io',
        io'.socket.inbox = io.socket.inbox.drop (p.1.length + p.2.length) ∧
        readBody A command headers io = .error rc io' := by
  have hread := readCounted_pieces hd hv hp
  rw [readBody, hcl]
  by_cases he : p.2 = [nul, lf]
  · rw [if_pos he] at hread ⊢
    exact (bind_of_ok hread).trans rfl
  · rw [if_neg he] at hread ⊢
    obtain ⟨rc, io', hinbox, heq⟩ := hread
    exact ⟨rc, io', hinbox, bind_of_error heq⟩

/-- Whatever its body, a frame that is returned has the command and the header table
that were read. -/
theorem readBody_head (A : Apr) {command : CString} {headers : Hash} {io io' : Io}
    {frame : Frame} (h : readBody A command headers io = .ok frame io') :
    frame.command = command ∧ frame.headers = some headers := by
  cases hv : headers.lookup (.lit "content-length") with
  | some v =>
      rw [readBody, hv] at h
      obtain ⟨_, _, -, hpure⟩ := bind_eq_ok h
      obtain rfl := (EStateM.Result.ok.inj hpure).1
      exact ⟨rfl, rfl⟩
  | none =>
      rw [readBody, hv] at h
      obtain ⟨_, _, -, hpure⟩ := bind_eq_ok h
      obtain rfl := (EStateM.Result.ok.inj hpure).1
      exact ⟨rfl, rfl⟩

theorem readBody_headers (A : Apr) {command : CString} {headers : Hash}
    {io io' : Io}
    {frame : Frame} (h : readBody A command headers io = .ok frame io') :
    frame.headers = some headers :=
  (readBody_head A h).2

end LibStomp.Stream.ReadBody
