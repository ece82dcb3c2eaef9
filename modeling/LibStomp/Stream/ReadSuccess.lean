import LibStomp.Stream.ReadBody

/-!
# What a successful read has taken

The equations of the modules before this one say what the reader does when no
scheduled receive fails.  Here the schedule is arbitrary and the read has
succeeded: then no receive has failed up to its end, except that the one behind
the NUL of an uncounted body may have.  `FrameRead` is what such a read has found
on the stream.

## Main results

* `frameRead_of_stompRead` — every successful `stomp_read` is one of these.
-/

namespace LibStomp.Stream.ReadSuccess

open LibStomp.Model
open LibStomp.Verified.BlockChain
open LibStomp.Verified.Lines
open LibStomp.Stream.Grammar
open LibStomp.Stream.ReadLine
open LibStomp.Stream.ReadFrame
open LibStomp.Stream.ReadBody

/-! ## Receives -/

/-- A receive that succeeds takes at least one byte off the stream, and as many as it
may. -/
theorem recv_ok {len : Nat} {io io' : Io} {bytes : Bytes}
    (h : recv len io = .ok bytes io') :
    io.socket.inbox = bytes ++ io'.socket.inbox ∧ 1 ≤ bytes.length ∧
      bytes.length = min (pieceSize io.socket.recvs len) io.socket.inbox.length := by
  rw [recv_eq] at h
  cases hstatus : recvStatus len io.socket with
  | some rc => simp [hstatus] at h
  | none =>
      simp only [hstatus] at h
      obtain ⟨rfl, rfl⟩ := EStateM.Result.ok.inj h
      obtain ⟨-, hlen, hne⟩ := recvStatus_eq_none.mp hstatus
      have hpiece := pieceSize_pos io.socket.recvs (Nat.pos_of_ne_zero hlen)
      have hpos : 0 < io.socket.inbox.length := List.length_pos_iff.mpr hne
      refine ⟨(List.take_append_drop _ _).symm, ?_, List.length_take⟩
      rw [List.length_take]
      omega

/-! ## Heads and bodies -/

/-- When `stomp_read` succeeds it has read a head and then the body. -/
theorem stompRead_ok (A : Apr) {io io' : Io} {frame : Frame}
    (h : stompRead A io = .ok frame io') :
    ∃ command ls last rest n,
      scanHead io.socket.inbox = .head command ls last rest ∧
      n = io.socket.inbox.length - rest.length ∧ (advance n io).socket.inbox = rest ∧
      readBody A (CString.ofBuffer command) (table ls) (advance n io) =
        .ok frame io' := by
  cases hhead : scanHead (supply io) with
  | failed rest =>
      obtain ⟨rc, io₁, -, -, herror⟩ := stompRead_of_failure A hhead
      cases herror.symm.trans h
  | head command ls last rest =>
      obtain ⟨-, n, hn, hrest, hread⟩ := stompRead_of_scan A hhead
      -- the stream goes on behind what is supplied of it
      obtain ⟨t, hin⟩ := exists_inbox_eq io
      have hmore : (advance n io).socket.inbox = rest ++ t := by
        rw [advance_inbox, hin, List.drop_append_of_le_length (by omega),
          ← (supply_drop (show n ≤ (supply io).length by omega)).1, hrest]
      refine ⟨command, ls, last, rest ++ t, n, ?_, ?_, hmore, hread.symm.trans h⟩
      · rw [hin]
        exact scanHead_append hhead t
      · rw [hin, List.length_append, List.length_append, hn]
        omega

/-- What a successful `stomp_read` has found on the stream, and what it made of it. -/
inductive FrameRead (io : Io) : Frame → Io → Prop
  | counted {io' : Io} {command last received rest : Bytes} {ls : List Bytes}
      {v : CString}
      (hhead : scanHead io.socket.inbox = .head command ls last rest)
      (hv : contentLength ls = some v)
      (hrest : rest = received ++ nul :: lf :: io'.socket.inbox)
      (hpos : 1 ≤ received.length)
      (hpiece : received.length =
        pieceSize (io.socket.recvs.drop (io.socket.inbox.length - rest.length))
          (announced v)) :
      FrameRead io
        (frameOf (CString.ofBuffer command) (table ls)
          (padded (announced v) received) received.length) io'
  | uncounted {io₁ : Io} {command last payload rest : Bytes} {ls : List Bytes}
      (hhead : scanHead io.socket.inbox = .head command ls last rest)
      (hv : contentLength ls = none)
      (hnul : nul ∉ payload)
      (hrest : rest = payload ++ nul :: io₁.socket.inbox)
      (hio : io₁ = advance
        (io.socket.inbox.length - rest.length + (payload.length + 1)) io)
      (hend : endlineOf io₁ (supply io₁) = lf) :
      FrameRead io
        (frameOf (CString.ofBuffer command) (table ls) (payload ++ [nul])
          (payload.length + 1)) (behindEnd (supply io₁) io₁)

/-- A frame that was read has the command of the head, and the table of its lines. -/
theorem FrameRead.head {io io' : Io} {frame : Frame} (h : FrameRead io frame io') :
    ∃ command ls last rest, scanHead io.socket.inbox = .head command ls last rest ∧
      frame.command = CString.ofBuffer command ∧ frame.headers = some (table ls) := by
  cases h with
  | counted hhead => exact ⟨_, _, _, _, hhead, rfl, rfl⟩
  | uncounted hhead => exact ⟨_, _, _, _, hhead, rfl, rfl⟩

/-- A counted body that was read came in one piece, with its end behind it. -/
private theorem counted_of_readBody (A : Apr) {command : CString} {headers : Hash}
    {v : CString} (hlookup : headers.lookup (.lit "content-length") = some v)
    {io io' : Io} {frame : Frame} (h : readBody A command headers io = .ok frame io') :
    ∃ received, io.socket.inbox = received ++ nul :: lf :: io'.socket.inbox ∧
      1 ≤ received.length ∧
      received.length = pieceSize io.socket.recvs (announced v) ∧
      frame = frameOf command headers (padded (announced v) received)
        received.length := by
  rw [readBody, hlookup] at h
  obtain ⟨⟨body, bodyLength⟩, io₁, hcounted, hpure⟩ := bind_eq_ok h
  obtain ⟨rfl, rfl⟩ := EStateM.Result.ok.inj hpure
  obtain ⟨received, io₂, hrecv, hmore⟩ := bind_eq_ok hcounted
  obtain ⟨endbuffer, io₃, hrecv', hdone⟩ := bind_eq_ok hmore
  obtain ⟨hin, hpos, hlen⟩ := recv_ok (onError_eq_ok hrecv)
  obtain ⟨hin', -, -⟩ := recv_ok (onError_eq_ok hrecv')
  by_cases hend : endbuffer = [nul, lf]
  · rw [if_neg (not_not_intro hend)] at hdone
    obtain ⟨hpair, rfl⟩ := EStateM.Result.ok.inj hdone
    obtain ⟨rfl, rfl⟩ := Prod.mk.inj hpair
    have hinbox : io.socket.inbox = received ++ nul :: lf :: io₃.socket.inbox := by
      rw [hin, hin', hend]
      rfl
    have hlonger := congrArg List.length hinbox
    rw [List.length_append, List.length_cons, List.length_cons] at hlonger
    refine ⟨received, hinbox, hpos, ?_, rfl⟩
    show received.length = pieceSize _ (toSize (aprAtoi64 v)).toNat
    omega
  · rw [if_pos hend] at hdone
    cases hdone

/-- An uncounted body that was read ends at its first NUL. -/
private theorem uncounted_of_readBody (A : Apr) {command : CString} {headers : Hash}
    (hlookup : headers.lookup (.lit "content-length") = none)
    {io io' : Io} {frame : Frame} (h : readBody A command headers io = .ok frame io') :
    ∃ payload io₁, nul ∉ payload ∧ io₁ = advance (payload.length + 1) io ∧
      io.socket.inbox = payload ++ nul :: io₁.socket.inbox ∧
      endlineOf io₁ (supply io₁) = lf ∧ io' = behindEnd (supply io₁) io₁ ∧
      frame = frameOf command headers (payload ++ [nul]) (payload.length + 1) := by
  rw [readBody, hlookup] at h
  obtain ⟨⟨body, bodyLength⟩, io₂, hbuffer, hpure⟩ := bind_eq_ok h
  obtain ⟨rfl, rfl⟩ := EStateM.Result.ok.inj hpure
  have hread := onError_eq_ok hbuffer
  have hscan := stompReadBuffer_scan A io
  cases hline : scanLine nul nul (supply io) with
  | short =>
      rw [hline] at hscan
      cases hscan.symm.trans hread
  | stop p t =>
      rw [hline] at hscan
      cases hscan.symm.trans hread
  | line p t =>
      rw [hline] at hscan
      obtain ⟨htext, hclean⟩ := scanLine_line_iff.mp hline
      have hsplit : supply io = (p ++ [nul]) ++ t := by simp [htext]
      obtain ⟨hin, rfl, -⟩ := supply_append hsplit
      rw [List.length_append, List.length_singleton] at hin hscan
      by_cases hend : endlineOf io (supply (advance (p.length + 1) io)) = lf
      · simp only [] at hscan
        rw [if_neg (not_not_intro hend), hread] at hscan
        obtain ⟨hpair, rfl⟩ := EStateM.Result.ok.inj hscan
        obtain ⟨rfl, rfl⟩ := Prod.mk.inj hpair
        exact ⟨p, _, hclean.1, rfl, by rw [hin]; simp, hend, rfl, rfl⟩
      · simp only [] at hscan
        rw [if_pos hend, hread] at hscan
        cases hscan

/-- **Every successful `stomp_read` is one of these**, whatever the schedule. -/
theorem frameRead_of_stompRead (A : Apr) {io io' : Io} {frame : Frame}
    (h : stompRead A io = .ok frame io') : FrameRead io frame io' := by
  obtain ⟨command, ls, last, rest, n, hhead, hn, hinbox, hbody⟩ := stompRead_ok A h
  cases hv : contentLength ls with
  | some v =>
      obtain ⟨received, hrest, hpos, hpiece, rfl⟩ := counted_of_readBody A hv hbody
      rw [hinbox] at hrest
      rw [advance_recvs, hn] at hpiece
      exact .counted hhead hv hrest hpos hpiece
  | none =>
      obtain ⟨payload, io₁, hnul, hio, hrest, hend, rfl, rfl⟩ :=
        uncounted_of_readBody A hv hbody
      rw [hinbox] at hrest
      rw [advance_advance, hn] at hio
      exact .uncounted hhead hv hnul hrest hio hend

end LibStomp.Stream.ReadSuccess
