import LibStomp.Stream.WholeFrames

/-!
# Frames that are cut off

The socket may report an end of file, a timeout or another error in the middle of
a frame.  Every receive of the reader checks for it but two.  The one behind the
NUL of an uncounted body drops its status, and what is compared with LF then is an
uninitialised local; and the receive of a counted body takes whatever it gets for
all of it, so that a NUL and an LF within the body can end the frame.

## Main results

* `truncated_refused_iff` — a cut frame is refused unless one of these happens.
-/

namespace LibStomp.Stream.Truncation

open LibStomp.Model
open LibStomp.Verified.Lines
open LibStomp.Stream.Grammar
open LibStomp.Stream.ReadLine
open LibStomp.Stream.ReadFrame
open LibStomp.Stream.ReadBody
open LibStomp.Stream.WholeFrames

/-! ## Accepted frames -/

/-- The bytes are read as one frame, and none of them is left. -/
def AcceptsWhole (A : Apr) (w : Bytes) : Prop :=
  ∃ io frame io', Delivering io ∧ io.socket.inbox = w ∧
    stompRead A io = .ok frame io' ∧ io'.socket.inbox = []

/-- The reader takes `p`, which `q` would complete, for a frame: only the LF is
missing behind an uncounted body, and the local the code then looks at happens to
hold one; or the receive of a counted body stops before its end, and a NUL and an
LF are next. -/
def EndAssumed (p q : Bytes) (io : Io) : Prop :=
  match scanHead p with
  | .failed _ => False
  | .head _ ls _ rest =>
      match contentLength ls with
      | none => q = [lf] ∧ io.endline = lf
      | some v =>
          (endPieces (announced v) rest
            (io.socket.recvs.drop (p.length - rest.length))).2 = [nul, lf]

instance (p q : Bytes) (io : Io) : Decidable (EndAssumed p q io) :=
  match hhead : scanHead p with
  | .failed _ => .isFalse (by simp [EndAssumed, hhead])
  | .head _ ls _ rest =>
      match hv : contentLength ls with
      | none => decidable_of_iff (q = [lf] ∧ io.endline = lf)
          (by simp [EndAssumed, hhead, hv])
      | some v => decidable_of_iff
          ((endPieces (announced v) rest
            (io.socket.recvs.drop (p.length - rest.length))).2 = [nul, lf])
          (by simp [EndAssumed, hhead, hv])

section Accepted

variable {A : Apr} {p q command last rest : Bytes} {ls : List Bytes}
variable (hw : AcceptsWhole A (p ++ q))
    (hhead : scanHead p = .head command ls last rest)
include hw hhead

/-- The body of the whole frame, read to its end. -/
private theorem readBody_of_acceptsWhole :
    ∃ io frame io', Delivering io ∧ io.socket.inbox = rest ++ q ∧
      readBody A (CString.ofBuffer command) (table ls) io = .ok frame io' ∧
      io'.socket.inbox = [] := by
  obtain ⟨io, frame, io', hd, hin, hread, hall⟩ := hw
  have hwhole := scanHead_append hhead q
  rw [← hin] at hwhole
  obtain ⟨n, -, hrest, heq⟩ := stompRead_of_head A hd hwhole
  exact ⟨advance n io, frame, io', hd.advance n, hrest, heq.symm.trans hread, hall⟩

/-- A counted body is announced with at least one octet. -/
private theorem announced_pos_of_acceptsWhole {v : CString}
    (hv : contentLength ls = some v) : 0 < announced v := by
  obtain ⟨io, frame, io', hd, -, hread, -⟩ := readBody_of_acceptsWhole hw hhead
  apply Nat.pos_of_ne_zero
  intro hzero
  obtain ⟨rc, _, -, herror⟩ :=
    readBody_zero A (CString.ofBuffer command) io hv hzero
  cases hread.symm.trans herror

/-- An uncounted body ends at its first NUL, with at most an LF behind it. -/
private theorem end_of_uncounted (hv : contentLength ls = none) :
    ∃ payload u, nul ∉ payload ∧ rest ++ q = payload ++ nul :: u ∧
      (u = [] ∨ u = [lf]) := by
  obtain ⟨io, frame, io', hd, hin, hread, hall⟩ := readBody_of_acceptsWhole hw hhead
  by_cases hnul : nul ∈ io.socket.inbox
  · obtain ⟨payload, u, hsplit, hpayload⟩ := List.eq_append_cons_of_mem hnul
    refine ⟨payload, u, hpayload, hin.symm.trans hsplit, ?_⟩
    have hok := readBody_uncounted A (CString.ofBuffer command) hd hv hpayload hsplit
    by_cases hlf : endlineOf io u = lf
    · rw [if_neg (not_not_intro hlf), hread] at hok
      obtain rfl := (EStateM.Result.ok.inj hok).2
      rw [advance_inbox, hsplit, List.drop_eq_nil_iff, List.length_append,
        List.length_cons] at hall
      cases u with
      | nil => exact .inl rfl
      | cons b u =>
          obtain rfl : u = [] := by
            rw [List.length_cons] at hall
            exact List.length_eq_zero_iff.mp (by omega)
          obtain rfl : b = lf := hlf
          exact .inr rfl
    · rw [if_pos hlf] at hok
      obtain ⟨rc, _, -, herror⟩ := hok
      cases hread.symm.trans herror
  · obtain ⟨rc, _, -, herror⟩ :=
      readBody_unterminated A (CString.ofBuffer command) hd hv hnul
    cases hread.symm.trans herror

variable {io : Io} (hd : Delivering io) (hin : io.socket.inbox = rest)
include hd hin

/-- Without its end, an uncounted body is refused unless only the LF is missing. -/
private theorem cut_uncounted (hq : q ≠ []) (hv : contentLength ls = none) :
    (∃ rc io', readBody A (CString.ofBuffer command) (table ls) io =
        .error rc io') ↔
      ¬ (q = [lf] ∧ io.endline = lf) := by
  obtain ⟨payload, u, hpayload, hwhole, hu⟩ := end_of_uncounted hw hhead hv
  by_cases hnul : nul ∈ io.socket.inbox
  · obtain ⟨payload', t, hsplit, hpayload'⟩ := List.eq_append_cons_of_mem hnul
    -- the first NUL of the part is that of the whole
    rw [← hin, hsplit, List.append_assoc, List.cons_append] at hwhole
    obtain ⟨-, htail⟩ := append_cons_inj hpayload' hpayload hwhole
    obtain ⟨rfl, rfl⟩ : t = [] ∧ q = [lf] := by
      rcases hu with rfl | rfl
      · exact absurd (List.append_eq_nil_iff.mp htail).2 hq
      · rcases List.append_eq_singleton_iff.mp htail with h | ⟨-, h⟩
        · exact h
        · exact absurd h hq
    have hread :=
      readBody_uncounted A (CString.ofBuffer command) hd hv hpayload' hsplit
    by_cases hlf : io.endline = lf
    · have hend : endlineOf io [] = lf := hlf
      rw [if_neg (not_not_intro hend)] at hread
      constructor
      · rintro ⟨rc, io', herror⟩
        cases hread.symm.trans herror
      · intro hno
        exact absurd ⟨rfl, hlf⟩ hno
    · have hend : endlineOf io [] ≠ lf := hlf
      rw [if_pos hend] at hread
      obtain ⟨rc, io', -, herror⟩ := hread
      exact ⟨fun _ hyes => hlf hyes.2, fun _ => ⟨rc, io', herror⟩⟩
  · obtain ⟨rc, io', -, herror⟩ :=
      readBody_unterminated A (CString.ofBuffer command) hd hv hnul
    refine ⟨fun _ hyes => hnul ?_, fun _ => ⟨rc, io', herror⟩⟩
    have hmem : nul ∈ rest ++ q := by
      rw [hwhole]
      simp
    rw [hyes.1, ← hin, List.mem_append, List.mem_singleton] at hmem
    exact hmem.resolve_right (by decide)

/-- Without its end, a counted body is refused unless NUL and LF come next. -/
private theorem cut_counted {v : CString} (hv : contentLength ls = some v) :
    (∃ rc io', readBody A (CString.ofBuffer command) (table ls) io =
        .error rc io') ↔
      ¬ (endPieces (announced v) rest io.socket.recvs).2 = [nul, lf] := by
  have hpos := announced_pos_of_acceptsWhole hw hhead hv
  have hread := readBody_counted A (CString.ofBuffer command) hd hv hpos rfl
  rw [hin] at hread
  by_cases hend : (endPieces (announced v) rest io.socket.recvs).2 = [nul, lf]
  · rw [if_pos hend] at hread
    constructor
    · rintro ⟨rc, io', herror⟩
      cases hread.symm.trans herror
    · intro hno
      exact absurd hend hno
  · rw [if_neg hend] at hread
    obtain ⟨rc, io', -, herror⟩ := hread
    exact ⟨fun _ => hend, fun _ => ⟨rc, io', herror⟩⟩

end Accepted

/-! ## Cut frames -/

private theorem refused_iff (A : Apr) {p q : Bytes} (hw : AcceptsWhole A (p ++ q))
    (hq : q ≠ []) {io : Io} (hd : Delivering io) (hin : io.socket.inbox = p) :
    (∃ rc io', stompRead A io = .error rc io') ↔ ¬ EndAssumed p q io := by
  unfold EndAssumed
  cases hhead : scanHead p with
  | failed rest =>
      obtain ⟨rc, io', -, herror⟩ := stompRead_of_failed A hd (by rw [hin, hhead])
      exact ⟨fun _ hno => hno, fun _ => ⟨rc, io', herror⟩⟩
  | head command ls last rest =>
      obtain ⟨n, hn, hrest, heq⟩ := stompRead_of_head A hd (by rw [hin, hhead])
      rw [heq]
      cases hv : contentLength ls with
      | none =>
          simp only [hv]
          exact cut_uncounted hw hhead (hd.advance n) hrest hq hv
      | some v =>
          have hcount : n = p.length - rest.length := by
            rw [hin] at hn
            omega
          have hcut := cut_counted hw hhead (hd.advance n) hrest hv
          rw [advance_recvs, hcount] at hcut
          simp only [hv]
          rwa [hcount]

/-- **A cut frame is refused unless its end is assumed.**  Whatever the error the
socket reports behind `p`, and whatever the uninitialised local holds. -/
theorem truncated_refused_iff (A : Apr) (p q : Bytes)
    (hw : AcceptsWhole A (p ++ q)) (hq : q ≠ []) (io : Io) (hd : Delivering io)
    (hin : io.socket.inbox = p) :
    (∃ rc io', stompRead A io = .error rc io') ↔ ¬ EndAssumed p q io :=
  refused_iff A hw hq hd hin

/-- The answer to a request for a receipt. -/
def receiptFrame : WireFrame where
  command := ascii "RECEIPT"
  lines := [ascii "receipt-id:7"]
  payload := []
  command_clean := clean_receipt
  lines_header := by decide +kernel
  payload_ok := by decide +kernel

private theorem acceptsWhole_receiptFrame : AcceptsWhole .sample receiptFrame.bytes := by
  have hd : Delivering (Io.fresh receiptFrame.bytes) := by simp [Delivering, Io.fresh]
  obtain ⟨turns, -, hread⟩ := stompRead_wire .sample hd (w := receiptFrame) (t := [])
    (by decide +kernel) (by decide +kernel) (fun v _ => whole_nil _)
    (by simp [Io.fresh])
  exact ⟨_, _, _, hd, rfl, hread, rfl⟩

/-- The frame without its last byte, while the local holds `endline`. -/
def cutReceipt (endline : UInt8) : Io :=
  { Io.fresh receiptFrame.bytes.dropLast with endline := endline }

theorem truncated_refused_receiptFrame :
    ∃ rc io', stompRead .sample (cutReceipt nul) = .error rc io' := by
  refine (truncated_refused_iff .sample receiptFrame.bytes.dropLast [lf] ?_
    (by decide) (cutReceipt nul) ?_ rfl).mpr (by decide +kernel)
  · exact acceptsWhole_receiptFrame
  · simp [Delivering, cutReceipt, Io.fresh]

/-- With an LF there it is accepted. -/
theorem truncated_refused_fails :
    ¬ ∀ (A : Apr) (p q : Bytes), AcceptsWhole A (p ++ q) → q ≠ [] →
      ∀ io : Io, Delivering io → io.socket.inbox = p →
        ∃ rc io', stompRead A io = .error rc io' := by
  intro h
  have hd : Delivering (cutReceipt lf) := by simp [Delivering, cutReceipt, Io.fresh]
  have herror := h .sample receiptFrame.bytes.dropLast [lf] acceptsWhole_receiptFrame
    (by decide) (cutReceipt lf) hd rfl
  exact (refused_iff .sample acceptsWhole_receiptFrame (q := [lf]) (by decide) hd
    rfl).mp herror (by decide +kernel)

end LibStomp.Stream.Truncation
