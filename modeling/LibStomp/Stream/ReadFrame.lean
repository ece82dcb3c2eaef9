import LibStomp.Stream.Grammar
import LibStomp.Stream.ReadLine

/-!
# What `stomp_read` does, stage by stage

The head of a frame (command line and header block) is read byte by byte, so its
outcome is a function of the bytes that are supplied alone: `scanHead`.
`stompRead_of_scan` and `stompRead_of_failure` say so, and name the state in which
the body is then read; `stompRead_of_head` and `stompRead_of_failed` are the same
on a stream that delivers.
-/

namespace LibStomp.Stream.ReadFrame

open LibStomp.Model
open LibStomp.Verified.Lines
open LibStomp.Stream.Grammar
open LibStomp.Stream.ReadLine

/-! ## The header loop -/

/-- One round of the header loop on a line that was read. -/
private theorem readHeaders_line (A : Apr) {io : Io} {l : Bytes} (hl : nul ∉ l)
    (hread : stompReadLine A io =
      .ok (l ++ [nul], cInt l.length) (advance (l.length + 1) io)) (fuel : Nat)
    (headers : Hash) :
    readHeaders A (fuel + 1) headers io =
      (if wraps l then pure headers
        else if hasColon l then readHeaders A fuel (insertLine headers l)
        else failWith .egeneral (.lit
          "protocol error (expected : within received string but got none in string '" ++
            CString.ofBuffer (l ++ [nul]) ++ .lit "')") : IoM Hash)
        (advance (l.length + 1) io) := by
  rw [readHeaders, bind_of_ok hread]
  simp only [splitColon_line hl]
  by_cases hw : wraps l = true
  · simp only [hw, wraps_iff.mp hw, if_true]
  · have hzero : cInt l.length ≠ 0 := fun h => hw (wraps_iff.mpr h)
    simp only [hw, hzero, if_false, Bool.false_eq_true]
    cases hasColon l <;> rfl

/-- What is supplied behind a line and the symbol that ends it. -/
private theorem supply_line {io : Io} {l t : Bytes} {b : UInt8}
    (h : supply io = l ++ b :: t) :
    (supply io).length = l.length + 1 + t.length ∧
      io.socket.inbox.length =
        l.length + 1 + (advance (l.length + 1) io).socket.inbox.length ∧
      supply (advance (l.length + 1) io) = t ∧
      cause (advance (l.length + 1) io) = cause io := by
  have hsplit : supply io = (l ++ [b]) ++ t := by simp [h]
  obtain ⟨hin, hsupply, hcause⟩ := supply_append hsplit
  have hlen := congrArg List.length hin
  rw [List.length_append] at hlen
  rw [List.length_append, List.length_singleton] at hin hsupply hcause hlen
  refine ⟨?_, hlen, hsupply, hcause⟩
  rw [h, List.length_append, List.length_cons]
  omega

/-- What the header loop does on each outcome of the block scan. -/
theorem readHeaders_scan (A : Apr) {fuel : Nat} :
    ∀ (io : Io) (headers : Hash), io.socket.inbox.length < fuel →
      match scanBlock lf nul wraps hasColon (supply io) with
      | .done ls _ rest =>
          ∃ n, (supply io).length = n + rest.length ∧
            supply (advance n io) = rest ∧
            readHeaders A fuel headers io =
              .ok (ls.foldl insertLine headers) (advance n io)
      | .refused rest =>
          ∃ n io', (supply io).length = n + rest.length ∧
            supply (advance n io) = rest ∧ io'.socket = (advance n io).socket ∧
            readHeaders A fuel headers io = .error .egeneral io'
      | .short =>
          ∃ io', io'.socket.inbox = (advance (supply io).length io).socket.inbox ∧
            readHeaders A fuel headers io = .error (cause io) io' := by
  induction fuel with
  | zero => intro io headers h; omega
  | succ fuel ih =>
      intro io headers hfuel
      have hread := stompReadLine_scan A io
      rw [scanBlock_eq]
      cases hline : scanLine lf nul (supply io) with
      | short =>
          rw [hline] at hread
          refine ⟨_, ?_, bind_of_error hread⟩
          rfl
      | stop l t =>
          rw [hline] at hread
          obtain ⟨hlen, -, hsupply, -⟩ := supply_line (scanLine_stop hline)
          refine ⟨l.length + 1, _, hlen, hsupply, ?_, bind_of_error hread⟩
          rfl
      | line l t =>
          rw [hline] at hread
          obtain ⟨htext, hclean⟩ := scanLine_line_iff.mp hline
          obtain ⟨hlen, hinbox, hsupply, hcause⟩ := supply_line htext
          have hstep := readHeaders_line A hclean.2 hread fuel headers
          rw [hstep]
          simp only []
          by_cases hw : wraps l = true
          · simp only [hw, if_true]
            exact ⟨l.length + 1, hlen, hsupply, rfl⟩
          by_cases hc : hasColon l = true
          · simp only [hw, hc, if_false, if_true, Bool.false_eq_true]
            have hrec := ih (advance (l.length + 1) io) (insertLine headers l)
              (by omega)
            rw [hsupply] at hrec
            cases hscan : scanBlock lf nul wraps hasColon t with
            | done ls last rest =>
                rw [hscan] at hrec
                obtain ⟨n, hn, hrest, heq⟩ := hrec
                rw [advance_advance] at hrest heq
                exact ⟨l.length + 1 + n, by omega, hrest, heq⟩
            | refused rest =>
                rw [hscan] at hrec
                obtain ⟨n, io', hn, hrest, hsocket, heq⟩ := hrec
                rw [advance_advance] at hrest hsocket
                exact ⟨l.length + 1 + n, io', by omega, hrest, hsocket, heq⟩
            | short =>
                rw [hscan] at hrec
                obtain ⟨io', hrest, heq⟩ := hrec
                rw [advance_advance, ← hlen] at hrest
                exact ⟨io', hrest, hcause ▸ heq⟩
          · simp only [hw, hc, if_false, Bool.false_eq_true]
            refine ⟨l.length + 1, _, hlen, hsupply, ?_, rfl⟩
            rfl

/-! ## The head of a frame -/

/-- Outcome of reading a frame up to its body. -/
inductive HeadScan
  | head (command : Bytes) (lines : List Bytes) (last rest : Bytes)
  | failed (rest : Bytes)

/-- The head of a frame as the code reads it off the bytes. -/
def scanHead (s : Bytes) : HeadScan :=
  match scanLine lf nul s with
  | .short => .failed []
  | .stop _ t => .failed t
  | .line command t =>
      match scanBlock lf nul wraps hasColon t with
      | .done ls last rest => .head command ls last rest
      | .refused rest => .failed rest
      | .short => .failed []

theorem scanHead_of_scan {command t last rest : Bytes} {ls : List Bytes}
    (hcommand : Clean lf nul command)
    (hscan : scanBlock lf nul wraps hasColon t = .done ls last rest) :
    scanHead (command ++ lf :: t) = .head command ls last rest := by
  rw [scanHead, scanLine_append hcommand]
  simp only [hscan]

/-- What the code takes for the head of a stream, as bytes. -/
theorem scanHead_text {s command last rest : Bytes} {ls : List Bytes}
    (h : scanHead s = .head command ls last rest) :
    s = command ++ lf :: (joinLines lf ls ++ last ++ lf :: rest) ∧
      Clean lf nul command ∧
      scanBlock lf nul wraps hasColon (joinLines lf ls ++ last ++ lf :: rest) =
        .done ls last rest := by
  rw [scanHead] at h
  cases hline : scanLine lf nul s with
  | short => simp [hline] at h
  | stop l t => simp [hline] at h
  | line l t =>
      simp only [hline] at h
      obtain ⟨rfl, hclean⟩ := scanLine_line_iff.mp hline
      cases hscan : scanBlock lf nul wraps hasColon t with
      | done ls' last' rest' =>
          simp only [hscan, HeadScan.head.injEq] at h
          obtain ⟨rfl, rfl, rfl, rfl⟩ := h
          obtain ⟨rfl, -⟩ := scanBlock_done_iff.mp hscan
          exact ⟨rfl, hclean, hscan⟩
      | refused rest' => simp [hscan] at h
      | short => simp [hscan] at h

/-- The lines the code puts in the table are not taken for the empty one. -/
theorem wraps_of_scanHead {s command last rest : Bytes} {ls : List Bytes}
    (h : scanHead s = .head command ls last rest) :
    ∀ l ∈ ls, wraps l = false := by
  obtain ⟨-, -, hcode⟩ := scanHead_text h
  exact fun l hl => ((scanBlock_done_iff.mp hcode).2.1 l hl).2.1

/-- A head that is complete stays so when more bytes come. -/
theorem scanHead_append {s command last rest : Bytes} {ls : List Bytes}
    (h : scanHead s = .head command ls last rest) (t : Bytes) :
    scanHead (s ++ t) = .head command ls last (rest ++ t) := by
  obtain ⟨htext, hcommand, hscan⟩ := scanHead_text h
  obtain ⟨-, hlines, hlast, hwraps⟩ := scanBlock_done_iff.mp hscan
  have hlonger :
      scanBlock lf nul wraps hasColon (joinLines lf ls ++ last ++ lf :: (rest ++ t)) =
        .done ls last (rest ++ t) :=
    scanBlock_done_iff.mpr ⟨rfl, hlines, hlast, hwraps⟩
  have hsplit : s ++ t =
      command ++ lf :: (joinLines lf ls ++ last ++ lf :: (rest ++ t)) := by
    rw [htext]
    simp
  rw [hsplit, scanHead_of_scan hcommand hlonger]

/-- The status with which the head of a frame is refused, where `rc` is that of the
receive behind the bytes `s`. -/
def headStatus (s : Bytes) (rc : AprError) : Option AprError :=
  match scanLine lf nul s with
  | .short => some rc
  | .stop _ _ => some .egeneral
  | .line _ t =>
      match scanBlock lf nul wraps hasColon t with
      | .done _ _ _ => none
      | .refused _ => some .egeneral
      | .short => some rc

/-- After the command line come the headers and the body. -/
private theorem stompRead_line (A : Apr) {io : Io} {l : Bytes} {k : Int}
    (hread : stompReadLine A io = .ok (l ++ [nul], k) (advance (l.length + 1) io)) :
    stompRead A io =
      (readHeaders A ((advance (l.length + 1) io).socket.inbox.length + 1) ∅ >>=
        readBody A (CString.ofBuffer (l ++ [nul])))
        (advance (l.length + 1) io) := by
  rw [stompRead, bind_of_ok hread]
  rfl

/-- When the head scan fails, so does `stomp_read`, after the same bytes. -/
theorem stompRead_of_failure (A : Apr) {io : Io} {rest : Bytes}
    (h : scanHead (supply io) = .failed rest) :
    ∃ rc io', headStatus (supply io) (cause io) = some rc ∧
      (Delivering io → io'.socket.inbox = rest) ∧ stompRead A io = .error rc io' := by
  have hread := stompReadLine_scan A io
  unfold headStatus
  rw [scanHead] at h
  cases hline : scanLine lf nul (supply io) with
  | short =>
      rw [hline] at hread h
      obtain rfl := HeadScan.failed.inj h
      refine ⟨_, _, rfl, fun hd => ?_, bind_of_error hread⟩
      rw [hd.supply_eq.1]
      exact List.drop_length
  | stop l t =>
      rw [hline] at hread h
      obtain rfl := HeadScan.failed.inj h
      obtain ⟨-, -, hsupply, -⟩ := supply_line (scanLine_stop hline)
      refine ⟨_, _, rfl, fun hd => ?_, bind_of_error hread⟩
      rw [← hsupply, (hd.advance _).supply_eq.1]
      rfl
  | line l t =>
      rw [hline] at hread h
      obtain ⟨htext, hclean⟩ := scanLine_line_iff.mp hline
      obtain ⟨-, -, hsupply, hcause⟩ := supply_line htext
      have hloop := readHeaders_scan A (advance (l.length + 1) io) ∅
        (Nat.lt_succ_self _)
      rw [hsupply] at hloop
      have hstep := stompRead_line A hread
      simp only [] at h ⊢
      cases hscan : scanBlock lf nul wraps hasColon t with
      | done ls last rest' => simp [hscan] at h
      | refused rest' =>
          rw [hscan] at hloop h
          obtain ⟨n, io', -, hrest, hsocket, heq⟩ := hloop
          obtain rfl := HeadScan.failed.inj h
          refine ⟨_, io', rfl, fun hd => ?_, hstep.trans (bind_of_error heq)⟩
          rw [hsocket, ← ((hd.advance _).advance n).supply_eq.1, hrest]
      | short =>
          rw [hscan] at hloop h
          obtain ⟨io', hinbox, heq⟩ := hloop
          obtain rfl := HeadScan.failed.inj h
          rw [hcause] at heq
          refine ⟨_, io', rfl, fun hd => ?_, hstep.trans (bind_of_error heq)⟩
          rw [hinbox, ← hsupply, (hd.advance _).supply_eq.1]
          exact List.drop_length

/-- When the head scan succeeds, `stomp_read` reads the body next, `n` one-byte
receives later. -/
theorem stompRead_of_scan (A : Apr) {io : Io} {command last rest : Bytes}
    {ls : List Bytes} (h : scanHead (supply io) = .head command ls last rest) :
    headStatus (supply io) (cause io) = none ∧
      ∃ n, (supply io).length = n + rest.length ∧ supply (advance n io) = rest ∧
        stompRead A io =
          readBody A (CString.ofBuffer command) (table ls) (advance n io) := by
  have hread := stompReadLine_scan A io
  unfold headStatus
  rw [scanHead] at h
  cases hline : scanLine lf nul (supply io) with
  | short => simp [hline] at h
  | stop l t => simp [hline] at h
  | line l t =>
      rw [hline] at hread h
      obtain ⟨htext, hclean⟩ := scanLine_line_iff.mp hline
      obtain ⟨hlen, -, hsupply, -⟩ := supply_line htext
      have hloop := readHeaders_scan A (advance (l.length + 1) io) ∅
        (Nat.lt_succ_self _)
      rw [hsupply] at hloop
      have hstep := stompRead_line A hread
      simp only [] at h ⊢
      cases hscan : scanBlock lf nul wraps hasColon t with
      | done ls' last' rest' =>
          rw [hscan] at hloop h
          obtain ⟨n, hn, hrest, heq⟩ := hloop
          obtain ⟨rfl, rfl, rfl, rfl⟩ := HeadScan.head.inj h
          rw [advance_advance] at hrest heq
          refine ⟨rfl, l.length + 1 + n, by omega, hrest, ?_⟩
          rw [hstep, bind_of_ok heq, ofBuffer_terminated]
          rfl
      | refused rest' => simp [hscan] at h
      | short => simp [hscan] at h

/-! ## Streams that deliver -/

theorem stompRead_of_failed (A : Apr) {io : Io} (hd : Delivering io)
    {rest : Bytes} (h : scanHead io.socket.inbox = .failed rest) :
    ∃ rc io', io'.socket.inbox = rest ∧ stompRead A io = .error rc io' := by
  rw [← hd.supply_eq.1] at h
  obtain ⟨rc, io', -, hinbox, hread⟩ := stompRead_of_failure A h
  exact ⟨rc, io', hinbox hd, hread⟩

theorem stompRead_of_head (A : Apr) {io : Io} (hd : Delivering io)
    {command last rest : Bytes} {ls : List Bytes}
    (h : scanHead io.socket.inbox = .head command ls last rest) :
    ∃ n, io.socket.inbox.length = n + rest.length ∧
      (advance n io).socket.inbox = rest ∧
      stompRead A io = readBody A (CString.ofBuffer command) (table ls)
        (advance n io) := by
  rw [← hd.supply_eq.1] at h ⊢
  obtain ⟨-, n, hn, hrest, hread⟩ := stompRead_of_scan A h
  exact ⟨n, hn, (hd.advance n).supply_eq.1.symm.trans hrest, hread⟩

end LibStomp.Stream.ReadFrame
