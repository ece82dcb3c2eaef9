import LibStomp.Stream.ReadBody

/-!
# Complete frames

A frame whose counted body, if it has one, arrives in one piece together with
its end is read as the grammar says: `stompRead_wire`.  The converse for a
stream that delivers all it can is `readBody_error`.
-/

namespace LibStomp.Stream.WholeFrames

open LibStomp.Model
open LibStomp.Verified.Lines
open LibStomp.Stream.Grammar
open LibStomp.Stream.ReadLine
open LibStomp.Stream.ReadFrame
open LibStomp.Stream.ReadBody

/-! ## Announced lengths -/

theorem announced_eq {v : CString} (h : 1 ≤ aprAtoi64 v) :
    (announced v : Int) = aprAtoi64 v := by
  have hlt := aprAtoi64_lt v
  unfold announced toSize
  rw [UInt64.toNat_ofNat']
  omega

theorem announced_pos {v : CString} (h : 1 ≤ aprAtoi64 v) : 0 < announced v := by
  have := announced_eq h
  omega

/-- The length announced for a payload is its length. -/
theorem announced_of_payloadOk {ls : List Bytes} {payload : Bytes} {v : CString}
    (h : PayloadOk ls payload) (hv : contentLength ls = some v) :
    announced v = payload.length := by
  have hlength := h.length_eq hv
  have hlt := aprAtoi64_lt v
  unfold announced toSize
  rw [UInt64.toNat_ofNat']
  omega

/-! ## Bodies -/

/-- `rest` starts with a body in the framing of the header block `ls`: the
octets `payload`, then `t`.  The stream may end right after the NUL of an
uncounted body if the local the code then looks at happens to hold a newline. -/
def BodyAt (endline : UInt8) (ls : List Bytes) (rest payload t : Bytes) : Prop :=
  match contentLength ls with
  | some v => payload.length = announced v ∧ rest = payload ++ nul :: lf :: t
  | none => nul ∉ payload ∧
      (rest = payload ++ nul :: lf :: t ∨
        rest = payload ++ [nul] ∧ endline = lf ∧ t = [])

/-- The coming two receives deliver a body of `n` octets and its end whole. -/
def Whole (n : Nat) (turns : List Turn) : Prop :=
  pieceSize turns n = n ∧ pieceSize (turns.drop 1) 2 = 2

theorem whole_nil (n : Nat) : Whole n [] := ⟨rfl, rfl⟩

theorem endPieces_of_whole {n : Nat} {turns : List Turn} (h : Whole n turns)
    (s : Bytes) :
    endPieces n s turns = (s.take n, (s.drop n).take 2) := by
  rw [endPieces, h.1, h.2]

/-- The two end bytes, found `n` octets in, split the stream there. -/
theorem take_of_end {n : Nat} {s : Bytes}
    (h : (s.drop n).take 2 = [nul, lf]) :
    (s.take n).length = n ∧ s = s.take n ++ nul :: lf :: s.drop (n + 2) := by
  have hlen := congrArg List.length h
  simp only [List.length_take, List.length_drop, List.length_cons,
    List.length_nil] at hlen
  have hdrop : s.drop n = nul :: lf :: s.drop (n + 2) :=
    calc s.drop n = (s.drop n).take 2 ++ (s.drop n).drop 2 :=
      (List.take_append_drop 2 _).symm
      _ = nul :: lf :: s.drop (n + 2) := by rw [h, List.drop_drop]; rfl
  refine ⟨?_, ?_⟩
  · rw [List.length_take]
    omega
  · rw [← hdrop, List.take_append_drop]

section Bodies

variable (A : Apr) (command : Bytes) {io : Io} {ls : List Bytes}

/-- A body that is there is read, and nothing behind it. -/
theorem readBody_ok (hd : Delivering io) (hsized : Sized ls)
    (hwhole : ∀ v, contentLength ls = some v →
      Whole (announced v) io.socket.recvs)
    {payload t : Bytes} (h : BodyAt io.endline ls io.socket.inbox payload t) :
    ∃ turns, turns <:+ io.socket.recvs ∧
      readBody A (CString.ofBuffer command) (table ls) io =
        .ok (denote command ls payload) (remaining t turns io) := by
  unfold BodyAt at h
  cases hv : contentLength ls with
  | some v =>
      rw [hv] at h
      obtain ⟨hlen, hin⟩ := h
      obtain ⟨p, hp⟩ :
        ∃ p, p = endPieces (announced v) io.socket.inbox io.socket.recvs :=
        ⟨_, rfl⟩
      have hpieces : p = (payload, [nul, lf]) := by
        rw [hp, endPieces_of_whole (hwhole v hv), hin, ← hlen, List.take_left,
          List.drop_left]
        rfl
      have hread := readBody_counted A (CString.ofBuffer command) hd hv
        (announced_pos (hsized v hv)) hp
      rw [if_pos (by rw [hpieces])] at hread
      have hframe :
          frameOf (CString.ofBuffer command) (table ls) (padded (announced v) p.1)
          p.1.length = denote command ls payload := by
        simp [denote, hv, padded, hpieces, hlen]
      have hrest : (io.socket.inbox.drop p.1.length).drop 2 = t := by
        rw [hpieces, hin, List.drop_left]
        rfl
      refine ⟨(io.socket.recvs.drop 1).drop 1, ?_, ?_⟩
      · rw [List.drop_drop]
        exact List.drop_suffix _ _
      · rw [hread, hframe, ← hrest]
        rfl
  | none =>
      rw [hv] at h
      obtain ⟨hnul, hin⟩ := h
      obtain ⟨u, hin', hlf, ht⟩ : ∃ u, io.socket.inbox = payload ++ nul :: u ∧
          endlineOf io u = lf ∧ u.drop 1 = t := by
        rcases hin with hin | ⟨hin, hend, rfl⟩
        · exact ⟨lf :: t, hin, rfl, rfl⟩
        · exact ⟨[], hin, hend, rfl⟩
      have hread :=
        readBody_uncounted A (CString.ofBuffer command) hd hv hnul hin'
      rw [if_neg (not_not_intro hlf)] at hread
      have hframe :
          frameOf (CString.ofBuffer command) (table ls) (payload ++ [nul])
            (payload.length + 1) = denote command ls payload := by
        simp [denote, hv]
      have hrest : io.socket.inbox.drop (payload.length + 2) = t := by
        rw [← advance_inbox, ← advance_advance (payload.length + 1) 1,
          advance_inbox, advance_succ_inbox hin', ht]
      refine ⟨_, List.drop_suffix (payload.length + 2) _, ?_⟩
      rw [hread, hframe, advance_eq, hrest]

/-- Without a body the read fails. -/
theorem readBody_error (hrecvs : io.socket.recvs = []) (hsized : Sized ls)
    (h : ∀ payload t, ¬ BodyAt io.endline ls io.socket.inbox payload t) :
    ∃ rc io', readBody A (CString.ofBuffer command) (table ls) io =
      .error rc io' := by
  have hd : Delivering io := by simp [Delivering, hrecvs]
  unfold BodyAt at h
  cases hv : contentLength ls with
  | some v =>
      simp only [hv] at h
      have hpos := announced_pos (hsized v hv)
      obtain ⟨p, hp⟩ :
        ∃ p, p = endPieces (announced v) io.socket.inbox io.socket.recvs :=
        ⟨_, rfl⟩
      have hread := readBody_counted A (CString.ofBuffer command) hd hv hpos hp
      rw [if_neg] at hread
      · obtain ⟨rc, io', -, hrun⟩ := hread
        exact ⟨rc, io', hrun⟩
      · intro hend
        rw [hp, hrecvs, endPieces_of_whole (whole_nil _)] at hend
        exact h _ _ (take_of_end hend)
  | none =>
      simp only [hv] at h
      by_cases hnul : nul ∈ io.socket.inbox
      · obtain ⟨p, u, hin, hp⟩ := List.eq_append_cons_of_mem hnul
        have hread := readBody_uncounted A (CString.ofBuffer command) hd hv hp hin
        rw [if_pos] at hread
        · obtain ⟨rc, io', -, hrun⟩ := hread
          exact ⟨rc, io', hrun⟩
        · intro hlf
          cases u with
          | nil => exact h p [] ⟨hp, .inr ⟨hin, hlf, rfl⟩⟩
          | cons b u =>
              obtain rfl : b = lf := hlf
              exact h p u ⟨hp, .inl hin⟩
      · obtain ⟨rc, io', -, hrun⟩ :=
          readBody_unterminated A (CString.ofBuffer command) hd hv hnul
        exact ⟨rc, io', hrun⟩

end Bodies

/-! ## Frames -/

/-- A payload with its end is a body at its place. -/
theorem bodyAt_of_payloadOk {ls : List Bytes} {payload : Bytes}
    (h : PayloadOk ls payload) (endline : UInt8) (t : Bytes) :
    BodyAt endline ls (payload ++ nul :: lf :: t) payload t := by
  unfold BodyAt
  cases hv : contentLength ls with
  | some v => exact ⟨(announced_of_payloadOk h hv).symm, rfl⟩
  | none => exact ⟨h.nul_notMem hv, .inl rfl⟩

/-- Whatever the code takes for the body has the framing of the grammar, and is
ended as it should be unless the stream is over. -/
theorem payloadOk_of_bodyAt {endline : UInt8} {ls : List Bytes}
    {rest payload t : Bytes} (hsized : Sized ls)
    (h : BodyAt endline ls rest payload t) :
    PayloadOk ls payload ∧ (rest = payload ++ nul :: lf :: t ∨
      rest = payload ++ [nul] ∧ endline = lf) := by
  unfold BodyAt at h
  unfold PayloadOk
  cases hv : contentLength ls with
  | some v =>
      simp only [hv] at h ⊢
      exact ⟨by rw [h.1, announced_eq (hsized v hv)], .inl h.2⟩
  | none =>
      simp only [hv] at h ⊢
      exact ⟨h.1, h.2.imp_right fun hend => ⟨hend.1, hend.2.1⟩⟩

/-- No header line has a length that narrows to zero. -/
def Unwrapped (w : WireFrame) : Prop := ∀ l ∈ w.lines, wraps l = false

instance (w : WireFrame) : Decidable (Unwrapped w) :=
  inferInstanceAs (Decidable (∀ l ∈ w.lines, wraps l = false))

/-- Without such lines the head of a frame is read as it stands. -/
theorem scanHead_wire {w : WireFrame} (h : Unwrapped w) (t : Bytes) :
    scanHead (w.bytes ++ t) = .head w.command w.lines []
      (w.payload ++ nul :: lf :: t) := by
  have hentries : ∀ l ∈ w.lines, IsEntry lf nul wraps hasColon l := by
    intro l hl
    obtain ⟨hclean, -, hcolon⟩ := w.lines_header l hl
    exact ⟨hclean, h l hl, hcolon⟩
  have hscan : scanBlock lf nul wraps hasColon
      (joinLines lf w.lines ++ lf :: (w.payload ++ nul :: lf :: t)) =
        .done w.lines [] (w.payload ++ nul :: lf :: t) :=
    scanBlock_done_iff.mpr ⟨by simp, hentries, clean_nil lf nul, rfl⟩
  rw [w.bytes_append]
  exact scanHead_of_scan w.command_clean hscan

/-! ## The two scans of the header block -/

/-- The lines of a header block that the code reads as such. -/
def linesRead (lines : List Bytes) : List Bytes := lines.takeWhile (!wraps ·)

/-- The octets of a header block behind the line with which the code ends it: none if
this is the empty line. -/
def cutOff (lines : List Bytes) : Bytes :=
  match lines.dropWhile (!wraps ·) with
  | [] => []
  | _ :: more => joinLines lf more ++ [lf]

theorem linesRead_cons (l : Bytes) (ls : List Bytes) :
    linesRead (l :: ls) = if wraps l then [] else l :: linesRead ls := by
  unfold linesRead
  rw [List.takeWhile_cons]
  cases wraps l <;> rfl

theorem cutOff_cons (l : Bytes) (ls : List Bytes) :
    cutOff (l :: ls) = if wraps l then joinLines lf ls ++ [lf] else cutOff ls := by
  unfold cutOff
  rw [List.dropWhile_cons]
  cases wraps l <;> rfl

theorem linesRead_subset (ls : List Bytes) : linesRead ls ⊆ ls :=
  (List.takeWhile_sublist _).subset

/-- When nothing is behind the end of the block, the code reads all of it. -/
theorem linesRead_of_cutOff {ls : List Bytes} (h : cutOff ls = []) :
    linesRead ls = ls := by
  induction ls with
  | nil => rfl
  | cons l ls ih =>
      rw [cutOff_cons] at h
      rw [linesRead_cons]
      cases hw : wraps l with
      | true => simp [hw] at h
      | false =>
          rw [hw, if_neg Bool.false_ne_true] at h
          rw [if_neg Bool.false_ne_true, ih h]

theorem nul_notMem_cutOff {ls : List Bytes} (h : ∀ l ∈ ls, IsHeaderLine l) :
    nul ∉ cutOff ls := by
  induction ls with
  | nil => exact List.not_mem_nil
  | cons l ls ih =>
      have hrest := fun m hm => h m (List.mem_cons_of_mem l hm)
      rw [cutOff_cons]
      split
      · rw [List.mem_append, not_or]
        refine ⟨fun hmem => ?_, by decide⟩
        obtain ⟨m, hm, hnul⟩ := List.mem_flatMap.mp hmem
        rw [List.mem_append, List.mem_singleton] at hnul
        exact hnul.elim (hrest m hm).1.2 (by decide)
      · exact ih hrest

theorem length_cutOff_le (ls : List Bytes) :
    (cutOff ls).length ≤ (joinLines lf ls).length := by
  induction ls with
  | nil => exact Nat.le_refl 0
  | cons l ls ih =>
      have hlen : (joinLines lf (l :: ls)).length =
          l.length + 1 + (joinLines lf ls).length := by
        simp [joinLines]
        omega
      rw [cutOff_cons, hlen]
      split
      · rw [List.length_append, List.length_singleton]
        omega
      · omega

/-- **The head of a frame as the code reads it.**  A line whose length wraps ends the
header block, and what is behind it counts as body. -/
theorem scanHead_lines {command : Bytes} {lines : List Bytes}
    (hcommand : Clean lf nul command) (hlines : ∀ l ∈ lines, IsHeaderLine l)
    (rest : Bytes) :
    ∃ last, scanHead (command ++ lf :: (joinLines lf lines ++ lf :: rest)) =
        .head command (linesRead lines) last (cutOff lines ++ rest) ∧
      ((last = [] ∧ linesRead lines = lines ∧ cutOff lines = []) ∨
        ∃ more, lines = linesRead lines ++ last :: more ∧
          cutOff lines = joinLines lf more ++ [lf]) := by
  have hsplit : linesRead lines ++ lines.dropWhile (!wraps ·) = lines :=
    List.takeWhile_append_dropWhile
  have hentries : ∀ l ∈ linesRead lines, IsEntry lf nul wraps hasColon l := by
    intro l hl
    obtain ⟨hclean, -, hcolon⟩ := hlines l (linesRead_subset lines hl)
    exact ⟨hclean, by simpa using List.mem_takeWhile_imp hl, hcolon⟩
  cases hdrop : lines.dropWhile (!wraps ·) with
  | nil =>
      rw [hdrop, List.append_nil] at hsplit
      have hcut : cutOff lines = [] := by rw [cutOff, hdrop]
      refine ⟨[], scanHead_of_scan hcommand (scanBlock_done_iff.mpr
        ⟨?_, hentries, clean_nil lf nul, rfl⟩), .inl ⟨rfl, hsplit, hcut⟩⟩
      rw [hsplit, hcut, List.append_nil, List.nil_append]
  | cons last more =>
      have hlast : last ∈ lines := by
        rw [← hsplit, hdrop]
        simp
      have hwraps : wraps last = true := by
        have hhead := List.head?_dropWhile_not (!wraps ·) lines
        simpa [hdrop] using hhead
      have hcut : cutOff lines = joinLines lf more ++ [lf] := by rw [cutOff, hdrop]
      rw [hdrop] at hsplit
      refine ⟨last, scanHead_of_scan hcommand (scanBlock_done_iff.mpr
        ⟨?_, hentries, (hlines last hlast).1, hwraps⟩), .inr ⟨more, hsplit.symm, hcut⟩⟩
      have htext : joinLines lf lines =
          joinLines lf (linesRead lines) ++ (last ++ lf :: joinLines lf more) := by
        conv_lhs => rw [← hsplit]
        simp [joinLines]
      rw [htext, hcut]
      simp

/-- What is taken for the body of a frame is the rest of its head and its payload. -/
theorem scanHead_frameBytes {command inbox payload t : Bytes} {lines : List Bytes}
    (hcommand : Clean lf nul command) (hlines : ∀ l ∈ lines, IsHeaderLine l)
    (hin : inbox = frameBytes command lines payload ++ t) :
    ∃ last, scanHead inbox = .head command (linesRead lines) last
      ((cutOff lines ++ payload) ++ nul :: lf :: t) := by
  obtain ⟨last, hscan, -⟩ := scanHead_lines hcommand hlines (payload ++ nul :: lf :: t)
  refine ⟨last, ?_⟩
  rw [hin, frameBytes_append, hscan, List.append_assoc]

/-- The head of a stream in the grammar is complete for the code, too. -/
theorem scanHead_wire_ne_failed {w : WireFrame} {t rest : Bytes} :
    scanHead (w.bytes ++ t) ≠ .failed rest := by
  obtain ⟨last, hscan⟩ := scanHead_frameBytes w.command_clean w.lines_header
    (rfl : w.bytes ++ t = w.bytes ++ t)
  rw [hscan]
  nofun

/-- A stream in the grammar whose head the code ends at `last`: either this is the
empty line, or the frame has further lines, the first of them `last`. -/
theorem scanHead_wire_cases {w : WireFrame} {t command last rest : Bytes}
    {ls : List Bytes} (h : scanHead (w.bytes ++ t) = .head command ls last rest) :
    command = w.command ∧
      ((last = [] ∧ ls = w.lines ∧ rest = w.payload ++ nul :: lf :: t) ∨
        ∃ more, w.lines = ls ++ last :: more ∧
          rest = joinLines lf more ++ lf :: (w.payload ++ nul :: lf :: t)) :=
  by
  obtain ⟨last', hlines, hcases⟩ :=
    scanHead_lines w.command_clean w.lines_header (w.payload ++ nul :: lf :: t)
  rw [← w.bytes_append, h] at hlines
  obtain ⟨rfl, rfl, rfl, rfl⟩ := HeadScan.head.inj hlines
  refine ⟨rfl, ?_⟩
  rcases hcases with ⟨hlast, hall, hcut⟩ | ⟨more, hmore, hcut⟩
  · exact .inl ⟨hlast, hall, by rw [hcut, List.nil_append]⟩
  · exact .inr ⟨more, hmore, by rw [hcut, List.append_assoc]; rfl⟩

/-! ## Reading a frame -/

/-- The number of receives that the head of a frame takes. -/
def headLength (w : WireFrame) : Nat :=
  w.command.length + 1 + (joinLines lf w.lines).length + 1

/-- **A complete frame is read off the front of the stream as what it denotes**,
and the stream is left right behind it. -/
theorem stompRead_wire (A : Apr) {io : Io} (hd : Delivering io) {w : WireFrame}
    {t : Bytes} (hunwrapped : Unwrapped w) (hsized : Sized w.lines)
    (hwhole : ∀ v, contentLength w.lines = some v →
      Whole (announced v) (io.socket.recvs.drop (headLength w)))
    (hin : io.socket.inbox = w.bytes ++ t) :
    ∃ turns, turns <:+ io.socket.recvs ∧
      stompRead A io = .ok w.frame (remaining t turns io) := by
  have hhead := scanHead_wire hunwrapped t
  rw [← hin] at hhead
  obtain ⟨n, hn, hrest, heq⟩ := stompRead_of_head A hd hhead
  have hlen : n = headLength w := by
    have := congrArg List.length (hin.trans (w.bytes_append t))
    simp only [List.length_append, List.length_cons] at hn this
    unfold headLength
    omega
  have hbody :=
    bodyAt_of_payloadOk w.payload_ok (advance n io).endline t
  rw [← hrest] at hbody
  obtain ⟨turns, hturns, hread⟩ :=
    readBody_ok A w.command (hd.advance n) hsized
      (by rw [hlen]; exact hwhole) hbody
  exact ⟨turns, hturns.trans (List.drop_suffix _ _), heq.trans hread⟩

end LibStomp.Stream.WholeFrames
