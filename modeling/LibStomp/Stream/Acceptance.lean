import LibStomp.Stream.WholeFrames

/-!
# What `stomp_read` accepts

On a stream that delivers all it can, `stomp_read` accepts the frames of the
grammar and refuses everything else, with one exception: a header line whose
length is a positive multiple of `2 ^ 32` is taken for the empty line that ends
the header block, because the length is returned in an `int`.

## Main results

* `stompRead_acceptsGrammar_iff` — the reader meets the grammar on a stream if
  and only if no such line ends its header block, or neither the code nor the
  grammar finds a frame there.
* `inDomain_wire` — the streams the result is about include every frame with
  distinct header names.
-/

namespace LibStomp.Stream.Acceptance

open LibStomp.Model
open LibStomp.Verified.Lines
open LibStomp.Stream.Grammar
open LibStomp.Stream.ReadLine
open LibStomp.Stream.ReadFrame
open LibStomp.Stream.ReadBody
open LibStomp.Stream.WholeFrames

/-! ## The streams in question -/

/-- The stream starts with a command line and the header lines `ls`. -/
structure HeadOf (s command : Bytes) (ls : List Bytes) (rest : Bytes) : Prop where
  text : s = command ++ lf :: (joinLines lf ls ++ rest)
  command_clean : Clean lf nul command
  lines_header : ∀ l ∈ ls, IsHeaderLine l

/-- Header names are distinct, a `content-length` announces at least one octet,
and the stream does not end right after the NUL of an uncounted body. -/
structure InDomain (s : Bytes) : Prop where
  distinct : ∀ command ls rest, HeadOf s command ls rest → (ls.map nameOf).Nodup
  sized : ∀ command ls rest, HeadOf s command ls rest → Sized ls
  ended : ∀ command ls payload, HeadOf s command ls (lf :: (payload ++ [nul])) →
    contentLength ls = none → nul ∈ payload

theorem headOf_wire (w : WireFrame) (t : Bytes) :
    HeadOf (w.bytes ++ t) w.command w.lines
      (lf :: (w.payload ++ nul :: lf :: t)) :=
  ⟨w.bytes_append t, w.command_clean, w.lines_header⟩

/-- The header lines at the front of a frame are lines of the frame. -/
private theorem lines_of_headOf {w : WireFrame} {t command rest : Bytes}
    {ls : List Bytes} (h : HeadOf (w.bytes ++ t) command ls rest) :
    ∃ more, w.lines = ls ++ more ∧
      rest = joinLines lf more ++ lf :: (w.payload ++ nul :: lf :: t) := by
  have hline := scanLine_append h.command_clean (joinLines lf ls ++ rest)
  rw [← h.text, w.bytes_append, scanLine_append w.command_clean] at hline
  obtain ⟨-, htext⟩ := LineScan.line.inj hline
  have hscan : scanBlock lf nul isBlank hasColon (joinLines lf ls ++ rest) =
      .done w.lines [] (w.payload ++ nul :: lf :: t) := by
    rw [← htext]
    exact scanBlock_done_iff.mpr ⟨by simp, w.lines_header, clean_nil lf nul, rfl⟩
  rw [scanBlock_append h.lines_header] at hscan
  cases hrest : scanBlock lf nul isBlank hasColon rest with
  | done more last tail =>
      simp only [hrest, BlockScan.done.injEq] at hscan
      obtain ⟨hlines, rfl, rfl⟩ := hscan
      obtain ⟨rfl, -⟩ := scanBlock_done_iff.mp hrest
      exact ⟨more, hlines.symm, by simp⟩
  | refused tail => simp [hrest] at hscan
  | short => simp [hrest] at hscan

/-- **Every frame with distinct header names is in question**, whatever follows. -/
theorem inDomain_wire (w : WireFrame) (t : Bytes)
    (hdistinct : (w.lines.map nameOf).Nodup)
    (hsized : Sized w.lines) : InDomain (w.bytes ++ t) where
  distinct command ls rest h := by
    obtain ⟨more, hlines, -⟩ := lines_of_headOf h
    rw [hlines, List.map_append] at hdistinct
    exact (List.nodup_append.mp hdistinct).1
  sized command ls rest h v hv := by
    obtain ⟨more, hlines, -⟩ := lines_of_headOf h
    have hprefix : (ls.map nameOf).Nodup := by
      rw [hlines, List.map_append] at hdistinct
      exact (List.nodup_append.mp hdistinct).1
    obtain ⟨l, hl, hname⟩ := (table_describes hprefix _ _).mp hv
    refine hsized v ((table_describes hdistinct _ _).mpr ⟨l, ?_, hname⟩)
    rw [hlines]
    exact List.mem_append_left more hl
  ended command ls payload h _ := by
    obtain ⟨more, hlines, hrest⟩ := lines_of_headOf h
    cases more with
    | nil =>
        rw [joinLines_nil, List.nil_append, List.cons.injEq] at hrest
        rcases List.eq_nil_or_concat t with rfl | ⟨t, b, rfl⟩
        · have hlast := congrArg List.getLast? hrest.2
          simp only [List.getLast?_append] at hlast
          exact absurd (Option.some.inj hlast) (by decide)
        · have htext :
              payload ++ [nul] = (w.payload ++ nul :: lf :: t) ++ [b] := by
            rw [hrest.2]
            simp
          rw [(List.append_inj' htext rfl).1]
          simp
    | cons m more =>
        obtain ⟨hclean, hblank, -⟩ := w.lines_header m (by rw [hlines]; simp)
        rw [joinLines_cons] at hrest
        cases m with
        | nil => cases hblank
        | cons b m =>
            obtain rfl : lf = b := (List.cons.inj hrest).1
            exact absurd rfl (clean_cons.mp hclean).1

/-! ## The property -/

/-- The frame has the command and the headers of `w`, and its body starts with
the payload. -/
def Matches (frame : Frame) (w : WireFrame) : Prop :=
  frame.command.bytes = w.command ∧
    (∃ headers, frame.headers = some headers ∧ Describes headers w.lines) ∧
    ∃ body, frame.body = some body ∧ w.payload <+: body

/-- On this stream `stomp_read` accepts what the grammar accepts: a frame is
returned as it stands and exactly its bytes are consumed, and where the stream
does not start with a frame an error is returned. -/
structure AcceptsGrammar (A : Apr) (io : Io) : Prop where
  accepted : ∀ (w : WireFrame) t, io.socket.inbox = w.bytes ++ t →
    ∃ frame io', stompRead A io = .ok frame io' ∧ Matches frame w ∧
      io'.socket.inbox = t
  refused : (∀ (w : WireFrame) t, io.socket.inbox ≠ w.bytes ++ t) →
    ∃ rc io', stompRead A io = .error rc io'

/-- Where the code ends the header block, there is an empty line; or no frame
follows, neither behind the line it took for one nor in the grammar. -/
def HeaderEndOk (io : Io) : Prop :=
  match scanHead io.socket.inbox with
  | .failed _ => True
  | .head _ ls last rest =>
      last = [] ∨ (∀ payload t, ¬ BodyAt io.endline ls rest payload t) ∧
        ∀ (w : WireFrame) t, io.socket.inbox ≠ w.bytes ++ t

/-! ## The main result -/

section Main

variable (A : Apr) {io : Io} {command last rest : Bytes} {ls : List Bytes}
variable (hdom : InDomain io.socket.inbox)
include hdom

private theorem sized_of_scanHead
    (h : scanHead io.socket.inbox = .head command ls last rest) :
    Sized ls := by
  obtain ⟨htext, hclean, hcode⟩ := scanHead_text h
  obtain ⟨-, hls, -⟩ := scanBlock_done_iff.mp hcode
  refine hdom.sized command ls (last ++ lf :: rest)
    ⟨by rw [htext, List.append_assoc], hclean, fun l hl => ?_⟩
  exact (hls l hl).narrow fun _ => wraps_of_isBlank

variable (hrecvs : io.socket.recvs = [])
include hrecvs

private theorem stompRead_bodyAt
    (h : scanHead io.socket.inbox = .head command ls last rest)
    {payload t : Bytes} (hbody : BodyAt io.endline ls rest payload t) :
    ∃ io', io'.socket.inbox = t ∧
      stompRead A io = .ok (denote command ls payload) io' := by
  have hd : Delivering io := by simp [Delivering, hrecvs]
  obtain ⟨n, -, hrest, heq⟩ := stompRead_of_head A hd h
  have hwhole : ∀ v, contentLength ls = some v →
      Whole (announced v) (advance n io).socket.recvs := by
    intro v _
    rw [advance_recvs, hrecvs, List.drop_nil]
    exact whole_nil _
  obtain ⟨turns, -, hread⟩ := readBody_ok A command (hd.advance n)
    (sized_of_scanHead hdom h) hwhole (hrest.symm ▸ hbody)
  exact ⟨_, remaining_inbox t turns _, heq.trans hread⟩

private theorem stompRead_not_bodyAt
    (h : scanHead io.socket.inbox = .head command ls last rest)
    (hbody : ∀ payload t, ¬ BodyAt io.endline ls rest payload t) :
    ∃ rc io', stompRead A io = .error rc io' := by
  have hd : Delivering io := by simp [Delivering, hrecvs]
  obtain ⟨n, -, hrest, heq⟩ := stompRead_of_head A hd h
  rw [heq]
  refine readBody_error A command ?_ (sized_of_scanHead hdom h) ?_
  · rw [advance_recvs, hrecvs, List.drop_nil]
  · rw [hrest]
    exact hbody

/-- A header line taken for the empty line is missing from the table. -/
private theorem not_accepts_of_early (h : AcceptsGrammar A io)
    (hhead : scanHead io.socket.inbox = .head command ls last rest)
    (hlast : last ≠ [])
    {w : WireFrame} {t : Bytes} : io.socket.inbox ≠ w.bytes ++ t := by
  intro hw
  obtain ⟨frame, io', hok, ⟨-, ⟨headers, hheaders, hdescribes⟩, -⟩, -⟩ :=
    h.accepted w t hw
  obtain ⟨-, hlines⟩ := scanHead_wire_cases (hw ▸ hhead)
  obtain ⟨more, hmore, -⟩ := hlines.resolve_left fun hno => hlast hno.1
  have htable : headers = table ls := by
    by_cases hbody : ∃ payload u, BodyAt io.endline ls rest payload u
    · obtain ⟨payload, u, hbody⟩ := hbody
      obtain ⟨io'', -, hread⟩ := stompRead_bodyAt A hdom hrecvs hhead hbody
      rw [hread] at hok
      obtain rfl := (EStateM.Result.ok.inj hok).1
      rw [denote_headers] at hheaders
      exact (Option.some.inj hheaders).symm
    · obtain ⟨rc, io'', hread⟩ := stompRead_not_bodyAt A hdom hrecvs hhead
        fun payload u hb => hbody ⟨payload, u, hb⟩
      rw [hread] at hok
      cases hok
  have hdistinct := (hw ▸ hdom).distinct _ _ _ (headOf_wire w t)
  rw [hmore, List.map_append, List.nodup_append] at hdistinct
  have hnone : nameOf last ∉ ls.map nameOf := fun hm =>
    hdistinct.2.2 _ hm (nameOf last) (by simp) rfl
  have hsome := (hdescribes _ _).mpr ⟨last, by simp [hmore], rfl, rfl⟩
  rw [htable, lookup_table_of_notMem hnone] at hsome
  cases hsome

/-- A stream whose header block the code ends early, and in which the code or the
grammar finds a frame, shows the difference. -/
theorem headerEndOk_of_accepts (h : AcceptsGrammar A io) : HeaderEndOk io := by
  unfold HeaderEndOk
  cases hhead : scanHead io.socket.inbox with
  | failed rest => trivial
  | head command ls last rest =>
      by_cases hlast : last = []
      · exact .inl hlast
      have hno : ∀ (w : WireFrame) t, io.socket.inbox ≠ w.bytes ++ t := fun w t =>
        not_accepts_of_early A hdom hrecvs h hhead hlast
      refine .inr ⟨fun payload t hbody => ?_, hno⟩
      obtain ⟨io', -, hread⟩ := stompRead_bodyAt A hdom hrecvs hhead hbody
      obtain ⟨rc, io'', herror⟩ := h.refused hno
      rw [hread] at herror
      cases herror

omit hdom hrecvs in
private theorem matches_frame {w : WireFrame}
    (hdistinct : (w.lines.map nameOf).Nodup) :
    Matches (denote w.command w.lines w.payload) w := by
  have hcommand := ofBuffer_of_nulFree w.command_clean.2
  have hdescribes := table_describes hdistinct
  unfold denote
  split
  · exact ⟨hcommand, ⟨_, rfl, hdescribes⟩, _, rfl, List.prefix_refl _⟩
  · exact ⟨hcommand, ⟨_, rfl, hdescribes⟩, _, rfl, List.prefix_append _ _⟩

omit hrecvs in
/-- A body the code finds behind an empty line completes a frame of the grammar. -/
private theorem wire_of_bodyAt
    (hhead : scanHead io.socket.inbox = .head command ls [] rest)
    {payload t : Bytes} (hbody : BodyAt io.endline ls rest payload t) :
    ∃ w : WireFrame, io.socket.inbox = w.bytes ++ t := by
  obtain ⟨htext, hclean, hcode⟩ := scanHead_text hhead
  obtain ⟨-, hls, -⟩ := scanBlock_done_iff.mp hcode
  have hlines : ∀ l ∈ ls, IsHeaderLine l := fun l hl =>
    (hls l hl).narrow fun _ => wraps_of_isBlank
  have hsized := sized_of_scanHead hdom hhead
  obtain ⟨hok, hends⟩ := payloadOk_of_bodyAt hsized hbody
  obtain rfl : rest = payload ++ nul :: lf :: t := by
    refine hends.resolve_right fun hend => ?_
    cases hv : contentLength ls with
    | some v =>
        simp only [BodyAt, hv] at hbody
        have := congrArg List.length (hbody.2.symm.trans hend.1)
        simp at this
    | none =>
        refine hok.nul_notMem hv (hdom.ended command ls payload ⟨?_, hclean, hlines⟩ hv)
        rw [htext, hend.1, List.append_nil]
  refine ⟨⟨command, ls, payload, hclean, hlines, hok⟩, ?_⟩
  rw [WireFrame.bytes_append, htext, List.append_nil]

/-- Where the header block ends at an empty line, code and grammar agree. -/
theorem accepts_of_headerEndOk (h : HeaderEndOk io) : AcceptsGrammar A io := by
  unfold HeaderEndOk at h
  have hd : Delivering io := by simp [Delivering, hrecvs]
  refine ⟨fun w t hw => ?_, fun hno => ?_⟩
  · cases hhead : scanHead io.socket.inbox with
    | failed rest => exact absurd (hw ▸ hhead) scanHead_wire_ne_failed
    | head command ls last rest =>
        rw [hhead] at h
        obtain rfl : last = [] := h.resolve_right fun hr => hr.2 w t hw
        obtain ⟨rfl, hlines⟩ := scanHead_wire_cases (hw ▸ hhead)
        rcases hlines with ⟨-, rfl, rfl⟩ | ⟨more, hmore, -⟩
        · have hsized := sized_of_scanHead hdom hhead
          obtain ⟨io', hrest, hread⟩ := stompRead_bodyAt A hdom hrecvs hhead
            (bodyAt_of_payloadOk w.payload_ok io.endline t)
          have hdistinct := (hw ▸ hdom).distinct _ _ _ (headOf_wire w t)
          exact ⟨_, io', hread, matches_frame hdistinct, hrest⟩
        · have hblank := (w.lines_header [] (by simp [hmore])).2.1
          cases hblank
  · cases hhead : scanHead io.socket.inbox with
    | failed rest =>
        obtain ⟨rc, io', -, heq⟩ := stompRead_of_failed A hd hhead
        exact ⟨rc, io', heq⟩
    | head command ls last rest =>
        rw [hhead] at h
        refine stompRead_not_bodyAt A hdom hrecvs hhead fun payload t hbody => ?_
        rcases h with rfl | ⟨hnone, -⟩
        · obtain ⟨w, hw⟩ := wire_of_bodyAt hdom hhead hbody
          exact hno w t hw
        · exact hnone payload t hbody

end Main

/-- **The reader meets its grammar on a stream exactly when its header block ends
at an empty line**, or when there is no frame in either reading. -/
theorem stompRead_acceptsGrammar_iff (A : Apr) (io : Io)
    (hrecvs : io.socket.recvs = [])
    (hdom : InDomain io.socket.inbox) : AcceptsGrammar A io ↔ HeaderEndOk io :=
  ⟨headerEndOk_of_accepts A hdom hrecvs, accepts_of_headerEndOk A hdom hrecvs⟩

/-- A message whose octets look like the end of a frame. -/
def binaryMessage : WireFrame where
  command := ascii "MESSAGE"
  lines := [ascii "destination:/queue/test", ascii "content-length:2"]
  payload := [nul, lf]
  command_clean := clean_message
  lines_header := by decide +kernel
  payload_ok := by decide +kernel

theorem stompRead_acceptsGrammar_binaryMessage :
    AcceptsGrammar .sample (Io.fresh (binaryMessage.bytes ++ ascii "tail")) ↔
      HeaderEndOk (Io.fresh (binaryMessage.bytes ++ ascii "tail")) :=
  stompRead_acceptsGrammar_iff .sample _ rfl
    (inDomain_wire binaryMessage _ (by decide +kernel) (by decide +kernel))

/-! ## A line of `2 ^ 32` bytes -/

/-- A header line with a name of no bytes and a value of `k`. -/
def valueLine (k : Nat) : Bytes := colon :: List.replicate k 97

theorem isHeaderLine_valueLine (k : Nat) :
    IsHeaderLine (valueLine k) := by
  refine ⟨⟨?_, ?_⟩, rfl, by simp [hasColon, valueLine]⟩ <;>
  · simp only [valueLine, List.mem_cons, List.mem_replicate, not_or, not_and]
    exact ⟨by decide, fun _ => by decide⟩

private theorem contentLength_valueLine (k : Nat) :
    contentLength [valueLine k] = none := by
  have hname : nameOf (valueLine k) = .ofBuffer [] := rfl
  refine lookup_table_of_notMem ?_
  rw [List.map_singleton, hname]
  decide

/-- A frame with that line and an empty payload. -/
def valueFrame (k : Nat) : WireFrame where
  command := ascii "M"
  lines := [valueLine k]
  payload := []
  command_clean := by decide
  lines_header := by simpa using isHeaderLine_valueLine k
  payload_ok := by simp [PayloadOk, contentLength_valueLine]

private theorem inDomain_valueFrame (k : Nat) :
    InDomain (valueFrame k).bytes := by
  have h := inDomain_wire (valueFrame k) [] (by simp [valueFrame]) fun v hv => by
    have hnone : contentLength (valueFrame k).lines = none :=
      contentLength_valueLine k
    rw [hnone] at hv
    cases hv
  rwa [List.append_nil] at h

/-- When the length of the line narrows to zero, the rest of the frame completes
a body. -/
private theorem not_headerEndOk_valueFrame {k : Nat} (hk : (k + 1) % 2 ^ 32 = 0) :
    ¬ HeaderEndOk (Io.fresh (valueFrame k).bytes) := by
  have hwraps : wraps (valueLine k) = true := by
    rw [wraps, beq_iff_eq, valueLine, List.length_cons, List.length_replicate, hk]
  have hscan :
      scanBlock lf nul wraps hasColon (valueLine k ++ lf :: [lf, nul, lf]) =
      .done [] (valueLine k) [lf, nul, lf] :=
    scanBlock_blank (isHeaderLine_valueLine k).1 hwraps _
  have hbytes :
      (valueFrame k).bytes =
        ascii "M" ++ lf :: (valueLine k ++ lf :: [lf, nul, lf]) := by
    simp [WireFrame.bytes, frameBytes, valueFrame, joinLines]
  have hhead : scanHead (Io.fresh (valueFrame k).bytes).socket.inbox =
      .head (ascii "M") [] (valueLine k) [lf, nul, lf] := by
    rw [hbytes]
    exact scanHead_of_scan (valueFrame k).command_clean hscan
  intro h
  unfold HeaderEndOk at h
  rw [hhead] at h
  rcases h with hnil | ⟨hnone, -⟩
  · cases hnil
  · exact hnone [lf] [] ⟨by decide, .inl rfl⟩

/-- A frame of the grammar with a line of `2 ^ 32` bytes is returned without it. -/
theorem stompRead_acceptsGrammar_fails :
    ¬ ∀ (A : Apr) (io : Io), io.socket.recvs = [] → io.socket.atEnd = .eof →
      InDomain io.socket.inbox → AcceptsGrammar A io := by
  intro h
  obtain ⟨k, hk⟩ : ∃ k, (k + 1) % 2 ^ 32 = 0 := ⟨2 ^ 32 - 1, by decide⟩
  have haccepts :=
    h .sample (Io.fresh (valueFrame k).bytes) rfl rfl (inDomain_valueFrame k)
  exact not_headerEndOk_valueFrame hk
    (headerEndOk_of_accepts .sample (inDomain_valueFrame k) rfl haccepts)

end LibStomp.Stream.Acceptance
