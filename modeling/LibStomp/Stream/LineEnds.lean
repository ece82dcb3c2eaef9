import LibStomp.Stream.WholeFrames
import LibStomp.Verified.Framing

/-!
# Line ends of STOMP 1.2

`stomp_connect` accepts version 1.2.  Under it a server may end a line with LF or
with CR LF and may send any number of such line ends behind the NUL of a frame.
The reader knows one line end: `stomp_read_line` cuts a line at its LF and keeps
what precedes it, a CR included; the empty line is one without a byte; and behind
a NUL there is exactly one LF.

## Main results

* `sameReading_iff` — frames with other line ends are read like those with LF and
  one line end behind each NUL only if the CRs are where a later header of the
  same name makes up for them, and the further line ends behind the last frame.
-/

namespace LibStomp.Stream.LineEnds

open LibStomp.Model
open LibStomp.Verified.Framing
open LibStomp.Verified.Lines
open LibStomp.Stream.Grammar
open LibStomp.Stream.ReadLine
open LibStomp.Stream.ReadFrame
open LibStomp.Stream.ReadBody
open LibStomp.Stream.WholeFrames

/-! ## Lines -/

abbrev cr : UInt8 := 13

/-- The two line ends. -/
inductive LineEnd
  | newline
  | crNewline
deriving DecidableEq

/-- What a line end has before its LF. -/
def LineEnd.mark : LineEnd → Bytes
  | .newline => []
  | .crNewline => [cr]

theorem clean_mark (e : LineEnd) : Clean lf nul e.mark := by
  cases e <;> decide

/-- A line and its line end. -/
abbrev Line := Bytes × LineEnd

/-- The line as it stands before the LF. -/
def Line.text (p : Line) : Bytes := p.1 ++ p.2.mark

theorem nameOf_text {p : Line} (hcolon : hasColon p.1 = true) :
    nameOf p.text = nameOf p.1 := by
  have hmem : colon ∈ p.1 := of_decide_eq_true hcolon
  have hne : (p.1.takeWhile (· != colon)).length ≠ p.1.length := by
    intro h
    have hall := List.takeWhile_eq_self_iff.mp
      ((List.takeWhile_prefix (· != colon)).eq_of_length h)
    simpa using hall colon hmem
  rw [nameOf, nameOf, Line.text, List.takeWhile_append, if_neg hne]

/-- The CR of a header line belongs to the value. -/
theorem valueOf_text {p : Line} (hline : IsHeaderLine p.1) :
    (valueOf p.text).bytes = (valueOf p.1).bytes ++ p.2.mark := by
  obtain ⟨hclean, -, hcolon⟩ := hline
  have hmem : colon ∈ p.1 := of_decide_eq_true hcolon
  have hne : p.1.dropWhile (· != colon) ≠ [] := by
    rw [ne_eq, List.dropWhile_eq_nil_iff]
    intro hall
    simpa using hall colon hmem
  have hvalue : nul ∉ (p.1.dropWhile (· != colon)).tail :=
    fun hm => hclean.2
      ((List.dropWhile_sublist _).subset (List.mem_of_mem_tail hm))
  have htail : (p.text.dropWhile (· != colon)).tail =
      (p.1.dropWhile (· != colon)).tail ++ p.2.mark := by
    rw [Line.text, List.dropWhile_append, if_neg (by simpa using hne),
      List.tail_append_of_ne_nil hne]
  rw [valueOf, valueOf, htail, ofBuffer_of_nulFree hvalue, ofBuffer_of_nulFree]
  rw [List.mem_append, not_or]
  exact ⟨hvalue, (clean_mark p.2).2⟩

theorem valueOf_text_eq_iff {p : Line} (hline : IsHeaderLine p.1) :
    valueOf p.text = valueOf p.1 ↔ p.2 = .newline := by
  rw [CString.ext_iff, valueOf_text hline]
  cases p.2 <;> simp [LineEnd.mark]

/-! ## Header tables -/

/-- Each header line that ends in CR LF has a later one of the same name. -/
def Overwritten : List Line → Prop
  | [] => True
  | p :: ps => (p.2 = .newline ∨ nameOf p.1 ∈ ps.map fun q => nameOf q.1) ∧
      Overwritten ps

instance decidableOverwritten : (ps : List Line) → Decidable (Overwritten ps)
  | [] => .isTrue trivial
  | p :: ps =>
      have := decidableOverwritten ps
      inferInstanceAs (Decidable
        ((p.2 = .newline ∨ nameOf p.1 ∈ ps.map fun q => nameOf q.1) ∧
          Overwritten ps))

/-- Two tables to which the lines are added, once with and once without their line
ends. -/
private theorem foldl_text_iff {ps : List Line}
    (hlines : ∀ p ∈ ps, IsHeaderLine p.1) :
    ∀ h h' : Hash,
      (∀ k, ((ps.map Line.text).foldl insertLine h).lookup k =
        ((ps.map Prod.fst).foldl insertLine h').lookup k) ↔
      Overwritten ps ∧
        ∀ k, k ∉ ps.map (fun q => nameOf q.1) → h.lookup k = h'.lookup k := by
  induction ps with
  | nil => intro h h'; simp [Overwritten]
  | cons p ps ih =>
      intro h h'
      have hp := hlines p (by simp)
      have hname := nameOf_text hp.2.2
      rw [List.map_cons, List.map_cons, List.foldl_cons, List.foldl_cons,
        ih (fun q hq => hlines q (by simp [hq])), Overwritten, List.map_cons,
        insertLine, insertLine, hname]
      constructor
      · rintro ⟨hover, hsame⟩
        refine ⟨⟨?_, hover⟩, fun k hk => ?_⟩
        · by_cases hm : nameOf p.1 ∈ ps.map fun q => nameOf q.1
          · exact .inr hm
          · have hvalue := hsame _ hm
            rw [AList.lookup_insert, AList.lookup_insert] at hvalue
            exact .inl ((valueOf_text_eq_iff hp).mp (Option.some.inj hvalue))
        · rw [List.mem_cons, not_or] at hk
          have hrest := hsame k hk.2
          rwa [AList.lookup_insert_ne hk.1, AList.lookup_insert_ne hk.1] at hrest
      · rintro ⟨⟨hend, hover⟩, hsame⟩
        refine ⟨hover, fun k hk => ?_⟩
        by_cases hkey : k = nameOf p.1
        · subst hkey
          have hvalue := (valueOf_text_eq_iff hp).mpr (hend.resolve_right hk)
          rw [AList.lookup_insert, AList.lookup_insert, hvalue]
        · rw [AList.lookup_insert_ne hkey, AList.lookup_insert_ne hkey]
          exact hsame k (by simp [hkey, hk])

/-- The table that is read is that of the lines without their CRs if and only if
none of these stays in it. -/
theorem sameTable_iff {ps : List Line} (hlines : ∀ p ∈ ps, IsHeaderLine p.1) :
    (∀ k, (table (ps.map Line.text)).lookup k =
      (table (ps.map Prod.fst)).lookup k) ↔ Overwritten ps := by
  rw [table, table, foldl_text_iff hlines]
  exact and_iff_left fun _ _ => rfl

/-! ## Frames -/

/-- The commands of a server. -/
def serverCommands : List Bytes :=
  [ascii "CONNECTED", ascii "MESSAGE", ascii "RECEIPT", ascii "ERROR"]

/-- A frame of a server and the line ends it is sent with. -/
structure ServerFrame where
  frame : WireFrame
  server : frame.command ∈ serverCommands
  commandEnd : LineEnd
  lines : List Line
  lines_eq : frame.lines = lines.map Prod.fst
  blankEnd : LineEnd
  after : List LineEnd

/-- The text of line ends. -/
def endsText (es : List LineEnd) : Bytes := joinLines lf (es.map LineEnd.mark)

namespace ServerFrame

/-- The frame as the server sends it. -/
def bytes (s : ServerFrame) : Bytes :=
  s.frame.command ++ s.commandEnd.mark ++ lf ::
    (joinLines lf (s.lines.map Line.text) ++ (s.blankEnd.mark ++ lf ::
      (s.frame.payload ++ nul :: endsText s.after)))

theorem bytes_append (s : ServerFrame) (t : Bytes) :
    s.bytes ++ t = s.frame.command ++ s.commandEnd.mark ++ lf ::
      (joinLines lf (s.lines.map Line.text) ++ (s.blankEnd.mark ++ lf ::
        (s.frame.payload ++ nul :: (endsText s.after ++ t)))) := by
  simp [bytes]

/-- All lines end in LF, and one LF follows the NUL. -/
def Plain (s : ServerFrame) : Prop :=
  s.commandEnd = .newline ∧ (∀ p ∈ s.lines, p.2 = .newline) ∧
    s.blankEnd = .newline ∧ s.after = [.newline]

theorem bytes_of_plain {s : ServerFrame} (h : s.Plain) :
    s.bytes = s.frame.bytes := by
  obtain ⟨hcommand, hlines, hblank, hafter⟩ := h
  have htext : s.lines.map Line.text = s.lines.map Prod.fst := by
    refine List.map_congr_left fun p hp => ?_
    rw [Line.text, hlines p hp]
    exact List.append_nil _
  rw [bytes, hcommand, hblank, hafter, htext, ← s.lines_eq]
  simp [LineEnd.mark, endsText, joinLines, WireFrame.bytes, frameBytes]

/-- No header line, with its CR or without, has a length that narrows to zero. -/
def Fits (s : ServerFrame) : Prop :=
  ∀ p ∈ s.lines, wraps p.1 = false ∧ wraps p.text = false

instance (s : ServerFrame) : Decidable s.Fits :=
  inferInstanceAs (Decidable
    (∀ p ∈ s.lines, wraps p.1 = false ∧ wraps p.text = false))

theorem isHeaderLine (s : ServerFrame) : ∀ p ∈ s.lines, IsHeaderLine p.1 := by
  intro p hp
  refine s.frame.lines_header _ ?_
  rw [s.lines_eq]
  exact List.mem_map_of_mem hp

theorem clean_command (s : ServerFrame) :
    Clean lf nul (s.frame.command ++ s.commandEnd.mark) :=
  clean_append.mpr ⟨s.frame.command_clean, clean_mark _⟩

theorem clean_text (s : ServerFrame) : ∀ p ∈ s.lines, Clean lf nul p.text :=
  fun p hp => clean_append.mpr ⟨(s.isHeaderLine p hp).1, clean_mark _⟩

/-- The header lines as they are sent. -/
theorem isEntry_text {s : ServerFrame} {ps : List Line} (hps : ps ⊆ s.lines)
    (h : ∀ p ∈ ps, wraps p.text = false) :
    ∀ l ∈ ps.map Line.text, IsEntry lf nul wraps hasColon l := by
  intro l hl
  obtain ⟨p, hp, rfl⟩ := List.mem_map.mp hl
  refine ⟨s.clean_text p (hps hp), h p hp, ?_⟩
  have hmem : colon ∈ p.1 := of_decide_eq_true (s.isHeaderLine p (hps hp)).2.2
  exact decide_eq_true (List.mem_append_left _ hmem)

theorem isEntry_text_of_fits {s : ServerFrame} (h : s.Fits) :
    ∀ l ∈ s.lines.map Line.text, IsEntry lf nul wraps hasColon l :=
  isEntry_text (List.Subset.refl _) fun p hp => (h p hp).2

theorem unwrapped {s : ServerFrame} (h : s.Fits) : Unwrapped s.frame := by
  intro l hl
  rw [s.lines_eq] at hl
  obtain ⟨p, hp, rfl⟩ := List.mem_map.mp hl
  exact (h p hp).1

/-- With an LF for its empty line the head of the frame is read to its end. -/
theorem scanHead_bytes {s : ServerFrame} (h : s.Fits)
    (hblank : s.blankEnd = .newline) (t : Bytes) :
    scanHead (s.bytes ++ t) =
      .head (s.frame.command ++ s.commandEnd.mark) (s.lines.map Line.text) []
        (s.frame.payload ++ nul :: (endsText s.after ++ t)) := by
  rw [s.bytes_append, hblank]
  refine scanHead_of_scan s.clean_command (scanBlock_done_iff.mpr
    ⟨?_, isEntry_text_of_fits h, clean_nil lf nul, rfl⟩)
  simp [LineEnd.mark]

/-- A line that is a CR is none the reader knows. -/
theorem scanHead_bytes_failed {s : ServerFrame} (h : s.Fits)
    (hblank : s.blankEnd = .crNewline) (t : Bytes) :
    ∃ rest, scanHead (s.bytes ++ t) = .failed rest := by
  have hclean : Clean lf nul [cr] := clean_mark .crNewline
  have hwraps : wraps [cr] = false := by decide
  have hcolon : hasColon [cr] = false := by decide
  have hmark : s.blankEnd.mark = [cr] := by rw [hblank, LineEnd.mark]
  rw [s.bytes_append, hmark, scanHead, scanLine_append s.clean_command]
  simp only [scanBlock_append (isEntry_text_of_fits h)]
  rw [scanBlock_eq, scanLine_append hclean]
  simp [hwraps, hcolon]

/-- A line that has a length that narrows to zero with its CR ends the header block. -/
theorem scanHead_bytes_early {s : ServerFrame} (hwraps : Unwrapped s.frame)
    (h : ¬ s.Fits) (t : Bytes) :
    ∃ ls last x, scanHead (s.bytes ++ t) =
        .head (s.frame.command ++ s.commandEnd.mark) ls last
          (x ++ (s.frame.payload ++ nul :: (endsText s.after ++ t))) ∧
      x ≠ [] ∧ nul ∉ x := by
  cases hfind : s.lines.find? fun p => wraps p.text with
  | none =>
      rw [List.find?_eq_none] at hfind
      refine absurd (fun p hp => ⟨hwraps _ ?_, by simpa using hfind p hp⟩) h
      rw [s.lines_eq]
      exact List.mem_map_of_mem hp
  | some p =>
      obtain ⟨hp, before, behind, hlines, hbefore⟩ :=
        List.find?_eq_some_iff_append.mp hfind
      have hclean := s.clean_text
      have hentries : ∀ l ∈ before.map Line.text,
          IsEntry lf nul wraps hasColon l :=
        isEntry_text (s := s) (by simp [hlines]) fun q hq => by
          simpa using hbefore q hq
      rw [hlines] at hclean
      have hscan : scanBlock lf nul wraps hasColon
          (joinLines lf (before.map Line.text) ++ p.text ++ lf ::
            (joinLines lf (behind.map Line.text) ++ s.blankEnd.mark ++ [lf] ++
              (s.frame.payload ++ nul :: (endsText s.after ++ t)))) = .done _ _ _ :=
        scanBlock_done_iff.mpr ⟨rfl, hentries, hclean p (by simp), hp⟩
      refine ⟨before.map Line.text, p.text,
        joinLines lf (behind.map Line.text) ++ s.blankEnd.mark ++ [lf], ?_, by simp,
        ?_⟩
      · rw [s.bytes_append, hlines, ← scanHead_of_scan s.clean_command hscan]
        simp [joinLines]
      · simp only [joinLines, List.mem_append, List.mem_flatMap, List.mem_map,
          List.mem_singleton, not_or]
        refine ⟨⟨?_, (clean_mark _).2⟩, by decide⟩
        rintro ⟨l, ⟨q, hq, rfl⟩, hnul | hnul⟩
        · exact (hclean q (by simp [hq])).2 hnul
        · exact absurd hnul (by decide)

end ServerFrame

/-! ## What a caller sees -/

/-- The command, the header table as a map, and the body. -/
abbrev Content := CString × Option (CString → Option CString) × Option Bytes

def contentOf (frame : Frame) : Content :=
  (frame.command, frame.headers.map fun headers k => headers.lookup k, frame.body)

/-- What `n` calls of `stomp_read` return, up to the first one that fails. -/
def contents (A : Apr) : Nat → Io → List Content
  | 0, _ => []
  | n + 1, io =>
      match stompRead A io with
      | .ok frame io' => contentOf frame :: contents A n io'
      | .error _ _ => []

theorem contents_of_ok {A : Apr} {io io' : Io} {frame : Frame}
    (h : stompRead A io = .ok frame io') (n : Nat) :
    contents A (n + 1) io = contentOf frame :: contents A n io' := by
  rw [contents, h]

theorem contents_of_error {A : Apr} {io io' : Io} {rc : AprError}
    (h : stompRead A io = .error rc io') (n : Nat) : contents A (n + 1) io = [] := by
  rw [contents, h]

theorem contents_eq_cons {A : Apr} {io : Io} {n : Nat} {c : Content}
    {cs : List Content} (h : contents A (n + 1) io = c :: cs) :
    ∃ frame io', stompRead A io = .ok frame io' ∧ contentOf frame = c ∧
      contents A n io' = cs := by
  cases hread : stompRead A io with
  | ok frame io' =>
      rw [contents_of_ok hread] at h
      exact ⟨frame, io', rfl, List.cons.inj h⟩
  | error rc io' =>
      rw [contents_of_error hread] at h
      cases h

/-- Header blocks with one table denote one content. -/
theorem contentOf_denote {ls ls' : List Bytes}
    (h : ∀ k, (table ls).lookup k = (table ls').lookup k) (command payload : Bytes) :
    contentOf (denote command ls payload) =
      contentOf (denote command ls' payload) := by
  have hlength : contentLength ls = contentLength ls' := h _
  unfold denote
  rw [hlength]
  cases contentLength ls' <;> simp [contentOf, frameOf, h]

/-- The connection when `s` is what it still receives, every time as much as it
asks for. -/
abbrev arriving (s : Bytes) (io : Io) : Io := remaining s [] io

theorem delivering_arriving (s : Bytes) (io : Io) : Delivering (arriving s io) := by
  simp [Delivering]

section Reading

variable (A : Apr) (io : Io)

/-- Once its head is read, a frame is the reading of its body. -/
theorem stompRead_arriving {s command last rest : Bytes} {ls : List Bytes}
    (h : scanHead s = .head command ls last rest) :
    stompRead A (arriving s io) =
      readBody A (CString.ofBuffer command) (table ls) (arriving rest io) := by
  obtain ⟨n, -, hrest, hread⟩ := stompRead_of_head A (delivering_arriving s io) h
  rw [hread, ← hrest, advance_eq, remaining_inbox, remaining_recvs, List.drop_nil]
  rfl

/-- The first line of the stream is the command of the frame. -/
theorem command_of_stompRead {l t : Bytes} (hl : Clean lf nul l) {frame : Frame}
    {io' : Io} (h : stompRead A (arriving (l ++ lf :: t) io) = .ok frame io') :
    frame.command = CString.ofBuffer l := by
  cases hhead : scanHead (l ++ lf :: t) with
  | failed rest =>
      obtain ⟨rc, io'', -, herror⟩ := stompRead_of_failed A
        (delivering_arriving (l ++ lf :: t) io) hhead
      cases h.symm.trans herror
  | head command ls last rest =>
      obtain ⟨htext, hclean, -⟩ := scanHead_text hhead
      have hline := scanLine_append hl t
      rw [htext, scanLine_append hclean] at hline
      rw [stompRead_arriving A io hhead] at h
      rw [(readBody_head A h).1, (LineScan.line.inj hline).1]

variable {ls : List Bytes} {payload : Bytes}
variable (command : Bytes) (hok : PayloadOk ls payload)
include hok

/-- A body and its end are read, and nothing behind them. -/
theorem readBody_payload (hsized : Sized ls) (t : Bytes) :
    readBody A (CString.ofBuffer command) (table ls)
        (arriving (payload ++ nul :: lf :: t) io) =
      .ok (denote command ls payload) (arriving t io) := by
  obtain ⟨turns, hturns, hread⟩ := readBody_ok A command
    (delivering_arriving (payload ++ nul :: lf :: t) io) hsized
    (fun v _ => whole_nil _) (bodyAt_of_payloadOk hok io.endline t)
  obtain rfl := List.suffix_nil.mp hturns
  exact hread

/-- Behind the NUL of a body that was read there is an LF. -/
theorem lf_of_readBody (hsized : Sized ls) (hend : io.endline ≠ lf) {u : Bytes}
    {frame : Frame} {io' : Io}
    (h : readBody A (CString.ofBuffer command) (table ls)
      (arriving (payload ++ nul :: u) io) = .ok frame io') :
    ∃ t, u = lf :: t := by
  by_contra hu
  obtain ⟨rc, io'', herror⟩ := readBody_error A command
    (remaining_recvs (payload ++ nul :: u) [] io) hsized fun q t hbody => by
      obtain ⟨hq, htext | ⟨-, hlf⟩⟩ := payloadOk_of_bodyAt hsized hbody
      · exact hu ⟨t, (payload_unique hok hq htext).2⟩
      · exact hend hlf
  cases h.symm.trans herror

/-- A body announced with no octets is refused. -/
theorem readBody_unsized (hsized : ¬ Sized ls) (s : Bytes) :
    ∃ rc io', readBody A (CString.ofBuffer command) (table ls) (arriving s io) =
      .error rc io' := by
  obtain ⟨v, hv, hlt⟩ : ∃ v, contentLength ls = some v ∧ ¬ 1 ≤ aprAtoi64 v := by
    simpa [Sized] using hsized
  have hlength := hok.length_eq hv
  have hzero : aprAtoi64 v = 0 := by omega
  obtain ⟨rc, io', -, herror⟩ := readBody_zero A (CString.ofBuffer command)
    (arriving s io) hv (by rw [announced, hzero]; rfl)
  exact ⟨rc, io', herror⟩

end Reading

/-! ## The condition -/

namespace ServerFrame

/-- The frame, when the frames `more` follow it, is sent so that the reader does not
notice its line ends. -/
structure Placed (s : ServerFrame) (more : List ServerFrame) : Prop where
  command : s.commandEnd = .newline
  headers : Overwritten s.lines
  blank : s.blankEnd = .newline
  after : ∃ es, s.after = .newline :: es ∧ (more = [] ∨ es = [])

/-- The table that is read is that of the frame. -/
theorem sameTable_iff (s : ServerFrame) :
    (∀ k, (table (s.lines.map Line.text)).lookup k =
      (table s.frame.lines).lookup k) ↔ Overwritten s.lines := by
  rw [s.lines_eq]
  exact LineEnds.sameTable_iff s.isHeaderLine

/-- With its table the payload has the framing of the frame. -/
theorem framing_of_table {s : ServerFrame} {ls : List Bytes}
    (h : ∀ k, (table ls).lookup k = (table s.frame.lines).lookup k) :
    PayloadOk ls s.frame.payload ∧ (Sized ls ↔ Sized s.frame.lines) := by
  have hlength : contentLength ls = contentLength s.frame.lines := h _
  refine ⟨?_, ?_⟩
  · have hok := s.frame.payload_ok
    unfold PayloadOk at hok ⊢
    rwa [hlength]
  · unfold Sized
    rw [hlength]

/-- The command of a server is no line end. -/
theorem command_ne_mark (s : ServerFrame) (e : LineEnd) :
    s.frame.command ≠ e.mark := by
  intro h
  have hserver := s.server
  rw [h] at hserver
  revert hserver
  cases e <;> decide

theorem bytes_ne_lf (s : ServerFrame) (t u : Bytes) : s.bytes ++ t ≠ lf :: u := by
  rw [s.bytes_append]
  have hclean := s.frame.command_clean
  cases hcommand : s.frame.command with
  | nil => exact absurd hcommand (s.command_ne_mark .newline)
  | cons b command =>
      rw [hcommand, clean_cons] at hclean
      exact fun h => hclean.1 (List.cons.inj h).1

end ServerFrame

/-- Up to the first frame with a header line of a length that narrows to zero, or with
an announced length of zero, the line ends are such that the reader does not notice
them; from the former on they are all plain. -/
def LineEndsOk : List ServerFrame → Prop
  | [] => True
  | s :: more => (∀ s' ∈ s :: more, s'.Plain) ∨
      s.Fits ∧ s.Placed more ∧ (Sized s.frame.lines → LineEndsOk more)

/-- The bytes of the frames as they are sent. -/
def sentBytes (ss : List ServerFrame) : Bytes := streamOf ServerFrame.bytes ss

/-- The bytes of the frames with the plain line ends. -/
def plainBytes (ss : List ServerFrame) : Bytes :=
  streamOf (fun s => s.frame.bytes) ss

/-- One call for each frame returns the same commands, tables and bodies for both. -/
def SameReading (A : Apr) (ss : List ServerFrame) : Prop :=
  ∀ io, contents A ss.length (arriving (sentBytes ss) io) =
    contents A ss.length (arriving (plainBytes ss) io)

/-! ## One frame -/

/-- A frame with the content of another one has its table. -/
theorem table_of_content {frame : Frame} {w : WireFrame} {headers : Hash}
    (hheaders : frame.headers = some headers)
    (hcontent : contentOf frame = contentOf w.frame) (k : CString) :
    headers.lookup k = (table w.lines).lookup k := by
  have hsame := congrArg (fun c => c.2.1) hcontent
  simp only [contentOf, WireFrame.frame, denote_headers, hheaders, Option.map_some,
    Option.some.injEq] at hsame
  exact congrFun hsame k

section OneFrame

variable (A : Apr) (io : Io) {s : ServerFrame}

private theorem stompRead_sent (hfits : s.Fits) (hblank : s.blankEnd = .newline)
    (t : Bytes) :
    stompRead A (arriving (s.bytes ++ t) io) =
      readBody A (CString.ofBuffer (s.frame.command ++ s.commandEnd.mark))
        (table (s.lines.map Line.text))
        (arriving (s.frame.payload ++ nul :: (endsText s.after ++ t)) io) :=
  stompRead_arriving A io (s.scanHead_bytes hfits hblank t)

section Plain

variable (hwraps : Unwrapped s.frame)
include hwraps

private theorem stompRead_plain (t : Bytes) :
    stompRead A (arriving (s.frame.bytes ++ t) io) =
      readBody A (CString.ofBuffer s.frame.command) (table s.frame.lines)
        (arriving (s.frame.payload ++ nul :: lf :: t) io) :=
  stompRead_arriving A io (scanHead_wire hwraps t)

/-- A frame in its plain form is read as what it denotes. -/
theorem contents_plain (hsized : Sized s.frame.lines) (t : Bytes) (n : Nat) :
    contents A (n + 1) (arriving (s.frame.bytes ++ t) io) =
      contentOf s.frame.frame :: contents A n (arriving t io) :=
  contents_of_ok ((stompRead_plain A io hwraps t).trans
    (readBody_payload A io _ s.frame.payload_ok hsized t)) n

end Plain

section Sent

variable {more : List ServerFrame} (hfits : s.Fits) (hplaced : s.Placed more)
include hfits hplaced

/-- So is a frame whose line ends are not noticed, and all but the first of those
behind it are left. -/
theorem contents_sent (hsized : Sized s.frame.lines) :
    ∃ es, (more = [] ∨ es = []) ∧ ∀ t n,
      contents A (n + 1) (arriving (s.bytes ++ t) io) =
        contentOf s.frame.frame ::
          contents A n (arriving (endsText es ++ t) io) := by
  obtain ⟨es, hafter, hrest⟩ := hplaced.after
  have htable := s.sameTable_iff.mpr hplaced.headers
  obtain ⟨hok, hsized'⟩ := s.framing_of_table htable
  refine ⟨es, hrest, fun t n => ?_⟩
  have hcommand : s.frame.command ++ s.commandEnd.mark = s.frame.command := by
    rw [hplaced.command]
    exact List.append_nil _
  have htext : endsText s.after ++ t = lf :: (endsText es ++ t) := by
    rw [hafter, endsText, List.map_cons, joinLines_cons]
    rfl
  have hread := stompRead_sent A io hfits hplaced.blank t
  rw [hcommand, htext,
    readBody_payload A io _ hok (hsized'.mpr hsized)] at hread
  rw [contents_of_ok hread, contentOf_denote htable]
  rfl

/-- A frame that announces no octets is refused in both forms. -/
theorem contents_unsized (hsized : ¬ Sized s.frame.lines) (t t' : Bytes) (n : Nat) :
    contents A (n + 1) (arriving (s.bytes ++ t) io) =
      contents A (n + 1) (arriving (s.frame.bytes ++ t') io) := by
  have hwraps : Unwrapped s.frame := s.unwrapped hfits
  obtain ⟨hok, hsized'⟩ :=
    s.framing_of_table (s.sameTable_iff.mpr hplaced.headers)
  obtain ⟨rc, io₁, hsent⟩ := readBody_unsized A io
    (s.frame.command ++ s.commandEnd.mark) hok (mt hsized'.mp hsized)
    (s.frame.payload ++ nul :: (endsText s.after ++ t))
  obtain ⟨rc', io₂, hplain⟩ := readBody_unsized A io s.frame.command
    s.frame.payload_ok hsized (s.frame.payload ++ nul :: lf :: t')
  rw [contents_of_error ((stompRead_sent A io hfits hplaced.blank t).trans hsent),
    contents_of_error ((stompRead_plain A io hwraps t').trans hplain)]

end Sent

section Converse

variable (hwraps : Unwrapped s.frame) (hsized : Sized s.frame.lines) {t : Bytes}
  {frame : Frame} {io' : Io}
  (hread : stompRead A (arriving (s.bytes ++ t) io) = .ok frame io')
  (hcontent : contentOf frame = contentOf s.frame.frame)
include hwraps hsized hread hcontent

/-- When a header block ends early, the body starts with what is left of it. -/
theorem fits_of_stompRead : s.Fits := by
  by_contra hfits
  obtain ⟨ls, last, x, hhead, hne, hnul⟩ := s.scanHead_bytes_early hwraps hfits t
  have hbody := (stompRead_arriving A io hhead).symm.trans hread
  have htable := table_of_content (readBody_headers A hbody) hcontent
  obtain ⟨-, hsized'⟩ := s.framing_of_table htable
  obtain ⟨q, u, hat⟩ : ∃ q u, BodyAt io.endline ls
      (x ++ (s.frame.payload ++ nul :: (endsText s.after ++ t))) q u := by
    by_contra hno
    obtain ⟨rc, io'', herror⟩ := readBody_error A
      (s.frame.command ++ s.commandEnd.mark) (remaining_recvs _ [] io)
      (hsized'.mpr hsized) fun q u hb => hno ⟨q, u, hb⟩
    cases hbody.symm.trans herror
  obtain ⟨turns, -, hok⟩ := readBody_ok A
    (s.frame.command ++ s.commandEnd.mark) (delivering_arriving _ io)
    (hsized'.mpr hsized) (fun v _ => whole_nil _) hat
  obtain rfl := (EStateM.Result.ok.inj (hbody.symm.trans hok)).1
  have hq : q = s.frame.payload := by
    have hsame := congrArg (fun c => c.2.2) hcontent
    have hlength : contentLength ls = contentLength s.frame.lines := htable _
    simp only [contentOf, WireFrame.frame, denote, hlength] at hsame
    cases hv : contentLength s.frame.lines <;>
      simpa [hv, frameOf] using hsame
  rw [hq] at hat
  rcases (payloadOk_of_bodyAt (hsized'.mpr hsized) hat).2 with htext | ⟨htext, -⟩
  · exact hne (eq_nil_of_shift hnul htext)
  · exact hne (eq_nil_of_shift hnul htext)

/-- **A frame that is read as what it denotes has line ends the reader does not
notice**, up to those behind it. -/
theorem placed_of_stompRead (hend : io.endline ≠ lf) :
    (s.Fits ∧ s.commandEnd = .newline ∧ Overwritten s.lines ∧
      s.blankEnd = .newline) ∧
      ∃ u, endsText s.after ++ t = lf :: u ∧ io' = arriving u io := by
  have hfits := fits_of_stompRead A io hwraps hsized hread hcontent
  have hcommand : s.commandEnd = .newline := by
    have hline := command_of_stompRead A io s.clean_command
      (by rw [← s.bytes_append]; exact hread)
    have hsame := congrArg Prod.fst hcontent
    simp only [contentOf, WireFrame.frame, denote_command, hline,
      CString.ext_iff, ofBuffer_of_nulFree s.clean_command.2,
      ofBuffer_of_nulFree s.frame.command_clean.2] at hsame
    cases hmark : s.commandEnd with
    | newline => rfl
    | crNewline => simp [hmark, LineEnd.mark] at hsame
  have hblank : s.blankEnd = .newline := by
    cases hblank : s.blankEnd with
    | newline => rfl
    | crNewline =>
        obtain ⟨rest, hhead⟩ := s.scanHead_bytes_failed hfits hblank t
        obtain ⟨rc, io'', -, herror⟩ := stompRead_of_failed A
          (delivering_arriving (s.bytes ++ t) io) hhead
        cases hread.symm.trans herror
  have hbody := (stompRead_sent A io hfits hblank t).symm.trans hread
  have htable := table_of_content (readBody_headers A hbody) hcontent
  obtain ⟨hok, hsized'⟩ := s.framing_of_table htable
  obtain ⟨u, hu⟩ := lf_of_readBody A io _ hok (hsized'.mpr hsized) hend hbody
  rw [hu, readBody_payload A io _ hok (hsized'.mpr hsized)] at hbody
  exact ⟨⟨hfits, hcommand, s.sameTable_iff.mp htable, hblank⟩, u, hu,
    (EStateM.Result.ok.inj hbody).2.symm⟩

end Converse

end OneFrame

/-! ## Sequences of frames -/

theorem sentBytes_of_plain {ss : List ServerFrame} (h : ∀ s ∈ ss, s.Plain) :
    sentBytes ss = plainBytes ss := by
  induction ss with
  | nil => rfl
  | cons s more ih =>
      obtain ⟨hs, hmore⟩ := List.forall_mem_cons.mp h
      rw [sentBytes, plainBytes, streamOf_cons, streamOf_cons,
        ServerFrame.bytes_of_plain hs]
      exact congrArg (s.frame.bytes ++ ·) (ih hmore)

/-- Line ends that are not noticed change nothing. -/
theorem sameReading_of_lineEndsOk (A : Apr) {ss : List ServerFrame}
    (h : LineEndsOk ss) : SameReading A ss := by
  induction ss with
  | nil => exact fun io => rfl
  | cons s more ih =>
      intro io
      rcases h with hplain | ⟨hfits, hplaced, hmore⟩
      · rw [sentBytes_of_plain hplain]
      by_cases hsized : Sized s.frame.lines
      · obtain ⟨es, hes, hsent⟩ := contents_sent A io hfits hplaced hsized
        refine (hsent _ _).trans (Eq.trans ?_
          (contents_plain A io (s.unwrapped hfits) hsized _ _).symm)
        congr 1
        rcases hes with rfl | rfl
        · rfl
        · exact ih (hmore hsized) io
      · exact contents_unsized A io hfits hplaced hsized _ _ _

/-- The LF behind the NUL of a frame is its first line end. -/
private theorem exists_after {s : ServerFrame} {more : List ServerFrame}
    {u : Bytes} (hu : endsText s.after ++ sentBytes more = lf :: u) :
    ∃ es, s.after = .newline :: es ∧ endsText es ++ sentBytes more = u := by
  cases hafter : s.after with
  | nil =>
      rw [hafter] at hu
      cases more with
      | nil => cases hu
      | cons s' more => exact absurd hu (s'.bytes_ne_lf _ u)
  | cons e es =>
      rw [hafter] at hu
      cases e with
      | newline => exact ⟨es, rfl, (List.cons.inj hu).2⟩
      | crNewline => exact absurd (List.cons.inj hu).1 (by decide)

/-- A further line end is read as a command line. -/
private theorem contents_further (A : Apr) (io : Io) (e : LineEnd)
    (es : List LineEnd) (s : ServerFrame) (t : Bytes) (n : Nat)
    (cs : List Content) :
    contents A (n + 1) (arriving (endsText (e :: es) ++ t) io) ≠
      contentOf s.frame.frame :: cs := by
  intro h
  obtain ⟨frame, io', hread, hcontent, -⟩ := contents_eq_cons h
  rw [endsText, List.map_cons, joinLines_cons] at hread
  have hline := command_of_stompRead A io (clean_mark e) hread
  have hsame := congrArg Prod.fst hcontent
  simp only [contentOf, WireFrame.frame, denote_command, hline,
    CString.ext_iff, ofBuffer_of_nulFree (clean_mark e).2,
    ofBuffer_of_nulFree s.frame.command_clean.2] at hsame
  exact s.command_ne_mark e hsame.symm

/-- When both forms of frames that the reader knows are read alike, the line ends are
not noticed. -/
private theorem lineEndsOk_of_contents (A : Apr) (io : Io) (hend : io.endline ≠ lf)
    {ss : List ServerFrame}
    (hss : ∀ s ∈ ss, Unwrapped s.frame ∧ Sized s.frame.lines)
    (h : contents A ss.length (arriving (sentBytes ss) io) =
      contents A ss.length (arriving (plainBytes ss) io)) : LineEndsOk ss := by
  induction ss with
  | nil => trivial
  | cons s more ih =>
      obtain ⟨⟨hwraps, hsized⟩, hmore⟩ := List.forall_mem_cons.mp hss
      obtain ⟨frame, io', hread, hcontent, hrest⟩ := contents_eq_cons
        (h.trans (contents_plain A io hwraps hsized (plainBytes more) more.length))
      obtain ⟨⟨hfits, hcommand, hover, hblank⟩, u, hu, rfl⟩ :=
        placed_of_stompRead A io hwraps hsized hread hcontent hend
      obtain ⟨es, hafter, rfl⟩ := exists_after hu
      have hes : more = [] ∨ es = [] := by
        cases more with
        | nil => exact .inl rfl
        | cons s' more =>
            obtain ⟨hwraps', hsized'⟩ := hmore s' (by simp)
            cases es with
            | nil => exact .inr rfl
            | cons e es =>
                exact absurd (hrest.trans (contents_plain A io hwraps' hsized' _ _))
                  (contents_further A io e es s' _ _ _)
      refine .inr ⟨hfits, ⟨hcommand, hover, hblank, es, hafter, hes⟩, fun _ => ?_⟩
      rcases hes with rfl | rfl
      · trivial
      · exact ih hmore hrest

/-- **Line ends do not change what is read if the reader does not notice them**, and,
for frames it reads at all in the plain form, only then. -/
theorem sameReading_iff (A : Apr) (ss : List ServerFrame) :
    (LineEndsOk ss → SameReading A ss) ∧
      ((∀ s ∈ ss, Unwrapped s.frame ∧ Sized s.frame.lines) →
        (SameReading A ss ↔ LineEndsOk ss)) := by
  have hend : (Io.fresh []).endline ≠ lf := by decide
  refine ⟨sameReading_of_lineEndsOk A, fun hss => ⟨fun h => ?_,
    sameReading_of_lineEndsOk A⟩⟩
  exact lineEndsOk_of_contents A (Io.fresh []) hend hss (h _)

/-! ## Two sequences -/

/-- A message in which a later header of the same name makes up for a CR. -/
def overwrittenMessage : ServerFrame where
  frame :=
    { command := ascii "MESSAGE"
      lines := [ascii "a:1", ascii "content-length:2", ascii "a:2"]
      payload := [nul, lf]
      command_clean := clean_message
      lines_header := by decide +kernel
      payload_ok := by decide +kernel }
  server := by decide
  commandEnd := .newline
  lines := [(ascii "a:1", .crNewline), (ascii "content-length:2", .newline),
    (ascii "a:2", .newline)]
  lines_eq := rfl
  blankEnd := .newline
  after := [.newline]

/-- The answer to a CONNECT frame, with `e` at the end of its lines and behind its
NUL the line ends `es`. -/
def connectedFrame (e : LineEnd) (es : List LineEnd) : ServerFrame where
  frame :=
    { command := ascii "CONNECTED"
      lines := [ascii "version:1.2"]
      payload := []
      command_clean := by decide
      lines_header := by decide +kernel
      payload_ok := by decide +kernel }
  server := by decide
  commandEnd := e
  lines := [(ascii "version:1.2", e)]
  lines_eq := rfl
  blankEnd := e
  after := es

theorem sameReading_overwrittenMessage :
    SameReading .sample
      [overwrittenMessage, connectedFrame .newline [.newline, .crNewline]] := by
  refine ((sameReading_iff .sample _).2 ?_).mpr (.inr ⟨?_, ?_, fun _ => .inr
    ⟨?_, ⟨rfl, ?_, rfl, [.crNewline], rfl, .inl rfl⟩, fun _ => trivial⟩⟩)
  · decide +kernel
  · decide +kernel
  · exact ⟨rfl, by decide +kernel, rfl, [], rfl, .inr rfl⟩
  · decide +kernel
  · decide +kernel

/-- A CONNECTED frame with CR LF at the end of its lines is refused. -/
theorem sameReading_fails :
    ¬ ∀ (A : Apr) (ss : List ServerFrame), SameReading A ss := by
  intro h
  have hok := lineEndsOk_of_contents .sample (Io.fresh []) (by decide)
    (by decide +kernel) (h .sample [connectedFrame .crNewline [.newline]] _)
  rcases hok with hplain | ⟨-, hplaced, -⟩
  · cases (hplain _ (List.mem_singleton.mpr rfl)).1
  · cases hplaced.command

end LibStomp.Stream.LineEnds
