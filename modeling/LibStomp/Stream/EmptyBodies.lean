import LibStomp.Stream.CleanFrames
import LibStomp.Stream.ReadSuccess

/-!
# Frames with an empty body

For a frame without a body `stomp_write` announces `content-length:0`.
`stomp_read` takes any content-length for a body to be received, and asks the
socket for 0 octets here.  A receive that succeeds delivers at least one, so no
schedule lets it return such a frame.

## Main results

* `not_readsBackEmpty` — what is written for an empty body is never read back.
-/

namespace LibStomp.Stream.EmptyBodies

open LibStomp.Model
open LibStomp.Verified.Lines
open LibStomp.Stream.Grammar
open LibStomp.Stream.ReadLine
open LibStomp.Stream.ReadFrame
open LibStomp.Stream.ReadBody
open LibStomp.Stream.WholeFrames
open LibStomp.Stream.WriteFrame
open LibStomp.Stream.CleanFrames
open LibStomp.Stream.ReadSuccess

/-! ## What is written -/

/-- The frame a caller builds for an exchange without a body. -/
def bodiless (command : CString) (headers : Hash) : Frame :=
  ⟨command, some headers, none, 0⟩

theorem announcedLength_bodiless (command : CString) (headers : Hash) :
    announcedLength (bodiless command headers) = 0 := by
  show cInt ((0 : UInt64).toNat : Int) = 0
  decide

theorem announced_bodiless (command : CString) (headers : Hash) :
    announced (aprItoa (announcedLength (bodiless command headers))) = 0 := by
  rw [announcedLength_bodiless]
  decide +kernel

/-! ## Reading it back -/

/-- The read returns the command, the headers and no octet of a body, and leaves
`t` on the stream. -/
def ReadsBackEmpty (A : Apr) (command : CString) (headers : Hash) (t : Bytes)
    (io : Io) : Prop :=
  ∃ frame io', stompRead A io = .ok frame io' ∧
    frame.command = command ∧
    (∃ read, frame.headers = some read ∧
      ∀ k, k ≠ .lit "content-length" → read.lookup k = headers.lookup k) ∧
    frame.bodyLength = 0 ∧ io'.socket.inbox = t

/-- The command of a frame that was read is a line. -/
private theorem command_line_of_frameRead {io io' : Io} {frame : Frame}
    (h : FrameRead io frame io') : lf ∉ frame.command.bytes := by
  obtain ⟨command, ls, last, rest, hhead, hcommand, -⟩ := h.head
  obtain ⟨-, hclean, -⟩ := scanHead_text hhead
  rw [hcommand, ofBuffer_of_nulFree hclean.2]
  exact hclean.1

/-- A counted body of no octets has not been read. -/
private theorem announced_ne_zero {io io' : Io} {frame : Frame}
    (h : FrameRead io frame io') {command last rest : Bytes} {ls : List Bytes}
    (hhead : scanHead io.socket.inbox = .head command ls last rest) {v : CString}
    (hv : contentLength ls = some v) : announced v ≠ 0 := by
  intro hzero
  cases h with
  | counted hhead' hv' _ hpos hpiece =>
      obtain ⟨-, rfl, -, -⟩ := HeadScan.head.inj (hhead'.symm.trans hhead)
      obtain rfl := Option.some.inj (hv'.symm.trans hv)
      rw [hzero] at hpiece
      exact absurd (hpiece ▸ pieceSize_le _ 0) (by omega)
  | uncounted hhead' hv' =>
      obtain ⟨-, rfl, -, -⟩ := HeadScan.head.inj (hhead'.symm.trans hhead)
      cases hv'.symm.trans hv

section Clean

variable {frame : Frame} {headers : Hash} (c : CleanFrame frame headers)
    (O : HashOrder)
include c

/-- A header line that is taken for the empty one is missing from the table. -/
theorem lookup_table_of_early (hno : .lit "content-length" ∉ headers)
    {ls more : List Bytes} {last : Bytes}
    (hlines : headerLines O frame = ls ++ last :: more) (hwraps : wraps last = true) :
    ∃ k, k ≠ .lit "content-length" ∧ (table ls).lookup k = none ∧
      headers.lookup k ≠ none := by
  have hmem : last ∈ headerLines O frame := by
    rw [hlines]
    simp
  rw [c.headerLines_eq, List.mem_append, List.mem_singleton] at hmem
  rcases hmem with hmem | rfl
  · obtain ⟨h, hh, rfl⟩ := List.mem_map.mp hmem
    have hentry := (O.perm headers).mem_iff.mp hh
    have hname := nameOf_headerLine (c.headers_clean h hentry).1
    have hlookup : headers.lookup h.1 = some h.2 := AList.mem_lookup_iff.mpr hentry
    have hnodup := (c.names_nodup_iff O).mpr hno
    rw [hlines, List.map_append, List.map_cons, List.nodup_append] at hnodup
    refine ⟨h.1, ?_, lookup_table_of_notMem fun hm => ?_, by simp [hlookup]⟩
    · intro heq
      rw [heq] at hlookup
      exact hno (AList.lookup_isSome.mp (by simp [hlookup]))
    · exact hnodup.2.2 _ hm _ List.mem_cons_self hname.symm
  · rw [wraps_lengthLine] at hwraps
    cases hwraps

end Clean

private theorem not_readsBack (A : Apr) (O : HashOrder) {command : CString}
    {headers : Hash} {t : Bytes} {io : Io} (hclean : CleanTable headers)
    (hno : headers.lookup (.lit "content-length") = none)
    (hin : io.socket.inbox = encode O (bodiless command headers) ++ t) :
    ¬ ReadsBackEmpty A command headers t io := by
  rintro ⟨frame, io', hread, hcommand, ⟨read, hheaders, hlookup⟩, -, -⟩
  have hframe := frameRead_of_stompRead A hread
  have hline := command_line_of_frameRead hframe
  rw [hcommand] at hline
  have c : CleanFrame (bodiless command headers) headers := ⟨rfl, hline, hclean⟩
  obtain ⟨command', ls, last, rest, hhead, -, htable⟩ := hframe.head
  have htext : io.socket.inbox = command.bytes ++ lf ::
      (joinLines lf (headerLines O (bodiless command headers)) ++
        lf :: nul :: lf :: t) := by
    rw [hin]
    simp [encode, frameBytes, sentBody, bodiless]
  obtain ⟨last', hlines, hcases⟩ :=
    scanHead_lines ⟨hline, command.nulFree⟩ (c.lines_header O) (nul :: lf :: t)
  rw [← htext, hhead] at hlines
  obtain ⟨-, rfl, rfl, -⟩ := HeadScan.head.inj hlines
  rcases hcases with ⟨-, hall, -⟩ | ⟨more, hmore, -⟩
  · have hlength := c.contentLength_headerLines O
    rw [← hall] at hlength
    exact announced_ne_zero hframe hhead hlength (announced_bodiless command headers)
  · have hwraps : wraps last = true :=
      (scanBlock_done_iff.mp (scanHead_text hhead).2.2).2.2.2
    obtain ⟨k, hk, hnone, hsome⟩ :=
      lookup_table_of_early c O (AList.lookup_eq_none.mp hno) hmore hwraps
    obtain rfl := Option.some.inj (hheaders.symm.trans htable)
    exact hsome ((hlookup k hk).symm.trans hnone)

/-- **What is written for an empty body is never read back**, whatever the command,
the headers, the bytes behind the frame and the schedule. -/
theorem not_readsBackEmpty (A : Apr) (O : HashOrder) (command : CString)
    (headers : Hash) (t : Bytes) (io : Io) (hclean : CleanTable headers)
    (hno : headers.lookup (.lit "content-length") = none)
    (hin : io.socket.inbox = encode O (bodiless command headers) ++ t) :
    ¬ ReadsBackEmpty A command headers t io :=
  not_readsBack A O hclean hno hin

/-- A receipt without a header of its own. -/
theorem not_readsBackEmpty_receipt :
    ¬ ReadsBackEmpty .sample (.lit "RECEIPT") ∅ []
      (Io.fresh (encode .stored (bodiless (.lit "RECEIPT") ∅))) :=
  not_readsBackEmpty .sample .stored (.lit "RECEIPT") ∅ [] _ cleanTable_empty rfl
    (List.append_nil _).symm

theorem readsBackEmpty_fails :
    ¬ ∀ (A : Apr) (O : HashOrder) (command : CString) (headers : Hash) (t : Bytes)
      (io : Io), CleanTable headers → headers.lookup (.lit "content-length") = none →
        io.socket.inbox = encode O (bodiless command headers) ++ t →
          ReadsBackEmpty A command headers t io := by
  intro h
  have hread := h .sample .stored (.lit "RECEIPT") ∅ []
    (Io.fresh (encode .stored (bodiless (.lit "RECEIPT") ∅))) cleanTable_empty rfl
    (List.append_nil _).symm
  exact not_readsBack .sample .stored cleanTable_empty rfl (List.append_nil _).symm hread

end LibStomp.Stream.EmptyBodies
