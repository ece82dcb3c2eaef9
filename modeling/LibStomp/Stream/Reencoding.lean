import LibStomp.Stream.ReadTables

/-!
# Writing what was read

A frame that `stomp_read` returns from a stream that is delivered whole can be
written and read again: its names and values keep clear of the separators, none
of its header lines is taken for the empty one, since each of them has been read
as a header line before, and its body has at least one octet.  A `content-length`
in the table is repeated by the writer, and the one it adds last wins.

## Main results

* `reencodable_stompRead` — what was read can be written and read back.
* `reencodes` — any number of writes and reads keeps command, body and headers.
-/

namespace LibStomp.Stream.Reencoding

open LibStomp.Model
open LibStomp.Verified.Lines
open LibStomp.Stream.Grammar
open LibStomp.Stream.ReadLine
open LibStomp.Stream.ReadFrame
open LibStomp.Stream.ReadBody
open LibStomp.Stream.WholeFrames
open LibStomp.Stream.WriteFrame
open LibStomp.Stream.CleanFrames
open LibStomp.Stream.ReadTables

/-! ## Frames that survive -/

/-- The frame is written as it is and read back with its length in the table. -/
structure Reencodable (frame : Frame) (headers : Hash) (body : Bytes) : Prop extends
    CleanFrame frame headers where
  fits : ∀ h ∈ headers.entries, LengthFits h
  body_eq : frame.body = some body
  length_eq : frame.bodyLength = UInt64.ofNat body.length
  pos : 1 ≤ body.length

/-- A header line is that of the entry it makes. -/
theorem headerLine_of_line {l : Bytes} (hclean : Clean lf nul l)
    (hcolon : hasColon l = true) : headerLine ⟨nameOf l, valueOf l⟩ = l := by
  have hmem : colon ∈ l := of_decide_eq_true hcolon
  have hname : nul ∉ l.takeWhile (· != colon) :=
    fun hm => hclean.2 ((List.takeWhile_sublist _).subset hm)
  have hvalue : nul ∉ (l.dropWhile (· != colon)).tail :=
    fun hm => hclean.2
      ((List.dropWhile_sublist _).subset (List.mem_of_mem_tail hm))
  have hne : l.dropWhile (· != colon) ≠ [] := by
    rw [ne_eq, List.dropWhile_eq_nil_iff]
    intro hall
    simpa using hall colon hmem
  obtain ⟨b, rest, hdrop⟩ := List.exists_cons_of_ne_nil hne
  have hb : b = colon := by
    have hhead := List.head_dropWhile_not (· != colon) hne
    simpa [hdrop] using hhead
  have hparts : l.takeWhile (· != colon) ++ l.dropWhile (· != colon) = l :=
    List.takeWhile_append_dropWhile
  show (nameOf l).bytes ++ colon :: (valueOf l).bytes = l
  rw [nameOf, valueOf, ofBuffer_of_nulFree hname, ofBuffer_of_nulFree hvalue,
    hdrop, List.tail_cons]
  rwa [hdrop, hb] at hparts

/-- The table of a block of lines that were read as header lines. -/
theorem entries_table {ls : List Bytes}
    (h : ∀ l ∈ ls, IsEntry lf nul wraps hasColon l) :
    CleanTable (table ls) ∧ ∀ p ∈ (table ls).entries, LengthFits p := by
  refine ⟨cleanTable_table fun l hl => (h l hl).1, ?_⟩
  rintro ⟨k, v⟩ hp
  obtain ⟨l, hl, rfl, rfl⟩ := mem_lines_of_lookup (AList.mem_lookup_iff.mpr hp)
  obtain ⟨hclean, hwraps, hcolon⟩ := h l hl
  rw [lengthFits_iff, headerLine_of_line hclean hcolon]
  exact hwraps

/-- A body that was read from a stream delivered whole is as long as the frame says. -/
theorem readBody_body (A : Apr) {command : CString} {headers : Hash} {io io' : Io}
    {frame : Frame} (hrecvs : io.socket.recvs = [])
    (h : readBody A command headers io = .ok frame io') :
    ∃ body, frame = frameOf command headers body body.length ∧
      1 ≤ body.length := by
  have hd : Delivering io := by simp [Delivering, hrecvs]
  cases hv : headers.lookup (.lit "content-length") with
  | none =>
      by_cases hnul : nul ∈ io.socket.inbox
      · obtain ⟨p, t, hin, hp⟩ := List.eq_append_cons_of_mem hnul
        have hread := readBody_uncounted A command hd hv hp hin
        by_cases hlf : endlineOf io t = lf
        · rw [if_neg (not_not_intro hlf), h] at hread
          refine ⟨p ++ [nul], ?_, by simp⟩
          rw [List.length_append]
          exact (EStateM.Result.ok.inj hread).1
        · rw [if_pos hlf] at hread
          obtain ⟨rc, _, -, herror⟩ := hread
          cases h.symm.trans herror
      · obtain ⟨rc, _, -, herror⟩ := readBody_unterminated A command hd hv hnul
        cases h.symm.trans herror
  | some v =>
      by_cases hzero : announced v = 0
      · obtain ⟨rc, _, -, herror⟩ := readBody_zero A command _ hv hzero
        cases h.symm.trans herror
      have hread := readBody_counted A command hd hv (Nat.pos_of_ne_zero hzero) rfl
      rw [hrecvs, endPieces_of_whole (whole_nil _)] at hread
      by_cases hend : (io.socket.inbox.drop (announced v)).take 2 = [nul, lf]
      · have hlen := (take_of_end hend).1
        rw [if_pos hend, h] at hread
        refine ⟨io.socket.inbox.take (announced v), ?_, ?_⟩
        · rw [(EStateM.Result.ok.inj hread).1, padded, hlen, Nat.sub_self,
            List.replicate_zero, List.append_nil]
        · rw [hlen]
          exact Nat.pos_of_ne_zero hzero
      · rw [if_neg hend] at hread
        obtain ⟨rc, _, -, herror⟩ := hread
        cases h.symm.trans herror

/-- **What was read can be written and read back.** -/
theorem reencodable_stompRead (A : Apr) {io io' : Io} {frame : Frame}
    (hrecvs : io.socket.recvs = []) (h : stompRead A io = .ok frame io') :
    ∃ headers body, Reencodable frame headers body := by
  have hd : Delivering io := by simp [Delivering, hrecvs]
  cases hhead : scanHead io.socket.inbox with
  | failed rest =>
      obtain ⟨rc, _, -, herror⟩ := stompRead_of_failed A hd hhead
      cases h.symm.trans herror
  | head command ls last rest =>
      obtain ⟨n, -, -, hread⟩ := stompRead_of_head A hd hhead
      obtain ⟨-, hcommand, hscan⟩ := scanHead_text hhead
      obtain ⟨-, hls, -⟩ := scanBlock_done_iff.mp hscan
      obtain ⟨hclean, hfits⟩ := entries_table hls
      obtain ⟨body, rfl, hpos⟩ := readBody_body A (by simp [advance, hrecvs])
        (hread.symm.trans h)
      refine ⟨table ls, body, ⟨⟨rfl, ?_, hclean⟩, hfits, rfl, rfl, hpos⟩⟩
      show lf ∉ (CString.ofBuffer command).bytes
      rw [ofBuffer_of_nulFree hcommand.2]
      exact hcommand.1

/-! ## One more write and read -/

/-- Wherever it is written, and whatever follows on the stream it is read from, the
frame `frame` comes back as `frame'`, and no byte more is read. -/
def Rereads (A : Apr) (O : HashOrder) (frame frame' : Frame) : Prop :=
  ∀ wr, Sending wr → ∃ out wr', stompWrite A O frame wr = .ok () wr' ∧
    wr'.socket.outbox = wr.socket.outbox ++ out ∧
      ∀ (rd : Io) (t : Bytes), rd.socket.recvs = [] →
        rd.socket.inbox = out ++ t →
          ∃ rd', stompRead A rd = .ok frame' rd' ∧ rd'.socket.inbox = t

/-- Command, body and headers are the same, but for the length, which is that of the
body. -/
structure SameContent (frame frame' : Frame) : Prop where
  command : frame'.command = frame.command
  body : frame'.body = frame.body
  bodyLength : frame'.bodyLength = frame.bodyLength
  headers : ∃ headers headers', frame.headers = some headers ∧
    frame'.headers = some headers' ∧
    (∀ k, k ≠ .lit "content-length" → headers'.lookup k = headers.lookup k) ∧
    ∃ v, headers'.lookup (.lit "content-length") = some v ∧
      aprAtoi64 v = frame'.bodyLength.toNat

theorem SameContent.trans {f g k : Frame} (h : SameContent f g)
    (h' : SameContent g k) : SameContent f k where
  command := h'.command.trans h.command
  body := h'.body.trans h.body
  bodyLength := h'.bodyLength.trans h.bodyLength
  headers := by
    obtain ⟨t, u, ht, hu, hsame, -⟩ := h.headers
    obtain ⟨u', v, hu', hv, hsame', hlength⟩ := h'.headers
    obtain rfl := Option.some.inj (hu.symm.trans hu')
    exact ⟨t, v, ht, hv, fun k hk => (hsame' k hk).trans (hsame k hk), hlength⟩

namespace Reencodable

variable {frame : Frame} {headers : Hash} {body : Bytes}
variable (c : Reencodable frame headers body) (hlt : body.length < 2 ^ 31)
include c hlt

theorem counted : CountedFrame frame headers :=
  .of_body c.toCleanFrame c.body_eq c.length_eq c.pos hlt le_rfl

theorem sent_eq : sentBody frame = body := by
  rw [sentBody_of_body c.body_eq c.length_eq c.pos hlt, List.take_length]

theorem rereads (A : Apr) (O : HashOrder) :
    Rereads A O frame
      (frameOf frame.command (table (headerLines O frame)) body body.length) := by
  intro wr hs
  obtain ⟨wr', hok, hacc⟩ := (stompWrite_writes A O frame).completes hs
  refine ⟨encode O frame, wr', hok, hacc.outbox, fun rd t hrecvs hin => ?_⟩
  obtain ⟨rd', hin', -, hread⟩ :=
    (c.counted hlt).read_back A O c.fits hrecvs hin
  rw [c.sent_eq hlt] at hread
  exact ⟨rd', hread, hin'⟩

theorem sameContent (O : HashOrder) :
    SameContent frame
      (frameOf frame.command (table (headerLines O frame)) body
        body.length) where
  command := rfl
  body := c.body_eq.symm
  bodyLength := c.length_eq.symm
  headers := by
    refine ⟨headers, _, c.headers_eq, rfl, fun k hk =>
      c.toCleanFrame.lookup_table_ne O hk, _,
      c.toCleanFrame.contentLength_headerLines O, ?_⟩
    rw [(c.counted hlt).aprAtoi64_announced, c.sent_eq hlt]
    show (body.length : Int) = ((UInt64.ofNat body.length).toNat : Int)
    rw [UInt64.toNat_ofNat', Nat.mod_eq_of_lt (by omega)]

end Reencodable

/-! ## Any number of writes and reads -/

/-- The frames that come back when the first one is written and read once for every
order, each time the one that came back last. -/
def Reencodes (A : Apr) : Frame → List HashOrder → List Frame → Prop
  | _, [], frames => frames = []
  | frame, O :: orders, frames =>
      ∃ frame' rest, frames = frame' :: rest ∧ Rereads A O frame frame' ∧
        Reencodes A frame' orders rest

private theorem reencodes_of_reencodable (A : Apr) (orders : List HashOrder) :
    ∀ {frame : Frame} {headers : Hash} {body : Bytes},
      Reencodable frame headers body → body.length < 2 ^ 31 →
      ∃ frames, Reencodes A frame orders frames ∧
        ∀ frame' ∈ frames, SameContent frame frame' := by
  induction orders with
  | nil => exact fun _ _ => ⟨[], rfl, by simp⟩
  | cons O orders ih =>
      intro frame headers body c hlt
      have hreread := c.rereads hlt A O
      have hsame := c.sameContent hlt O
      -- what comes back was read, and so can be written again
      obtain ⟨out, _, -, -, hback⟩ := hreread (Io.fresh []) (by simp [Sending, Io.fresh])
      obtain ⟨rd', hread, -⟩ := hback (Io.fresh out) [] rfl (by simp [Io.fresh])
      obtain ⟨headers', body', c'⟩ := reencodable_stompRead A rfl hread
      obtain rfl : body = body' := Option.some.inj c'.body_eq
      obtain ⟨rest, hrest, hall⟩ := ih c' hlt
      refine ⟨_ :: rest, ⟨_, rest, rfl, hreread, hrest⟩, fun frame' hf => ?_⟩
      rcases List.mem_cons.mp hf with rfl | hf
      · exact hsame
      · exact hsame.trans (hall frame' hf)

/-- **Writing and reading what was read loses nothing**, however often it is done and
in whatever order each table is written. -/
theorem reencodes (A : Apr) (io io' : Io) (frame : Frame)
    (hrecvs : io.socket.recvs = []) (h : stompRead A io = .ok frame io')
    (hlt : (frame.body.getD []).length ≤ 2 ^ 31 - 1) (orders : List HashOrder) :
    ∃ frames, Reencodes A frame orders frames ∧
      ∀ frame' ∈ frames, SameContent frame frame' := by
  obtain ⟨headers, body, c⟩ := reencodable_stompRead A hrecvs h
  rw [c.body_eq, Option.getD_some] at hlt
  exact reencodes_of_reencodable A orders c (by omega)

/-- A message whose announced length counts a NUL of its body. -/
def countedInput : Bytes :=
  ascii "MESSAGE\na:1:2\ncontent-length:3\n\nx" ++ [nul, 121, nul, lf]

/-- The length of the body that is read off the bytes. -/
def bodyLengthOf (bs : Bytes) : Option Nat :=
  match stompRead .sample (Io.fresh bs) with
  | .ok frame _ => frame.body.map List.length
  | .error _ _ => none

theorem reencodes_countedInput :
    ∃ frame io', stompRead .sample (Io.fresh countedInput) = .ok frame io' ∧
      ∃ frames, Reencodes .sample frame [.stored, .stored] frames ∧
        ∀ frame' ∈ frames, SameContent frame frame' := by
  have hrun : bodyLengthOf countedInput = some 3 := by decide +kernel
  unfold bodyLengthOf at hrun
  split at hrun
  · rename_i frame io' hread
    obtain ⟨body, hbody, hlen⟩ := Option.map_eq_some_iff.mp hrun
    refine ⟨frame, io', hread, reencodes .sample _ io' frame rfl hread ?_ _⟩
    rw [hbody, Option.getD_some, hlen]
    decide
  · cases hrun

end LibStomp.Stream.Reencoding
