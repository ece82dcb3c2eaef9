import LibStomp.Stream.CleanFrames
import LibStomp.Verified.Escaping

/-!
# Received headers in the encoding of STOMP 1.2

In MESSAGE, RECEIPT and ERROR frames STOMP 1.2 escapes backslash, carriage
return, newline and colon in header names and values, and of several headers with
one name the first one counts.  `stomp_read` copies the text around the first
colon of a line as it stands and inserts it into the table, where it replaces an
earlier value.

## Main results

* `decodes_iff` — the table is the decoded one if and only if no name has an
  escaped symbol, the last value of each name is written as its first value reads,
  and the frame is read at all.
-/

namespace LibStomp.Stream.Escapes

open LibStomp.Model
open LibStomp.Verified.Escaping
open LibStomp.Verified.Lines
open LibStomp.Stream.Grammar
open LibStomp.Stream.ReadLine
open LibStomp.Stream.ReadFrame
open LibStomp.Stream.ReadBody
open LibStomp.Stream.WholeFrames
open LibStomp.Stream.WriteFrame
open LibStomp.Stream.CleanFrames

/-! ## The encoding -/

abbrev backslash : UInt8 := 92

/-- The letter that stands for a byte that is escaped. -/
def escapeLetter (b : UInt8) : Option UInt8 :=
  if b = backslash then some backslash
  else if b = 13 then some 114
  else if b = lf then some 110
  else if b = colon then some 99
  else none

/-- The separators are escaped, and no escape contains one. -/
private theorem notMem_encode {b : UInt8} (hb : b = nul ∨ b = lf ∨ b = colon)
    {l : Bytes} (hnul : nul ∉ l) : b ∉ encode backslash escapeLetter l := by
  intro hmem
  rcases mem_encode hmem with h | ⟨a, -, h⟩ | ⟨h, hnone⟩
  · rcases hb with rfl | rfl | rfl <;> cases h
  · unfold escapeLetter at h
    rcases hb with rfl | rfl | rfl <;> grind
  · rcases hb with rfl | rfl | rfl
    · exact hnul h
    · cases hnone
    · cases hnone

/-- The text of a header name or value. -/
def escape (s : CString) : CString :=
  ⟨encode backslash escapeLetter s.bytes, notMem_encode (.inl rfl) s.nulFree⟩

/-- The string has none of the four symbols. -/
def PlainString (s : CString) : Prop := Plain escapeLetter s.bytes

instance (s : CString) : Decidable (PlainString s) :=
  inferInstanceAs (Decidable (Plain escapeLetter s.bytes))

theorem escape_eq_self_iff {s : CString} : escape s = s ↔ PlainString s := by
  rw [CString.ext_iff]
  exact encode_eq_self_iff

def escapeHeader (h : Header) : Header := ⟨escape h.1, escape h.2⟩

theorem cleanHeader_escapeHeader (h : Header) : CleanHeader (escapeHeader h) :=
  ⟨notMem_encode (.inr (.inr rfl)) h.1.nulFree,
    notMem_encode (.inr (.inl rfl)) h.1.nulFree,
    notMem_encode (.inr (.inl rfl)) h.2.nulFree⟩

/-- The line of a header. -/
def escapedLine (h : Header) : Bytes := headerLine (escapeHeader h)

theorem isHeaderLine_escapedLine (h : Header) : IsHeaderLine (escapedLine h) :=
  isHeaderLine_headerLine (cleanHeader_escapeHeader h)

/-- Such a line is read as the header that was escaped. -/
theorem headerOf_escapedLine (h : Header) :
    headerOf (escapedLine h) = escapeHeader h := by
  have hname := (cleanHeader_escapeHeader h).1
  unfold headerOf escapedLine
  rw [nameOf_headerLine hname, valueOf_headerLine hname]

/-! ## Frames of the server -/

/-- The commands whose headers are escaped. -/
inductive EscapedCommand
  | message
  | receipt
  | error
deriving DecidableEq

def EscapedCommand.text : EscapedCommand → CString
  | .message => .lit "MESSAGE"
  | .receipt => .lit "RECEIPT"
  | .error => .lit "ERROR"

/-- A frame with its headers, names possibly repeated.  The first content-length, if
there is one, is the length of the payload. -/
structure EscapedFrame where
  command : EscapedCommand
  headers : List Header
  payload : Bytes
  payload_ok : match headers.dlookup (.lit "content-length") with
    | some v => (payload.length : Int) = aprAtoi64 v
    | none => nul ∉ payload

namespace EscapedFrame

/-- The frame as STOMP 1.2 encodes it. -/
def bytes (f : EscapedFrame) : Bytes :=
  frameBytes f.command.text.bytes (f.headers.map escapedLine) f.payload

/-- The headers before the first one whose line has a length that narrows to zero. -/
def seen (f : EscapedFrame) : List Header :=
  f.headers.takeWhile fun h => !wraps (escapedLine h)

/-- What follows the line that ends the header block for the reader, when `t` follows the
frame. -/
def behind (f : EscapedFrame) (t : Bytes) : Bytes :=
  match f.headers.dropWhile fun h => !wraps (escapedLine h) with
  | [] => f.payload ++ nul :: lf :: t
  | _ :: more => joinLines lf (more.map escapedLine) ++ lf ::
      (f.payload ++ nul :: lf :: t)

end EscapedFrame

theorem clean_text (c : EscapedCommand) : Clean lf nul c.text.bytes := by
  cases c <;> decide

/-- The head of the frame as it is read. -/
theorem scanHead_bytes (f : EscapedFrame) (t : Bytes) :
    ∃ last, scanHead (f.bytes ++ t) =
      .head f.command.text.bytes (f.seen.map escapedLine) last (f.behind t) := by
  have hsplit : f.headers = f.seen ++
      f.headers.dropWhile fun h => !wraps (escapedLine h) :=
    List.takeWhile_append_dropWhile.symm
  have hentries : ∀ l ∈ f.seen.map escapedLine, IsEntry lf nul wraps hasColon l := by
    intro l hl
    obtain ⟨h, hh, rfl⟩ := List.mem_map.mp hl
    obtain ⟨hclean, -, hcolon⟩ := isHeaderLine_escapedLine h
    exact ⟨hclean, by simpa using List.mem_takeWhile_imp hh, hcolon⟩
  have htext : f.bytes ++ t = f.command.text.bytes ++ lf ::
      (joinLines lf (f.headers.map escapedLine) ++ lf ::
        (f.payload ++ nul :: lf :: t)) := by
    simp [EscapedFrame.bytes, frameBytes]
  rw [htext]
  cases hdrop : f.headers.dropWhile fun h => !wraps (escapedLine h) with
  | nil =>
      rw [hdrop, List.append_nil] at hsplit
      refine ⟨[], scanHead_of_scan (clean_text _) (scanBlock_done_iff.mpr
        ⟨?_, hentries, clean_nil lf nul, rfl⟩)⟩
      rw [EscapedFrame.behind, hdrop, hsplit]
      simp
  | cons last more =>
      have hwraps : wraps (escapedLine last) = true := by
        have hhead := List.head_dropWhile_not
          (fun h => !wraps (escapedLine h)) (by rw [hdrop]; simp)
        simpa [hdrop] using hhead
      rw [hdrop] at hsplit
      refine ⟨escapedLine last, scanHead_of_scan (clean_text _)
        (scanBlock_done_iff.mpr ⟨?_, hentries,
          (isHeaderLine_escapedLine last).1, hwraps⟩)⟩
      rw [EscapedFrame.behind, hdrop]
      conv => lhs; rw [hsplit]
      simp [joinLines]

/-! ## Tables -/

/-- The last header of a name that is read gives its value. -/
theorem lookup_seen (f : EscapedFrame) (k : CString) :
    (table (f.seen.map escapedLine)).lookup k =
      (f.seen.map escapeHeader).reverse.dlookup k := by
  have hheaders : (f.seen.map escapedLine).map headerOf =
      f.seen.map escapeHeader := by
    rw [List.map_map]
    exact List.map_congr_left fun h _ => headerOf_escapedLine h
  rw [lookup_table, hheaders]

/-- Under plain names escaping changes the values only. -/
theorem dlookup_escapeHeader {hs : List Header}
    (hplain : ∀ h ∈ hs, PlainString h.1) (k : CString) :
    (hs.map escapeHeader).dlookup k = (hs.dlookup k).map escape := by
  induction hs with
  | nil => rfl
  | cons h hs ih =>
      have hname : escape h.1 = h.1 := escape_eq_self_iff.mpr (hplain h (by simp))
      have hheader : escapeHeader h = ⟨h.1, escape h.2⟩ := by
        rw [escapeHeader, hname]
      rw [List.map_cons, hheader]
      by_cases hk : k = h.1
      · subst hk
        rw [List.dlookup_cons_eq, List.dlookup_cons_eq hs h.1 h.2, Option.map_some]
      · rw [List.dlookup_cons_ne _ (⟨h.1, escape h.2⟩ : Header) hk,
          List.dlookup_cons_ne _ h hk]
        exact ih fun p hp => hplain p (by simp [hp])

theorem seen_subset (f : EscapedFrame) {h : Header} (hh : h ∈ f.seen) :
    h ∈ f.headers :=
  (List.takeWhile_sublist _).subset hh

/-- With plain names the table that is read holds the last values, as they are
written. -/
theorem lookup_seen_of_plain {f : EscapedFrame}
    (hplain : ∀ h ∈ f.headers, PlainString h.1) (k : CString) :
    (table (f.seen.map escapedLine)).lookup k =
      (f.seen.reverse.dlookup k).map escape := by
  rw [lookup_seen, ← List.map_reverse, dlookup_escapeHeader]
  intro h hh
  exact hplain h (seen_subset f (List.mem_reverse.mp hh))

/-- A table with the names of all headers has plain names only. -/
theorem plain_of_lookup {f : EscapedFrame}
    (h : ∀ k, (table (f.seen.map escapedLine)).lookup k = f.headers.dlookup k) :
    ∀ p ∈ f.headers, PlainString p.1 := by
  -- a name that is in the table was written as the escape of a name
  have hescape : ∀ m, (∃ p ∈ f.headers, p.1.bytes = m) →
      ∃ l, (∃ q ∈ f.headers, q.1.bytes = l) ∧
        encode backslash escapeLetter l = m := by
    rintro _ ⟨p, hp, rfl⟩
    have hsome : (f.headers.dlookup p.1).isSome :=
      List.dlookup_isSome.mpr (List.mem_keys_of_mem hp)
    obtain ⟨v, hv⟩ := Option.isSome_iff_exists.mp hsome
    obtain ⟨l, hl, hname, -⟩ := mem_lines_of_lookup ((h p.1).trans hv)
    obtain ⟨q, hq, rfl⟩ := List.mem_map.mp hl
    have hq' : escape q.1 = p.1 :=
      (congrArg Sigma.fst (headerOf_escapedLine q)).symm.trans hname
    exact ⟨_, ⟨q, seen_subset f hq, rfl⟩, congrArg CString.bytes hq'⟩
  intro p hp
  exact plain_of_preimages hescape ⟨p, hp, rfl⟩

/-! ## Decoding -/

/-- `stomp_read` returns a frame whose table maps each name to the value of its first
occurrence and contains nothing else. -/
def Decodes (A : Apr) (f : EscapedFrame) (io : Io) : Prop :=
  ∃ frame io' headers, stompRead A io = .ok frame io' ∧
    frame.headers = some headers ∧ ∀ k, headers.lookup k = f.headers.dlookup k

/-- The frame reads as it is written: no name is changed by its escapes, the last value
of each name reads as the first one, and a body of at least one octet follows the
headers that are read. -/
structure Verbatim (f : EscapedFrame) (t : Bytes) (endline : UInt8) : Prop where
  names : ∀ h ∈ f.headers, PlainString h.1
  values : ∀ k, (f.seen.reverse.dlookup k).map escape = f.headers.dlookup k
  sized : ∀ v, f.headers.dlookup (.lit "content-length") = some v →
    aprAtoi64 v ≠ 0
  body : ∃ payload rest,
    BodyAt endline (f.seen.map escapedLine) (f.behind t) payload rest

section Decoding

variable (A : Apr) {f : EscapedFrame} {io : Io} {t : Bytes}
variable (hrecvs : io.socket.recvs = []) (hin : io.socket.inbox = f.bytes ++ t)
include hrecvs hin

/-- Behind the header block, the frame is the reading of a body. -/
private theorem stompRead_escaped :
    ∃ n, (advance n io).socket.inbox = f.behind t ∧
      stompRead A io = readBody A (CString.ofBuffer f.command.text.bytes)
        (table (f.seen.map escapedLine)) (advance n io) := by
  have hd : Delivering io := by simp [Delivering, hrecvs]
  obtain ⟨last, hhead⟩ := scanHead_bytes f t
  rw [← hin] at hhead
  obtain ⟨n, -, hrest, hread⟩ := stompRead_of_head A hd hhead
  exact ⟨n, hrest, hread⟩

omit hrecvs hin in
/-- The length that is read is the length of the payload. -/
private theorem sized_seen
    (hlookup : ∀ k, (table (f.seen.map escapedLine)).lookup k = f.headers.dlookup k)
    (hne : ∀ v, f.headers.dlookup (.lit "content-length") = some v →
      aprAtoi64 v ≠ 0) : Sized (f.seen.map escapedLine) := by
  intro v hv
  rw [contentLength, hlookup] at hv
  have hpos := hne v hv
  have hok := f.payload_ok
  rw [hv] at hok
  simp only [] at hok
  omega

private theorem verbatim_of_decodes (h : Decodes A f io) :
    Verbatim f t io.endline := by
  obtain ⟨frame, io', headers, hread, hheaders, hlookup⟩ := h
  obtain ⟨n, hrest, hbody⟩ := stompRead_escaped A hrecvs hin
  have hrun := hbody.symm.trans hread
  obtain rfl := Option.some.inj (hheaders.symm.trans (readBody_headers A hrun))
  have hplain := plain_of_lookup hlookup
  have hd : Delivering (advance n io) := by simp [Delivering, hrecvs]
  have hsized : ∀ v, f.headers.dlookup (.lit "content-length") = some v →
      aprAtoi64 v ≠ 0 := by
    intro v hv hzero
    obtain ⟨rc, _, -, herror⟩ := readBody_zero A
      (CString.ofBuffer f.command.text.bytes) _ ((hlookup _).trans hv)
      (by rw [announced, hzero]; rfl)
    cases hrun.symm.trans herror
  refine ⟨hplain, fun k => ?_, hsized, ?_⟩
  · rw [← lookup_seen_of_plain hplain, hlookup]
  · by_contra hnone
    have hno : ∀ payload rest, ¬ BodyAt (advance n io).endline
        (f.seen.map escapedLine) (advance n io).socket.inbox payload rest :=
      fun payload rest hb => hnone ⟨payload, rest, hrest ▸ hb⟩
    obtain ⟨rc, _, herror⟩ := readBody_error A f.command.text.bytes
      (by simp [hrecvs]) (sized_seen hlookup hsized) hno
    cases hrun.symm.trans herror

private theorem decodes_of_verbatim (h : Verbatim f t io.endline) :
    Decodes A f io := by
  obtain ⟨n, hrest, hbody⟩ := stompRead_escaped A hrecvs hin
  have hlookup (k : CString) :
      (table (f.seen.map escapedLine)).lookup k = f.headers.dlookup k := by
    rw [lookup_seen_of_plain h.names, h.values]
  obtain ⟨payload, rest, hb⟩ := h.body
  have hd : Delivering (advance n io) := by simp [Delivering, hrecvs]
  obtain ⟨turns, -, hread⟩ := readBody_ok A f.command.text.bytes hd
    (sized_seen hlookup h.sized)
    (fun v _ => by rw [advance_recvs, hrecvs, List.drop_nil]; exact whole_nil _)
    (hrest ▸ hb)
  refine ⟨_, _, table (f.seen.map escapedLine), hbody.trans hread, ?_, hlookup⟩
  exact readBody_headers A hread

end Decoding

/-- If no header line is taken for the empty one, the body that follows is the payload. -/
private theorem bodyAt_payload {f : EscapedFrame} (endline : UInt8) (t : Bytes)
    (hunwrapped : ∀ h ∈ f.headers, wraps (escapedLine h) = false)
    (hlength : contentLength (f.seen.map escapedLine) =
      f.headers.dlookup (.lit "content-length")) :
    BodyAt endline (f.seen.map escapedLine) (f.behind t) f.payload t := by
  have hdrop : f.headers.dropWhile (fun h => !wraps (escapedLine h)) = [] := by
    rw [List.dropWhile_eq_nil_iff]
    intro h hh
    rw [hunwrapped h hh]
    rfl
  have hbehind : f.behind t = f.payload ++ nul :: lf :: t := by
    rw [EscapedFrame.behind, hdrop]
  have hok := f.payload_ok
  rw [← hlength] at hok
  rw [hbehind]
  exact bodyAt_of_payloadOk hok endline t

/-- Frames with distinct names and without any of the four symbols read as they are
written, unless a line or the body has a length of no size. -/
theorem verbatim_of_plain {f : EscapedFrame} (t : Bytes) (endline : UInt8)
    (hdistinct : f.headers.NodupKeys)
    (hplain : ∀ h ∈ f.headers, PlainString h.1 ∧ PlainString h.2)
    (hunwrapped : ∀ h ∈ f.headers, wraps (escapedLine h) = false)
    (hsized : ∀ v, f.headers.dlookup (.lit "content-length") = some v →
      aprAtoi64 v ≠ 0) : Verbatim f t endline := by
  have hseen : f.seen = f.headers := by
    rw [EscapedFrame.seen, List.takeWhile_eq_self_iff]
    intro h hh
    rw [hunwrapped h hh]
    rfl
  have hnames : ∀ h ∈ f.headers, PlainString h.1 := fun h hh => (hplain h hh).1
  have hvalues (k : CString) :
      (f.seen.reverse.dlookup k).map escape = f.headers.dlookup k := by
    rw [hseen, ← List.perm_dlookup k hdistinct (List.reverse_perm _).symm]
    cases hv : f.headers.dlookup k with
    | none => rfl
    | some v =>
        rw [Option.map_some, escape_eq_self_iff.mpr
          (hplain ⟨k, v⟩ (List.of_mem_dlookup hv)).2]
  have hlookup (k : CString) :
      (table (f.seen.map escapedLine)).lookup k = f.headers.dlookup k := by
    rw [lookup_seen_of_plain hnames, hvalues]
  exact ⟨hnames, hvalues, hsized, f.payload, t,
    bodyAt_payload endline t hunwrapped (hlookup _)⟩

/-- **Received headers are decoded exactly when there is nothing to decode.** -/
theorem decodes_iff (A : Apr) (f : EscapedFrame) (t : Bytes) (io : Io)
    (hrecvs : io.socket.recvs = []) (hin : io.socket.inbox = f.bytes ++ t) :
    Decodes A f io ↔ Verbatim f t io.endline :=
  ⟨verbatim_of_decodes A hrecvs hin, decodes_of_verbatim A hrecvs hin⟩

/-- A message whose two octets look like the end of a frame. -/
def plainFrame : EscapedFrame where
  command := .message
  headers := [⟨.lit "destination", .lit "/queue/test"⟩,
    ⟨.lit "content-length", .lit "2"⟩]
  payload := [nul, lf]
  payload_ok := by
    show (2 : Int) = aprAtoi64 (.lit "2")
    decide +kernel

theorem decodes_plainFrame :
    Decodes .sample plainFrame (Io.fresh (plainFrame.bytes ++ ascii "tail")) := by
  refine (decodes_iff .sample plainFrame (ascii "tail") _ rfl rfl).mpr
    (verbatim_of_plain _ _ ?_ ?_ ?_ ?_)
  · unfold List.NodupKeys
    decide +kernel
  · decide +kernel
  · decide +kernel
  · intro v hv
    obtain rfl : CString.lit "2" = v := Option.some.inj hv
    decide +kernel

/-- A message with a colon in a header value. -/
def colonFrame : EscapedFrame where
  command := .message
  headers := [⟨.lit "a", .lit "x:y"⟩]
  payload := []
  payload_ok := List.not_mem_nil

/-- The value that is returned is the one with the escape, `x\cy`. -/
theorem decodes_fails :
    ¬ ∀ (A : Apr) (f : EscapedFrame) (t : Bytes) (io : Io),
      io.socket.recvs = [] → io.socket.inbox = f.bytes ++ t → Decodes A f io := by
  intro h
  have hverbatim := verbatim_of_decodes .sample rfl rfl
    (h .sample colonFrame [] (Io.fresh (colonFrame.bytes ++ [])) rfl rfl)
  exact absurd (hverbatim.values (.lit "a")) (by decide +kernel)

end LibStomp.Stream.Escapes
