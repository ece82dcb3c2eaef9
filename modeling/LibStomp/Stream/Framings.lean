import LibStomp.Stream.CleanFrames
import LibStomp.Stream.ReadSuccess

/-!
# The two framings of a body

A payload without a NUL can be sent with its length or without it.  `stomp_read`
receives a counted one into a buffer of just that size, and `stomp_read_buffer`
counts the NUL of an uncounted one: the lengths differ by one, and only the second
body is a C string.

## Main results

* `not_sameBody` — the two framings of one payload are never read as the same body.
-/

namespace LibStomp.Stream.Framings

open LibStomp.Model
open LibStomp.Verified.Lines
open LibStomp.Stream.Grammar
open LibStomp.Stream.ReadLine
open LibStomp.Stream.ReadFrame
open LibStomp.Stream.ReadBody
open LibStomp.Stream.WholeFrames
open LibStomp.Stream.WriteFrame
open LibStomp.Stream.CleanFrames
open LibStomp.Stream.ReadSuccess

/-! ## Announcing a length -/

/-- The name of a header that announces a length. -/
abbrev lengthName : CString := .lit "content-length"

/-- The header that announces `n` octets. -/
def lengthOf (n : Nat) : Header := ⟨lengthName, ⟨decimal n, nul_notMem_decimal n⟩⟩

theorem cleanHeader_lengthOf (n : Nat) : CleanHeader (lengthOf n) :=
  ⟨by show colon ∉ lengthName.bytes; decide, by show lf ∉ lengthName.bytes; decide,
    lf_notMem_decimal n⟩

/-- At most the length itself is asked for: a number that is too large saturates. -/
theorem announced_lengthOf_le (n : Nat) : announced (lengthOf n).2 ≤ n := by
  have hvalue : aprAtoi64 (lengthOf n).2 = min (n : Int) (2 ^ 63 - 1) :=
    aprAtoi64_of_decimal rfl
  rw [announced, toSize, hvalue, UInt64.toNat_ofNat']
  omega

/-! ## What is read for a payload -/

section Payload

variable {command payload t : Bytes} {lines : List Bytes} {io io' : Io} {frame : Frame}
variable (hcommand : Clean lf nul command) (hlines : ∀ l ∈ lines, IsHeaderLine l)
    (hpayload : nul ∉ payload)
    (hin : io.socket.inbox = frameBytes command lines payload ++ t)
    (hread : FrameRead io frame io')
include hcommand hlines hpayload hin hread

omit hcommand hin hread in
private theorem nul_notMem_text : nul ∉ cutOff lines ++ payload := by
  rw [List.mem_append, not_or]
  exact ⟨nul_notMem_cutOff hlines, hpayload⟩

/-- The NUL is an octet of an uncounted body. -/
private theorem uncounted_body (hv : contentLength (linesRead lines) = none) :
    frame.body = some (cutOff lines ++ payload ++ [nul]) := by
  obtain ⟨last, hscan⟩ := scanHead_frameBytes hcommand hlines hin
  have hcut := nul_notMem_text hlines hpayload
  cases hread with
  | counted hhead hv' =>
      obtain ⟨-, rfl, -, -⟩ := HeadScan.head.inj (hhead.symm.trans hscan)
      cases hv.symm.trans hv'
  | uncounted hhead _ hnul hrest =>
      obtain ⟨-, -, -, rfl⟩ := HeadScan.head.inj (hhead.symm.trans hscan)
      obtain ⟨rfl, -⟩ := append_cons_inj hcut hnul hrest
      rfl

/-- A counted body fills its buffer. -/
private theorem counted_body {v : CString}
    (hv : contentLength (linesRead lines) = some v)
    (hle : announced v ≤ payload.length) :
    frame.body = some payload := by
  obtain ⟨last, hscan⟩ := scanHead_frameBytes hcommand hlines hin
  have hcut := nul_notMem_text hlines hpayload
  cases hread with
  | @counted _ _ _ received _ _ _ hhead hv' hrest hpos hpiece =>
      obtain ⟨-, rfl, -, rfl⟩ := HeadScan.head.inj (hhead.symm.trans hscan)
      obtain rfl := Option.some.inj (hv'.symm.trans hv)
      have hreceived : received.length ≤ payload.length :=
        (hpiece ▸ pieceSize_le _ _).trans hle
      -- what was received is the beginning of a text without a NUL
      have hbegins : received <+: cutOff lines ++ payload := by
        refine List.prefix_of_prefix_length_le
          ⟨nul :: lf :: io'.socket.inbox, hrest.symm⟩ (List.prefix_append _ _) ?_
        rw [List.length_append]
        omega
      obtain ⟨hall, -⟩ :=
        append_cons_inj hcut (fun hm => hcut (hbegins.subset hm)) hrest
      have hlen := congrArg List.length hall
      rw [List.length_append] at hlen
      obtain hnil : cutOff lines = [] := List.length_eq_zero_iff.mp (by omega)
      rw [hnil, List.nil_append] at hall
      -- and then the buffer had no room for more
      rw [← hall]
      show some (padded (announced _) payload) = some payload
      rw [padded, Nat.sub_eq_zero_of_le hle]
      simp
  | uncounted hhead hv' =>
      obtain ⟨-, rfl, -, -⟩ := HeadScan.head.inj (hhead.symm.trans hscan)
      cases hv.symm.trans hv'

end Payload

/-! ## Both framings -/

/-- A line that the code does not read as one leaves more of the head behind. -/
private theorem length_cutOff_lt {l : Bytes} {before after : List Bytes}
    (h : l ∉ linesRead (before ++ l :: after)) :
    (cutOff (before ++ after)).length < (cutOff (before ++ l :: after)).length := by
  induction before with
  | nil =>
      have hle := length_cutOff_le after
      rw [List.nil_append, linesRead_cons] at h
      rw [List.nil_append, List.nil_append, cutOff_cons]
      by_cases hw : wraps l = true
      · rw [if_pos hw, List.length_append, List.length_singleton]
        omega
      · rw [if_neg hw] at h
        exact absurd List.mem_cons_self h
  | cons b before ih =>
      rw [List.cons_append, linesRead_cons] at h
      rw [List.cons_append, List.cons_append, cutOff_cons, cutOff_cons]
      by_cases hw : wraps b = true
      · rw [if_pos hw, if_pos hw]
        simp [joinLines]
        omega
      · rw [if_neg hw, List.mem_cons, not_or] at h
        rw [if_neg hw, if_neg hw]
        exact ih h.2

/-- The two frames have the same length and the same body, a C string in each. -/
structure SameBody (f g : Frame) : Prop where
  length : f.bodyLength = g.bodyLength
  body : ∃ b c, f.body = some b ∧ g.body = some c ∧ nul ∈ b ∧ nul ∈ c ∧
    CString.ofBuffer b = CString.ofBuffer c

/-- Both reads succeed, and return the same body. -/
def ReadsSameBody (A : Apr) (io io' : Io) : Prop :=
  ∃ f g s s', stompRead A io = .ok f s ∧ stompRead A io' = .ok g s' ∧ SameBody f g

/-- The line with the length is the only one of its name. -/
private theorem lines_counted {before after : List Bytes} (n : Nat)
    (hlines : ∀ l ∈ before ++ after, IsHeaderLine l)
    (hnames : ∀ l ∈ before ++ after, nameOf l ≠ lengthName) :
    ∀ l ∈ before ++ headerLine (lengthOf n) :: after,
      IsHeaderLine l ∧ (nameOf l = lengthName → l = headerLine (lengthOf n)) := by
  intro l hl
  rcases List.mem_append.mp hl with hl | hl
  · have hmem := List.mem_append_left after hl
    exact ⟨hlines l hmem, fun h => absurd h (hnames l hmem)⟩
  rcases List.mem_cons.mp hl with rfl | hl
  · exact ⟨isHeaderLine_headerLine (cleanHeader_lengthOf n), fun _ => rfl⟩
  · have hmem := List.mem_append_right before hl
    exact ⟨hlines l hmem, fun h => absurd h (hnames l hmem)⟩

/-- Without that line no length is announced. -/
private theorem contentLength_linesRead {lines : List Bytes}
    (hnames : ∀ l ∈ lines, nameOf l ≠ lengthName) :
    contentLength (linesRead lines) = none := by
  refine lookup_table_eq_none.mpr fun hm => ?_
  obtain ⟨l, hl, heq⟩ := List.mem_map.mp hm
  exact hnames l (linesRead_subset _ hl) heq

private theorem not_readsSameBody (A : Apr) (command payload t t' : Bytes)
    (before after : List Bytes) {io io' : Io} (hcommand : Clean lf nul command)
    (hlines : ∀ l ∈ before ++ after, IsHeaderLine l)
    (hnames : ∀ l ∈ before ++ after, nameOf l ≠ lengthName) (hpayload : nul ∉ payload)
    (hin : io.socket.inbox = frameBytes command
      (before ++ headerLine (lengthOf payload.length) :: after) payload ++ t)
    (hin' : io'.socket.inbox = frameBytes command (before ++ after) payload ++ t') :
    ¬ ReadsSameBody A io io' := by
  rintro ⟨f, g, s, s', hf, hg, -, b, c, hb, hc, hnul, -, htext⟩
  have hname : nameOf (headerLine (lengthOf payload.length)) = lengthName :=
    nameOf_headerLine (cleanHeader_lengthOf payload.length).1
  have hcounted := lines_counted payload.length hlines hnames
  have hlines' := fun l hl => (hcounted l hl).1
  have hbody := uncounted_body hcommand hlines hpayload hin'
    (frameRead_of_stompRead A hg) (contentLength_linesRead hnames)
  obtain rfl := Option.some.inj (hc.symm.trans hbody)
  cases hv : contentLength (linesRead
      (before ++ headerLine (lengthOf payload.length) :: after)) with
  | some v =>
      obtain ⟨l, hl, hlname, hvalue⟩ := mem_lines_of_lookup hv
      obtain rfl := (hcounted l (linesRead_subset _ hl)).2 hlname
      rw [valueOf_headerLine (cleanHeader_lengthOf payload.length).1] at hvalue
      have hpayload' := counted_body hcommand hlines' hpayload hin
        (frameRead_of_stompRead A hf) hv (hvalue ▸ announced_lengthOf_le payload.length)
      obtain rfl := Option.some.inj (hb.symm.trans hpayload')
      exact hpayload hnul
  | none =>
      -- the length is behind the end of the block, and part of the body
      have hunread : headerLine (lengthOf payload.length) ∉ linesRead
          (before ++ headerLine (lengthOf payload.length) :: after) := fun hm =>
        lookup_table_eq_none.mp hv (List.mem_map.mpr ⟨_, hm, hname⟩)
      have hlt := length_cutOff_lt hunread
      have hbody' := uncounted_body hcommand hlines' hpayload hin
        (frameRead_of_stompRead A hf) hv
      obtain rfl := Option.some.inj (hb.symm.trans hbody')
      rw [ofBuffer_terminated, ofBuffer_terminated] at htext
      have hbytes := congrArg CString.bytes htext
      rw [ofBuffer_of_nulFree (nul_notMem_text hlines' hpayload),
        ofBuffer_of_nulFree (nul_notMem_text hlines hpayload)] at hbytes
      have hlen := congrArg List.length (List.append_cancel_right hbytes)
      omega

/-- **The two framings of one payload are never read as the same body**, wherever the
length stands among the headers, whatever follows and whatever the schedules. -/
theorem not_sameBody (A : Apr) (command payload t t' : Bytes)
    (before after : List Bytes) (io io' : Io) (hcommand : Clean lf nul command)
    (hlines : ∀ l ∈ before ++ after, IsHeaderLine l)
    (hnames : ∀ l ∈ before ++ after, nameOf l ≠ lengthName) (hpayload : nul ∉ payload)
    (hin : io.socket.inbox = frameBytes command
      (before ++ headerLine (lengthOf payload.length) :: after) payload ++ t)
    (hin' : io'.socket.inbox = frameBytes command (before ++ after) payload ++ t') :
    ¬ ReadsSameBody A io io' :=
  not_readsSameBody A command payload t t' before after hcommand hlines hnames
    hpayload hin hin'

/-- A receipt with the body `x`, with and without its length. -/
theorem not_sameBody_receipt :
    ¬ ReadsSameBody .sample
      (Io.fresh (frameBytes (ascii "RECEIPT") [headerLine (lengthOf 1)] (ascii "x")))
      (Io.fresh (frameBytes (ascii "RECEIPT") [] (ascii "x"))) :=
  not_sameBody .sample (ascii "RECEIPT") (ascii "x") [] [] [] [] _ _ clean_receipt
    (by simp) (by simp) (by decide) (List.append_nil _).symm (List.append_nil _).symm

theorem readsSameBody_fails :
    ¬ ∀ (A : Apr) (command payload t t' : Bytes) (before after : List Bytes)
      (io io' : Io), Clean lf nul command →
        (∀ l ∈ before ++ after, IsHeaderLine l) →
        (∀ l ∈ before ++ after, nameOf l ≠ lengthName) → payload ≠ [] →
        nul ∉ payload →
        io.socket.inbox = frameBytes command
          (before ++ headerLine (lengthOf payload.length) :: after) payload ++ t →
        io'.socket.inbox = frameBytes command (before ++ after) payload ++ t' →
          ReadsSameBody A io io' := by
  intro h
  have hsame := h .sample (ascii "RECEIPT") (ascii "x") [] [] [] []
    (Io.fresh (frameBytes (ascii "RECEIPT") [headerLine (lengthOf 1)] (ascii "x")))
    (Io.fresh (frameBytes (ascii "RECEIPT") [] (ascii "x"))) (by decide) (by simp)
    (by simp) (by decide) (by decide) (List.append_nil _).symm
    (List.append_nil _).symm
  exact not_readsSameBody .sample (ascii "RECEIPT") (ascii "x") [] [] [] []
    (by decide) (by simp) (by simp) (by decide) (List.append_nil _).symm
    (List.append_nil _).symm hsame

end LibStomp.Stream.Framings
