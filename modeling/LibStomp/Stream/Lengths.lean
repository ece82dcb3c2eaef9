import LibStomp.Stream.WriteFrame

/-!
# Announced lengths

`stomp_write` narrows the length of a frame to `int` twice, once for the
`content-length` line and once for the body, and replaces what is not positive
then by the length of the text that starts at the body, its NUL included.  The
two blocks agree for a body that is there.  They do not for NULL: nothing is
sent, but what is announced is the narrowed length, `-1` for the frames of the
messenger.

## Main results

* `truthfulLength_iff` — when the announced length is the number of octets sent.
* `honoursLength_iff` — when the octets sent are those the frame says.
-/

namespace LibStomp.Stream.Lengths

open LibStomp.Model
open LibStomp.Verified.Lines
open LibStomp.Stream.Grammar
open LibStomp.Stream.SendCalls
open LibStomp.Stream.WriteFrame

/-! ## The line that announces a length -/

/-- The header lines of a frame that announces `n` octets, if it has a table. -/
def linesFor (O : HashOrder) (headers : Option Hash) (n : Nat) : List Bytes :=
  match headers with
  | some headers =>
      (O.iter headers).map headerLine ++ [ascii "content-length:" ++ decimal n]
  | none => []

private theorem clean_lengthText {text : Bytes} (hlf : lf ∉ text)
    (hnul : nul ∉ text) : Clean lf nul (ascii "content-length:" ++ text) :=
  clean_append.mpr ⟨by decide, hlf, hnul⟩

/-- The last header line and the payload can be read off the bytes of a frame. -/
theorem frameBytes_last {command : Bytes} {ls : List Bytes} {l m p q : Bytes}
    (hl : Clean lf nul l) (hm : Clean lf nul m)
    (h : frameBytes command (ls ++ [l]) p = frameBytes command (ls ++ [m]) q) :
    l = m ∧ p = q := by
  have htext : l ++ lf :: lf :: (p ++ [nul, lf]) =
      m ++ lf :: lf :: (q ++ [nul, lf]) := by
    simpa [frameBytes, joinLines] using h
  have hline := congrArg (scanLine lf nul) htext
  rw [scanLine_append hl, scanLine_append hm] at hline
  obtain ⟨hlm, hrest⟩ := LineScan.line.inj hline
  exact ⟨hlm, List.append_cancel_right (List.cons.inj hrest).2⟩

/-- A frame is written with the length `n` and the payload `p` if and only if that is
what the code computes; the length does not matter without headers. -/
theorem encode_eq_iff (O : HashOrder) {frame : Frame} {n : Nat} {p : Bytes} :
    encode O frame =
      frameBytes frame.command.bytes (linesFor O frame.headers n) p ↔
    (frame.headers ≠ none → announcedLength frame = n) ∧ sentBody frame = p := by
  rw [encode, headerLines]
  cases frame.headers with
  | none => simp [frameBytes, linesFor, joinLines]
  | some headers =>
      simp only [linesFor, ne_eq, reduceCtorEq, not_false_eq_true, forall_const]
      rw [← bytes_aprItoa_eq_iff]
      constructor
      · intro h
        obtain ⟨hline, hbody⟩ := frameBytes_last
          (clean_lengthText (lf_notMem_aprItoa _) (CString.nulFree _))
          (clean_lengthText (lf_notMem_decimal n) (nul_notMem_decimal n)) h
        exact ⟨List.append_cancel_left hline, hbody⟩
      · rintro ⟨hlength, rfl⟩
        rw [lengthLine, hlength]

/-- What a successful write adds to the outbox is what the code computes. -/
theorem outbox_of_stompWrite {A : Apr} {O : HashOrder} {frame : Frame} {io io' : Io}
    (h : stompWrite A O frame io = .ok () io') :
    io'.socket.outbox = io.socket.outbox ++ encode O frame :=
  ((stompWrite_writes A O frame).accepted h).outbox

/-- There is a successful write of any frame. -/
theorem exists_stompWrite (A : Apr) (O : HashOrder) (frame : Frame) :
    ∃ io io', stompWrite A O frame io = .ok () io' ∧ io.socket.outbox = [] := by
  obtain ⟨io', hok, -⟩ := (stompWrite_writes A O frame).completes
    (show Sending (Io.fresh []) by simp [Sending, Io.fresh])
  exact ⟨Io.fresh [], io', hok, rfl⟩

/-! ## The length is the truth -/

/-- Whenever `stomp_write` succeeds, the length it has announced is a non-negative
decimal number and that of the octets it has sent. -/
def TruthfulLength (A : Apr) (frame : Frame) : Prop :=
  ∀ O io io', stompWrite A O frame io = .ok () io' →
    ∃ payload, io'.socket.outbox = io.socket.outbox ++
      frameBytes frame.command.bytes
        (linesFor O frame.headers payload.length) payload

private theorem truthfulLength_iff_announced (A : Apr) {frame : Frame}
    {headers : Hash} (hheaders : frame.headers = some headers) :
    TruthfulLength A frame ↔
      announcedLength frame = (sentBody frame).length := by
  constructor
  · intro h
    obtain ⟨io, io', hok, hnone⟩ := exists_stompWrite A .stored frame
    obtain ⟨payload, hout⟩ := h .stored io io' hok
    rw [outbox_of_stompWrite hok, hnone] at hout
    obtain ⟨hlength, rfl⟩ := (encode_eq_iff .stored).mp hout
    exact hlength (by simp [hheaders])
  · intro h O io io' hok
    refine ⟨sentBody frame, ?_⟩
    rw [outbox_of_stompWrite hok, (encode_eq_iff O).mpr ⟨fun _ => h, rfl⟩]

/-- The low 32 bits of the octets of a body: of the length of the frame if it
narrows to a positive `int`, otherwise of the length of the text at its start and
the NUL behind it. -/
def narrowed (bodyLength : UInt64) (body : Bytes) : Nat :=
  let n := bodyLength.toNat % 2 ^ 32
  if 0 < n ∧ n < 2 ^ 31 then n
  else ((CString.ofBuffer body).strlen + 1) % 2 ^ 32

theorem narrowed_lt (bodyLength : UInt64) (body : Bytes) :
    narrowed bodyLength body < 2 ^ 32 := by
  unfold narrowed
  simp only []
  split <;> omega

/-- The lengths with which `stomp_write` tells the truth: zero modulo `2 ^ 32` for
NULL, and for a body one that stays positive when it is narrowed and for which there
are as many octets. -/
def LengthTrue (frame : Frame) : Prop :=
  match frame.body with
  | none => frame.bodyLength.toNat % 2 ^ 32 = 0
  | some body =>
      narrowed frame.bodyLength body < 2 ^ 31 ∧
        narrowed frame.bodyLength body ≤ body.length

instance (frame : Frame) : Decidable (LengthTrue frame) :=
  match hbody : frame.body with
  | none => decidable_of_iff (frame.bodyLength.toNat % 2 ^ 32 = 0)
      (by rw [LengthTrue, hbody])
  | some body => decidable_of_iff
      (narrowed frame.bodyLength body < 2 ^ 31 ∧
        narrowed frame.bodyLength body ≤ body.length)
      (by rw [LengthTrue, hbody])

/-- The narrowed length, as the signed number it is taken for. -/
theorem sentLength_eq (frame : Frame) (body : Bytes) :
    sentLength frame body =
      if narrowed frame.bodyLength body < 2 ^ 31 then
        (narrowed frame.bodyLength body : Int)
      else (narrowed frame.bodyLength body : Int) - 2 ^ 32 := by
  unfold sentLength narrowed
  simp only [cInt_eq]
  by_cases hpos : 0 < frame.bodyLength.toNat % 2 ^ 32 ∧
      frame.bodyLength.toNat % 2 ^ 32 < 2 ^ 31
  · rw [if_pos hpos.2, if_pos hpos, if_neg (by omega), if_pos hpos.2]
  · rw [if_neg hpos, if_pos]
    split <;> omega

/-- A body is announced with the length that is sent. -/
theorem announcedLength_of_some {frame : Frame} {body : Bytes}
    (h : frame.body = some body) : announcedLength frame = sentLength frame body := by
  unfold announcedLength
  rw [h]
  rfl

theorem sentBody_of_some {frame : Frame} {body : Bytes} (h : frame.body = some body) :
    sentBody frame = body.take (toSize (sentLength frame body)).toNat := by
  rw [sentBody, h]

private theorem announced_iff_lengthTrue (frame : Frame) :
    announcedLength frame = (sentBody frame).length ↔ LengthTrue frame := by
  unfold LengthTrue
  cases hbody : frame.body with
  | none =>
      rw [announcedLength, sentBody, hbody]
      exact cInt_eq_zero_iff _
  | some body =>
      have hlt := narrowed_lt frame.bodyLength body
      rw [announcedLength_of_some hbody, sentBody_of_some hbody, toSize_toNat,
        List.length_take, sentLength_eq]
      show _ ↔ narrowed frame.bodyLength body < 2 ^ 31 ∧
        narrowed frame.bodyLength body ≤ body.length
      split <;> omega

/-- **The announced length is the truth exactly for the lengths that survive the
narrowing.** -/
theorem truthfulLength_iff (A : Apr) (frame : Frame) (headers : Hash)
    (hheaders : frame.headers = some headers) :
    TruthfulLength A frame ↔ LengthTrue frame :=
  (truthfulLength_iff_announced A hheaders).trans (announced_iff_lengthTrue frame)

/-- A text that is sent with its NUL. -/
def textFrame : Frame := ⟨.lit "SEND", some ∅, some (ascii "hello" ++ [nul]), 0⟩

theorem truthfulLength_textFrame : TruthfulLength .sample textFrame :=
  (truthfulLength_iff .sample textFrame ∅ rfl).mpr (by decide)

/-- A frame without a body, as the messenger composes it. -/
def bareFrame : Frame := ⟨.lit "DISCONNECT", some ∅, none, toSize (-1)⟩

/-- It is sent with `content-length:-1`. -/
theorem truthfulLength_fails :
    ¬ ∀ (A : Apr) (frame : Frame) (headers : Hash),
      frame.headers = some headers → TruthfulLength A frame := by
  intro h
  have htrue := (truthfulLength_iff_announced .sample rfl).mp
    (h .sample bareFrame ∅ rfl)
  exact absurd ((announced_iff_lengthTrue bareFrame).mp htrue) (by decide)

/-! ## The length is honoured -/

/-- The frame with the octets `stored` at its body, whatever lies behind them in
memory, and their number for its length. -/
def storedFrame (command : CString) (headers : Option Hash) (stored behind : Bytes) :
    Frame :=
  ⟨command, headers, some (stored ++ behind), UInt64.ofNat stored.length⟩

@[simp] theorem storedFrame_bodyLength (command : CString) (headers : Option Hash)
    (stored behind : Bytes) :
    (storedFrame command headers stored behind).bodyLength =
      UInt64.ofNat stored.length := rfl

/-- Whenever `stomp_write` succeeds it has sent exactly the octets stored, and has
announced their number if there are headers. -/
def HonoursLength (A : Apr) (command : CString) (headers : Option Hash)
    (stored : Bytes) : Prop :=
  ∀ O behind io io',
    stompWrite A O (storedFrame command headers stored behind) io = .ok () io' →
      io'.socket.outbox = io.socket.outbox ++
        frameBytes command.bytes (linesFor O headers stored.length) stored

/-- The lengths that are honoured: those that fit an `int`, and, without headers, one
that the narrowed length of the text at the start of the body is extended to when
it is converted back. -/
def LengthKept (headers : Option Hash) (stored : Bytes) : Prop :=
  stored.length < 2 ^ 31 ∨
    headers = none ∧ 2 ^ 64 - 2 ^ 31 ≤ stored.length ∧ nul ∈ stored ∧
      ((CString.ofBuffer stored).strlen + 1) % 2 ^ 32 = stored.length % 2 ^ 32

/-- The code honours the length whatever lies behind the octets. -/
private theorem honoursLength_iff_computed (A : Apr) (command : CString)
    (headers : Option Hash) (stored : Bytes) :
    HonoursLength A command headers stored ↔
      ∀ behind, (headers ≠ none →
          announcedLength (storedFrame command headers stored behind) =
            stored.length) ∧
        sentBody (storedFrame command headers stored behind) = stored := by
  constructor
  · intro h behind
    obtain ⟨io, io', hok, hnone⟩ := exists_stompWrite A .stored
      (storedFrame command headers stored behind)
    have hout := h .stored behind io io' hok
    rw [outbox_of_stompWrite hok, hnone] at hout
    exact (encode_eq_iff .stored).mp hout
  · intro h O behind io io' hok
    rw [outbox_of_stompWrite hok, (encode_eq_iff O).mpr (h behind)]
    rfl

theorem sentLength_lt (frame : Frame) (body : Bytes) :
    sentLength frame body < 2 ^ 31 := by
  unfold sentLength
  simp only []
  split <;> exact cInt_lt _

/-- What lies behind a text in memory does not change its length. -/
theorem ofBuffer_append {stored : Bytes} (h : nul ∈ stored) (behind : Bytes) :
    CString.ofBuffer (stored ++ behind) = CString.ofBuffer stored := by
  obtain ⟨text, more, rfl⟩ := List.append_of_mem h
  rw [List.append_assoc, List.cons_append, ofBuffer_cons_nul, ofBuffer_cons_nul]

/-- A NUL behind octets without one ends their text. -/
theorem strlen_terminated {stored : Bytes} (h : nul ∉ stored) :
    (CString.ofBuffer (stored ++ [nul])).strlen = stored.length := by
  rw [ofBuffer_terminated, CString.strlen, ofBuffer_of_nulFree h]

private theorem take_append_eq_iff {stored behind : Bytes} {k : Nat} :
    (stored ++ behind).take k = stored ↔
      min k (stored.length + behind.length) = stored.length := by
  rw [← List.length_append, ← List.length_take]
  constructor
  · intro h
    rw [h]
  · intro h
    exact (List.prefix_of_prefix_length_le (List.take_prefix k _)
      (List.prefix_append stored behind) (le_of_eq h)).eq_of_length h

section Honours

variable (command : CString) (headers : Option Hash) {stored : Bytes}

/-- The length a body is announced with. -/
private theorem announcedLength_storedFrame (behind : Bytes) :
    announcedLength (storedFrame command headers stored behind) =
      sentLength (storedFrame command headers stored behind) (stored ++ behind) :=
  announcedLength_of_some rfl

private theorem sentBody_storedFrame_iff (behind : Bytes) :
    sentBody (storedFrame command headers stored behind) = stored ↔
      min (sentLength (storedFrame command headers stored behind)
          (stored ++ behind) % 2 ^ 64).toNat
        (stored.length + behind.length) = stored.length := by
  have hbody : (storedFrame command headers stored behind).body =
      some (stored ++ behind) := rfl
  rw [sentBody_of_some hbody, toSize_toNat, take_append_eq_iff]

variable (hpos : 1 ≤ stored.length) (hlt : stored.length < 2 ^ 64 - 1)
include hlt

private theorem bodyLength_toNat :
    (UInt64.ofNat stored.length).toNat = stored.length := by
  rw [UInt64.toNat_ofNat']
  omega

/-- Without an `int` for the length it is kept only in the corner. -/
private theorem lengthKept_of_computed
    (h : ∀ behind, (headers ≠ none →
          announcedLength (storedFrame command headers stored behind) =
            stored.length) ∧
        sentBody (storedFrame command headers stored behind) = stored) :
    LengthKept headers stored := by
  by_cases hsmall : stored.length < 2 ^ 31
  · exact .inl hsmall
  -- a NUL behind the octets ends a text that goes on to their end
  obtain ⟨hannounced, hsent⟩ := h [nul]
  have hsmall' := sentLength_lt (storedFrame command headers stored [nul])
    (stored ++ [nul])
  have hnone : headers = none := by
    by_contra hsome
    have heq := hannounced hsome
    rw [announcedLength_storedFrame] at heq
    omega
  rw [sentBody_storedFrame_iff, sentLength_eq, storedFrame_bodyLength] at hsent
  have hm := narrowed_lt (UInt64.ofNat stored.length) (stored ++ [nul])
  have hcases : narrowed (UInt64.ofNat stored.length) (stored ++ [nul]) < 2 ^ 31 ∨
      narrowed (UInt64.ofNat stored.length) (stored ++ [nul]) =
        ((CString.ofBuffer (stored ++ [nul])).strlen + 1) % 2 ^ 32 := by
    unfold narrowed
    simp only []
    split
    · exact .inl (by omega)
    · exact .inr rfl
  simp only [List.length_singleton] at hsent
  have hlarge : narrowed (UInt64.ofNat stored.length) (stored ++ [nul]) +
      (2 ^ 64 - 2 ^ 32) = stored.length := by
    split at hsent <;> omega
  have htext : ((CString.ofBuffer (stored ++ [nul])).strlen + 1) % 2 ^ 32 =
      stored.length % 2 ^ 32 := by
    omega
  have hnul : nul ∈ stored := by
    by_contra hnot
    rw [strlen_terminated hnot] at htext
    omega
  rw [ofBuffer_append hnul] at htext
  exact .inr ⟨hnone, by omega, hnul, htext⟩

include hpos

/-- A length that is kept is narrowed to itself, or to a number that is extended to
it. -/
private theorem sentLength_of_lengthKept (h : LengthKept headers stored)
    (behind : Bytes) :
    sentLength (storedFrame command headers stored behind) (stored ++ behind) =
        stored.length ∨
      headers = none ∧
        (sentLength (storedFrame command headers stored behind)
          (stored ++ behind) % 2 ^ 64).toNat = stored.length := by
  have hlength := bodyLength_toNat hlt
  rw [sentLength_eq, storedFrame_bodyLength]
  rcases h with hsmall | ⟨hnone, hbig, hnul, htext⟩
  · have hn : narrowed (UInt64.ofNat stored.length) (stored ++ behind) =
        stored.length := by
      unfold narrowed
      rw [hlength]
      simp only []
      rw [if_pos (by omega)]
      omega
    rw [hn, if_pos hsmall]
    exact .inl rfl
  · have hn : narrowed (UInt64.ofNat stored.length) (stored ++ behind) =
        stored.length % 2 ^ 32 := by
      unfold narrowed
      rw [hlength, ofBuffer_append hnul]
      simp only []
      rw [if_neg (by omega), htext]
    rw [hn, if_neg (by omega)]
    exact .inr ⟨hnone, by omega⟩

private theorem computed_of_lengthKept (h : LengthKept headers stored)
    (behind : Bytes) :
    (headers ≠ none →
        announcedLength (storedFrame command headers stored behind) =
          stored.length) ∧
      sentBody (storedFrame command headers stored behind) = stored := by
  rw [announcedLength_storedFrame, sentBody_storedFrame_iff]
  rcases sentLength_of_lengthKept command headers hpos hlt h behind with
    hsame | ⟨hnone, hsize⟩
  · exact ⟨fun _ => hsame, by omega⟩
  · exact ⟨fun hsome => absurd hnone hsome, by omega⟩

private theorem honoursLength_iff_kept (A : Apr) :
    HonoursLength A command headers stored ↔ LengthKept headers stored :=
  (honoursLength_iff_computed A command headers stored).trans
    ⟨lengthKept_of_computed command headers hlt,
      computed_of_lengthKept command headers hpos hlt⟩

end Honours

/-- **A length is honoured if it fits an `int`**, and otherwise only in a corner. -/
theorem honoursLength_iff (A : Apr) (command : CString) (headers : Option Hash)
    (stored : Bytes) (hpos : 1 ≤ stored.length)
    (hlt : stored.length < 2 ^ 64 - 1) :
    HonoursLength A command headers stored ↔ LengthKept headers stored :=
  honoursLength_iff_kept command headers hpos hlt A

/-- Octets with a NUL among them. -/
theorem honoursLength_binary :
    HonoursLength .sample (.lit "SEND") (some ∅) [1, nul, 2] :=
  (honoursLength_iff .sample (.lit "SEND") (some ∅) [1, nul, 2] (by decide)
    (by decide)).mpr (.inl (by decide))

/-- Of `2 ^ 32 + 1` octets the first is sent. -/
theorem honoursLength_fails :
    ¬ ∀ (A : Apr) (command : CString) (headers : Option Hash) (stored : Bytes),
      1 ≤ stored.length → stored.length < 2 ^ 64 - 1 →
        HonoursLength A command headers stored := by
  intro h
  obtain ⟨n, hn⟩ : ∃ n, n = 2 ^ 32 + 1 := ⟨_, rfl⟩
  have hlength : (List.replicate n (97 : UInt8)).length = n := List.length_replicate
  have hpos : 1 ≤ (List.replicate n (97 : UInt8)).length := by omega
  have hlt : (List.replicate n (97 : UInt8)).length < 2 ^ 64 - 1 := by omega
  rcases (honoursLength_iff_kept (.lit "SEND") (some ∅) hpos hlt .sample).mp
    (h .sample (.lit "SEND") (some ∅) _ hpos hlt) with hsmall | ⟨hnone, -⟩
  · omega
  · cases hnone

end LibStomp.Stream.Lengths
