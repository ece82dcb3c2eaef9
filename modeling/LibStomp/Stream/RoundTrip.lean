import LibStomp.Stream.CleanFrames

/-!
# Writing frames and reading them back

A frame whose strings keep clear of the separators is written as a frame of the
grammar, and what the grammar says it denotes is the frame itself with the
`content-length` header added.  So a sequence of such frames is read back as it
was written, unless a header line is so long that the reader takes it for the
end of the header block.

## Main results

* `roundTrips_iff` — a sequence of frames is read back if and only if no header
  line of it has a length that is a multiple of `2 ^ 32`.
-/

namespace LibStomp.Stream.RoundTrip

open LibStomp.Model
open LibStomp.Verified.Lines
open LibStomp.Stream.Grammar
open LibStomp.Stream.ReadLine
open LibStomp.Stream.ReadFrame
open LibStomp.Stream.ReadBody
open LibStomp.Stream.WholeFrames
open LibStomp.Stream.SendCalls
open LibStomp.Stream.WriteFrame
open LibStomp.Stream.CleanFrames

/-! ## Frames that can be written -/

/-- A frame of the application: strings clear of the separators, no length of its
own, and a body of 1 to `2 ^ 31 - 1` octets. -/
structure PlainFrame where
  command : CString
  headers : Hash
  body : Bytes
  command_line : lf ∉ command.bytes
  names : ∀ h ∈ headers.entries, colon ∉ h.1.bytes ∧ lf ∉ h.1.bytes
  values : ∀ h ∈ headers.entries, lf ∉ h.2.bytes
  no_length : .lit "content-length" ∉ headers
  body_size : 1 ≤ body.length ∧ body.length ≤ 2 ^ 31 - 1

namespace PlainFrame

/-- The frame as it is passed to `stomp_write`. -/
def frame (p : PlainFrame) : Frame :=
  ⟨p.command, some p.headers, some p.body, UInt64.ofNat p.body.length⟩

/-- The length of no header line of the table is a multiple of `2 ^ 32`. -/
def LengthsFit (p : PlainFrame) : Prop :=
  ∀ h ∈ p.headers.entries, (h.1.strlen + 1 + h.2.strlen) % 2 ^ 32 ≠ 0

theorem clean (p : PlainFrame) : CleanFrame p.frame p.headers where
  headers_eq := rfl
  command_line := p.command_line
  headers_clean h hh := ⟨(p.names h hh).1, (p.names h hh).2, p.values h hh⟩

theorem body_lt (p : PlainFrame) : p.body.length < 2 ^ 31 := by
  have hsize := p.body_size.2
  omega

theorem frame_body (p : PlainFrame) : p.frame.body = some p.body :=
  rfl

theorem counted (p : PlainFrame) : CountedFrame p.frame p.headers :=
  .of_body p.clean p.frame_body rfl p.body_size.1 p.body_lt le_rfl

theorem announcedLength_frame (p : PlainFrame) :
    announcedLength p.frame = p.body.length :=
  announcedLength_of_body p.frame_body rfl p.body_size.1 p.body_lt

theorem sentBody_frame (p : PlainFrame) : sentBody p.frame = p.body := by
  rw [sentBody_of_body p.frame_body rfl p.body_size.1 p.body_lt, List.take_length]

/-- The table a reader makes of the header lines is the original one with the
length added. -/
theorem lookup_table (O : HashOrder) (p : PlainFrame) (k : CString) :
    (table (headerLines O p.frame)).lookup k =
      (p.headers.insert (.lit "content-length") (aprItoa p.body.length)).lookup
      k := by
  rw [p.clean.lookup_table O, announcedLength_frame]

/-- The lengths fit exactly when the reader takes no line for the empty one. -/
theorem lengthsFit_iff (O : HashOrder) (p : PlainFrame) :
    p.LengthsFit ↔ Unwrapped (p.counted.wire O) :=
  (p.counted.unwrapped_wire_iff O).symm

end PlainFrame

/-! ## One frame -/

/-- The frame read is the frame written, with its length in the header table. -/
def SameFrame (p : PlainFrame) (frame : Frame) : Prop :=
  frame.command = p.command ∧
    (∃ headers, frame.headers = some headers ∧ ∀ k,
      headers.lookup k =
        (p.headers.insert (.lit "content-length")
          (aprItoa p.body.length)).lookup k) ∧
    frame.body = some p.body ∧ frame.bodyLength = UInt64.ofNat p.body.length

section OneFrame

variable (A : Apr) {O : HashOrder} {p : PlainFrame} {rd : Io} {t : Bytes}
variable (hrecvs : rd.socket.recvs = [])
    (hin : rd.socket.inbox = encode O p.frame ++ t)
include hrecvs hin

private theorem stompRead_plain (hfit : p.LengthsFit) :
    ∃ frame rd', stompRead A rd = .ok frame rd' ∧ SameFrame p frame ∧
      rd'.socket.inbox = t ∧ rd'.socket.recvs = [] := by
  obtain ⟨rd', hin', hrecvs', hread⟩ := p.counted.read_back A O hfit hrecvs hin
  rw [p.sentBody_frame] at hread
  exact ⟨_, rd', hread, ⟨rfl, ⟨_, rfl, p.lookup_table O⟩, rfl, rfl⟩, hin',
    hrecvs'⟩

/-- A line taken for the empty one hides the length that is written after it. -/
private theorem not_sameFrame_of_early (hfit : ¬ p.LengthsFit) {frame : Frame}
    {rd' : Io}
    (hread : stompRead A rd = .ok frame rd') : ¬ SameFrame p frame := by
  have hd : Delivering rd := by simp [Delivering, hrecvs]
  rw [p.counted.encode_eq] at hin
  cases hhead : scanHead rd.socket.inbox with
  | failed rest => exact absurd (hin ▸ hhead) scanHead_wire_ne_failed
  | head command ls last rest =>
      obtain ⟨n, -, -, heq⟩ := stompRead_of_head A hd hhead
      have hheaders : frame.headers = some (table ls) :=
        readBody_headers A (heq.symm.trans hread)
      rintro ⟨-, ⟨headers, htable, hlookup⟩, -⟩
      obtain rfl := Option.some.inj (hheaders.symm.trans htable)
      have hlength := hlookup (.lit "content-length")
      rw [AList.lookup_insert, lookup_table_of_notMem] at hlength
      · cases hlength
      rcases (scanHead_wire_cases (hin ▸ hhead)).2 with
        ⟨-, rfl, -⟩ | ⟨more, hmore, -⟩
      · exact absurd ((p.lengthsFit_iff O).mpr (wraps_of_scanHead hhead)) hfit
      · -- the length comes last, and names are distinct
        have hlines : headerLines O p.frame = ls ++ last :: more := hmore
        have hkeys := congrArg List.getLast? (p.clean.map_nameOf O)
        rw [hlines, List.getLast?_concat, List.map_append, List.map_cons,
          List.getLast?_append_cons] at hkeys
        have hnodup := (p.clean.names_nodup_iff O).mpr p.no_length
        rw [hlines, List.map_append, List.map_cons, List.nodup_append] at hnodup
        exact fun hm => hnodup.2.2 _ hm _ (List.mem_of_getLast? hkeys) rfl

end OneFrame

/-! ## Sequences of frames -/

/-- A frame and the order in which its table is iterated when it is written. -/
abbrev Item := HashOrder × PlainFrame

/-- Write the frames in turn. -/
def writeFrames (A : Apr) : List Item → IoM Unit
  | [] => pure ()
  | (O, p) :: items => do
      stompWrite A O p.frame
      writeFrames A items

/-- Read `n` frames in turn. -/
def readFrames (A : Apr) : Nat → IoM (List Frame)
  | 0 => pure []
  | n + 1 => do
      let frame ← stompRead A
      let frames ← readFrames A n
      pure (frame :: frames)

def encodeAll (items : List Item) : Bytes :=
  items.flatMap fun i => encode i.1 i.2.frame

theorem encodeAll_cons (i : Item) (items : List Item) (t : Bytes) :
    encodeAll (i :: items) ++ t =
      encode i.1 i.2.frame ++ (encodeAll items ++ t) := by
  simp [encodeAll]

theorem writeFrames_writes (A : Apr) (items : List Item) :
    Writes (writeFrames A items) (encodeAll items) := by
  apply writes_of_sends
  induction items with
  | nil => exact sends_pure
  | cons i items ih => exact (stompWrite_sends A i.1 i.2.frame).bind ih

/-- Reading one frame for each item returns the frames of the items and leaves
exactly `t`. -/
def ReadsBack (A : Apr) (items : List Item) (t : Bytes) (rd : Io) : Prop :=
  ∃ frames rd', readFrames A items.length rd = .ok frames rd' ∧
    List.Forall₂ (fun i frame => SameFrame i.2 frame) items frames ∧
      rd'.socket.inbox = t

theorem readsBack_iff (A : Apr) {items : List Item} {t : Bytes} :
    ∀ {rd : Io}, rd.socket.recvs = [] → rd.socket.inbox = encodeAll items ++ t →
      (ReadsBack A items t rd ↔ ∀ i ∈ items, i.2.LengthsFit) := by
  induction items with
  | nil =>
      intro rd _ hin
      simp only [List.not_mem_nil, false_implies, implies_true, iff_true]
      exact ⟨[], rd, rfl, .nil, hin⟩
  | cons i items ih =>
      intro rd hrecvs hin
      rw [encodeAll_cons] at hin
      by_cases hfit : i.2.LengthsFit
      · obtain ⟨frame, rd', hread, hsame, hin', hrecvs'⟩ :=
          stompRead_plain A hrecvs hin hfit
        have hstep : ReadsBack A (i :: items) t rd ↔ ReadsBack A items t rd' := by
          constructor
          · rintro ⟨frames, rd'', hframes, hall, ht⟩
            obtain ⟨frame', rd₁, hread', hrest⟩ := bind_eq_ok hframes
            rw [hread] at hread'
            obtain ⟨rfl, rfl⟩ := EStateM.Result.ok.inj hread'
            obtain ⟨frames', rd₂, hrest', hpure⟩ := bind_eq_ok hrest
            obtain ⟨rfl, rfl⟩ := EStateM.Result.ok.inj hpure
            exact ⟨frames', rd₂, hrest', (List.forall₂_cons.mp hall).2, ht⟩
          · rintro ⟨frames, rd'', hframes, hall, ht⟩
            exact ⟨frame :: frames, rd'',
              (bind_of_ok hread).trans ((bind_of_ok hframes).trans rfl),
              .cons hsame hall, ht⟩
        rw [hstep, ih hrecvs' hin', List.forall_mem_cons]
        exact ⟨fun h => ⟨hfit, h⟩, fun h => h.2⟩
      · constructor
        · rintro ⟨frames, rd'', hframes, hall, -⟩
          obtain ⟨frame, rd₁, hread, hrest⟩ := bind_eq_ok hframes
          obtain ⟨frames', rd₂, -, hpure⟩ := bind_eq_ok hrest
          obtain ⟨rfl, rfl⟩ := EStateM.Result.ok.inj hpure
          exact absurd (List.forall₂_cons.mp hall).1
            (not_sameFrame_of_early A hrecvs hin hfit hread)
        · intro h
          exact absurd (h i (by simp)) hfit

/-- **The round trip**: whatever the connection, if no send fails, the frames are
written, and from any stream that starts with the bytes written they are read
back, with exactly the rest of the stream unread. -/
def RoundTrips (A : Apr) (items : List Item) (t : Bytes) : Prop :=
  ∀ wr, Sending wr → ∃ out wr', writeFrames A items wr = .ok () wr' ∧
    wr'.socket.outbox = wr.socket.outbox ++ out ∧
      ∀ rd : Io, rd.socket.recvs = [] → rd.socket.inbox = out ++ t →
        ReadsBack A items t rd

private theorem lengthsFit_of_roundTrips {A : Apr} {items : List Item} {t : Bytes}
    (h : RoundTrips A items t) : ∀ i ∈ items, i.2.LengthsFit := by
  obtain ⟨out, wr', hwrite, hout, hback⟩ :=
    h (Io.fresh []) (by simp [Sending, Io.fresh])
  rw [((writeFrames_writes A items).accepted hwrite).outbox] at hout
  obtain rfl : encodeAll items = out := by simpa [Io.fresh] using hout
  exact (readsBack_iff A rfl rfl).mp
    (hback (Io.fresh (encodeAll items ++ t)) rfl rfl)

/-- **A sequence of frames is read back as it was written exactly when the length
of no header line narrows to zero.** -/
theorem roundTrips_iff (A : Apr) (items : List Item) (t : Bytes) :
    RoundTrips A items t ↔ ∀ i ∈ items, i.2.LengthsFit := by
  constructor
  · exact lengthsFit_of_roundTrips
  · intro hfit wr hs
    obtain ⟨wr', hok, hacc⟩ := (writeFrames_writes A items).completes hs
    exact ⟨encodeAll items, wr', hok, hacc.outbox, fun rd hrecvs hin =>
      (readsBack_iff A hrecvs hin).mpr hfit⟩

/-! ## A line of `2 ^ 32` bytes -/

/-- A frame with one header, named `a`, whose value has `k` bytes. -/
def valueFrame (k : Nat) : PlainFrame where
  command := .lit "SEND"
  headers := AList.singleton (.lit "a") ⟨List.replicate k 97, by
    simp only [List.mem_replicate, not_and]
    exact fun _ => by decide⟩
  body := [97]
  command_line := by decide
  names := by
    intro h hh
    obtain rfl := List.mem_singleton.mp hh
    show colon ∉ (CString.lit "a").bytes ∧ lf ∉ (CString.lit "a").bytes
    decide
  values := by
    intro h hh
    obtain rfl := List.mem_singleton.mp hh
    simp only [List.mem_replicate, not_and]
    exact fun _ => by decide
  no_length := by
    intro h
    have hkey : CString.lit "content-length" = .lit "a" :=
      List.mem_singleton.mp (AList.mem_keys.mp h)
    exact absurd hkey (by decide)
  body_size := by decide

/-- With a value of `2 ^ 32 - 2` bytes the frame is not read back. -/
theorem roundTrips_fails :
    ¬ ∀ (A : Apr) (items : List Item) (t : Bytes), RoundTrips A items t := by
  intro h
  obtain ⟨k, hk⟩ := exists_not_lengthFits
  have hfit := lengthsFit_of_roundTrips (h .sample [(.stored, valueFrame k)] [])
    (.stored, valueFrame k) (by simp)
  exact hk (.lit "a") _ rfl rfl (hfit _ (List.mem_singleton.mpr rfl))

end LibStomp.Stream.RoundTrip
