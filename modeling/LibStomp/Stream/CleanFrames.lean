import LibStomp.Stream.WholeFrames
import LibStomp.Stream.WriteFrame

/-!
# Frames whose strings keep clear of the separators

`stomp_write` copies names and values raw between the separators.  When no name
holds a colon or a newline and no value a newline, what it writes is a frame of
the grammar with one header line per table entry and one for the length:
`CountedFrame.wire`.  The frame is then read as it was written, unless a header
line is so long that the reader takes it for the end of the header block.
-/

namespace LibStomp.Stream.CleanFrames

open LibStomp.Model
open LibStomp.Verified.Lines
open LibStomp.Stream.Grammar
open LibStomp.Stream.ReadLine
open LibStomp.Stream.WholeFrames
open LibStomp.Stream.WriteFrame

/-! ## Clean tables -/

/-- The strings of a header keep clear of the separators. -/
def CleanHeader (h : Header) : Prop :=
  colon ∉ h.1.bytes ∧ lf ∉ h.1.bytes ∧ lf ∉ h.2.bytes

instance (h : Header) : Decidable (CleanHeader h) :=
  inferInstanceAs (Decidable
    (colon ∉ h.1.bytes ∧ lf ∉ h.1.bytes ∧ lf ∉ h.2.bytes))

def CleanTable (t : Hash) : Prop := ∀ h ∈ t.entries, CleanHeader h

theorem cleanTable_iff {t : Hash} :
    CleanTable t ↔ ∀ k v, t.lookup k = some v → CleanHeader ⟨k, v⟩ := by
  constructor
  · intro h k v hlookup
    exact h _ (AList.mem_lookup_iff.mp hlookup)
  · intro h p hp
    exact h p.1 p.2 (AList.mem_lookup_iff.mpr hp)

theorem cleanTable_empty : CleanTable ∅ := by
  intro h hh
  cases hh

theorem CleanTable.set {t : Hash} (ht : CleanTable t) {key : CString}
    {value : Option CString}
    (h : ∀ v, value = some v → CleanHeader ⟨key, v⟩) :
    CleanTable (aprHashSet t key value) := by
  rw [cleanTable_iff] at ht ⊢
  intro k v hlookup
  cases value with
  | none =>
      by_cases hk : k = key
      · subst hk
        rw [aprHashSet, AList.lookup_erase] at hlookup
        cases hlookup
      · rw [aprHashSet, AList.lookup_erase_ne hk] at hlookup
        exact ht k v hlookup
  | some value =>
      by_cases hk : k = key
      · subst hk
        rw [aprHashSet, AList.lookup_insert] at hlookup
        obtain rfl := Option.some.inj hlookup
        exact h value rfl
      · rw [aprHashSet, AList.lookup_insert_ne hk] at hlookup
        exact ht k v hlookup

theorem CleanTable.overlay {t u : Hash} (ht : CleanTable t) (hu : CleanTable u) :
    CleanTable (aprHashOverlay t u) := by
  rw [cleanTable_iff] at ht hu ⊢
  intro k v hlookup
  rcases AList.mem_lookup_union.mp hlookup with h | ⟨-, h⟩
  · exact ht k v h
  · exact hu k v h

/-! ## Header lines of a clean table -/

private theorem takeWhile_name {k v : Bytes} (h : colon ∉ k) :
    (k ++ colon :: v).takeWhile (· != colon) = k := by
  rw [List.takeWhile_append_of_pos]
  · simp
  · intro b hb
    simpa using ne_of_mem_of_not_mem hb h

private theorem dropWhile_name {k v : Bytes} (h : colon ∉ k) :
    (k ++ colon :: v).dropWhile (· != colon) = colon :: v := by
  rw [List.dropWhile_append_of_pos]
  · simp
  · intro b hb
    simpa using ne_of_mem_of_not_mem hb h

/-- A name without a colon is the name of its line. -/
theorem nameOf_headerLine {h : Header} (hname : colon ∉ h.1.bytes) :
    nameOf (headerLine h) = h.1 := by
  ext1
  rw [nameOf, headerLine, takeWhile_name hname, ofBuffer_of_nulFree h.1.nulFree]

theorem valueOf_headerLine {h : Header} (hname : colon ∉ h.1.bytes) :
    valueOf (headerLine h) = h.2 := by
  ext1
  rw [valueOf, headerLine, dropWhile_name hname, List.tail_cons,
    ofBuffer_of_nulFree h.2.nulFree]

/-- A clean entry is written as one header line. -/
theorem isHeaderLine_headerLine {h : Header} (hclean : CleanHeader h) :
    IsHeaderLine (headerLine h) := by
  have hcolon : lf ≠ colon ∧ nul ≠ colon := by decide
  refine ⟨⟨?_, ?_⟩, ?_, ?_⟩
  · simp [headerLine, hclean.2.1, hclean.2.2, hcolon.1]
  · simp [headerLine, h.1.nulFree, h.2.nulFree, hcolon.2]
  · simp [isBlank, headerLine]
  · simp [hasColon, headerLine]

/-- The entry whose line `stomp_write` adds. -/
def lengthHeader (frame : Frame) : Header :=
  ⟨.lit "content-length", aprItoa (announcedLength frame)⟩

theorem headerLine_lengthHeader (frame : Frame) :
    headerLine (lengthHeader frame) = lengthLine frame := by
  have hname : (CString.lit "content-length").bytes ++ [colon] =
      ascii "content-length:" := by
    decide
  rw [headerLine, lengthLine, lengthHeader, ← hname, List.append_assoc]
  rfl

/-- The headers of a frame, a line each: the entries of its table in the order they
are written, then the length. -/
def writtenHeaders (O : HashOrder) (frame : Frame) : List Header :=
  match frame.headers with
  | some headers => O.iter headers ++ [lengthHeader frame]
  | none => []

theorem map_headerLine_written (O : HashOrder) (frame : Frame) :
    (writtenHeaders O frame).map headerLine = headerLines O frame := by
  unfold writtenHeaders headerLines
  cases frame.headers with
  | none => rfl
  | some headers =>
      simp only [List.map_append, List.map_singleton, headerLine_lengthHeader]

theorem map_fst_written (O : HashOrder) {frame : Frame} {headers : Hash}
    (h : frame.headers = some headers) :
    (writtenHeaders O frame).map Sigma.fst =
      (O.iter headers).map Sigma.fst ++ [.lit "content-length"] := by
  rw [writtenHeaders, h, List.map_append]
  rfl

/-- The names written are distinct unless the table has a length of its own. -/
theorem nodup_written_iff (O : HashOrder) {frame : Frame} {headers : Hash}
    (h : frame.headers = some headers) :
    ((writtenHeaders O frame).map Sigma.fst).Nodup ↔
      .lit "content-length" ∉ headers := by
  have hperm := (O.perm headers).map Sigma.fst
  rw [map_fst_written O h, List.nodup_append]
  constructor
  · rintro ⟨-, -, hdisjoint⟩ hmem
    exact hdisjoint _ (hperm.mem_iff.mpr (AList.mem_keys.mp hmem)) _ (by simp) rfl
  · intro hnot
    refine ⟨hperm.nodup_iff.mpr headers.nodupKeys, by simp, ?_⟩
    intro k hk k' hk'
    rw [List.mem_singleton] at hk'
    subst hk'
    rintro rfl
    exact hnot (AList.mem_keys.mpr (hperm.mem_iff.mp hk))

theorem cleanHeader_lengthHeader (frame : Frame) :
    CleanHeader (lengthHeader frame) := by
  refine ⟨?_, ?_, lf_notMem_aprItoa _⟩
  · show colon ∉ (CString.lit "content-length").bytes
    decide
  · show lf ∉ (CString.lit "content-length").bytes
    decide

/-- The length of the header's line is no multiple of `2 ^ 32`. -/
def LengthFits (h : Header) : Prop := (h.1.strlen + 1 + h.2.strlen) % 2 ^ 32 ≠ 0

instance (h : Header) : Decidable (LengthFits h) :=
  inferInstanceAs (Decidable ((h.1.strlen + 1 + h.2.strlen) % 2 ^ 32 ≠ 0))

/-- There are values with which the line of a one-letter name does not fit. -/
theorem exists_not_lengthFits :
    ∃ k, ∀ name value : CString, name.strlen = 1 →
      value.bytes = List.replicate k 97 → ¬ LengthFits ⟨name, value⟩ := by
  obtain ⟨k, hk⟩ : ∃ k, (k + 2) % 2 ^ 32 = 0 := ⟨2 ^ 32 - 2, by decide⟩
  refine ⟨k, fun name value hname hvalue hfits => hfits ?_⟩
  show (name.strlen + 1 + value.bytes.length) % 2 ^ 32 = 0
  rw [hname, hvalue, List.length_replicate, ← hk]
  congr 1
  omega

theorem lengthFits_iff (h : Header) :
    LengthFits h ↔ wraps (headerLine h) = false := by
  have hlen : (headerLine h).length = h.1.strlen + 1 + h.2.strlen := by
    simp only [headerLine, List.length_append, List.length_cons, CString.strlen]
    omega
  rw [LengthFits, wraps, beq_eq_false_iff_ne, hlen]

/-! ## Clean frames -/

/-- A frame with a table that is written as a frame of the grammar. -/
structure CleanFrame (frame : Frame) (headers : Hash) : Prop where
  headers_eq : frame.headers = some headers
  command_line : lf ∉ frame.command.bytes
  headers_clean : CleanTable headers

namespace CleanFrame

variable {frame : Frame} {headers : Hash} (c : CleanFrame frame headers)
    (O : HashOrder)
include c

theorem headerLines_eq :
    headerLines O frame =
      (O.iter headers).map headerLine ++ [lengthLine frame] := by
  rw [headerLines, c.headers_eq]

theorem written_clean {h : Header} (hh : h ∈ writtenHeaders O frame) :
    CleanHeader h := by
  rw [writtenHeaders, c.headers_eq, List.mem_append, List.mem_singleton] at hh
  rcases hh with hh | rfl
  · exact c.headers_clean h ((O.perm headers).mem_iff.mp hh)
  · exact cleanHeader_lengthHeader frame

theorem lines_header : ∀ l ∈ headerLines O frame, IsHeaderLine l := by
  intro l hl
  rw [← map_headerLine_written] at hl
  obtain ⟨h, hh, rfl⟩ := List.mem_map.mp hl
  exact isHeaderLine_headerLine (c.written_clean O hh)

/-- The names on the wire are those that were written. -/
theorem map_nameOf_written :
    (headerLines O frame).map nameOf =
      (writtenHeaders O frame).map Sigma.fst := by
  rw [← map_headerLine_written, List.map_map]
  exact List.map_congr_left fun h hh => nameOf_headerLine (c.written_clean O hh).1

/-- These are the keys of the table, and the name of the length. -/
theorem map_nameOf :
    (headerLines O frame).map nameOf =
      (O.iter headers).map Sigma.fst ++ [.lit "content-length"] := by
  rw [c.map_nameOf_written, map_fst_written O c.headers_eq]

/-- Names on the wire are distinct unless the table has a length of its own. -/
theorem names_nodup_iff :
    ((headerLines O frame).map nameOf).Nodup ↔
      .lit "content-length" ∉ headers := by
  rw [c.map_nameOf_written, nodup_written_iff O c.headers_eq]

/-- A reader finds no other names than these. -/
theorem mem_table {k : CString} (h : k ∈ table (headerLines O frame)) :
    k ∈ headers ∨ k = .lit "content-length" := by
  have hname : k ∈ (headerLines O frame).map nameOf := by
    by_contra hnot
    exact AList.lookup_eq_none.mp (lookup_table_of_notMem hnot) h
  rw [c.map_nameOf, List.mem_append, List.mem_singleton] at hname
  rcases hname with hname | rfl
  · exact .inl
      (AList.mem_keys.mpr (((O.perm headers).map Sigma.fst).mem_iff.mp hname))
  · exact .inr rfl

/-- The length that is written last is the one a reader finds. -/
theorem contentLength_headerLines :
    contentLength (headerLines O frame) =
      some (aprItoa (announcedLength frame)) := by
  have hclean := cleanHeader_lengthHeader frame
  rw [contentLength, c.headerLines_eq, table_concat, ← headerLine_lengthHeader,
    nameOf_headerLine hclean.1, valueOf_headerLine hclean.1]
  exact AList.lookup_insert _

/-- Every other name is read back with its value, whether or not the table has a
length of its own. -/
theorem lookup_table_ne {k : CString} (hk : k ≠ .lit "content-length") :
    (table (headerLines O frame)).lookup k = headers.lookup k := by
  have hlength := cleanHeader_lengthHeader frame
  have hentries : ∀ h ∈ O.iter headers, CleanHeader h := fun h hh =>
    c.headers_clean h ((O.perm headers).mem_iff.mp hh)
  have hnames : ((O.iter headers).map headerLine).map nameOf =
      (O.iter headers).map Sigma.fst := by
    rw [List.map_map]
    exact List.map_congr_left fun h hh => nameOf_headerLine (hentries h hh).1
  have hnodup : (((O.iter headers).map headerLine).map nameOf).Nodup := by
    rw [hnames]
    exact ((O.perm headers).map Sigma.fst).nodup_iff.mpr headers.nodupKeys
  have hlast : k ≠ nameOf (headerLine (lengthHeader frame)) := by
    rw [nameOf_headerLine hlength.1]
    exact hk
  rw [c.headerLines_eq, table_concat, ← headerLine_lengthHeader,
    AList.lookup_insert_ne hlast]
  ext v
  rw [table_describes hnodup k v, ← Option.mem_def, AList.mem_lookup_iff,
    ← (O.perm headers).mem_iff]
  constructor
  · rintro ⟨l, hl, rfl, rfl⟩
    obtain ⟨h, hh, rfl⟩ := List.mem_map.mp hl
    rwa [nameOf_headerLine (hentries h hh).1,
      valueOf_headerLine (hentries h hh).1]
  · intro hh
    exact ⟨_, List.mem_map_of_mem hh, nameOf_headerLine (hentries _ hh).1,
      valueOf_headerLine (hentries _ hh).1⟩

/-- The table is read back with the length of the body added or replaced. -/
theorem lookup_table (k : CString) :
    (table (headerLines O frame)).lookup k =
      (headers.insert (.lit "content-length")
        (aprItoa (announcedLength frame))).lookup k := by
  by_cases hk : k = .lit "content-length"
  · subst hk
    rw [AList.lookup_insert]
    exact c.contentLength_headerLines O
  · rw [AList.lookup_insert_ne hk, c.lookup_table_ne O hk]

/-- The reader takes no line of the frame for the empty one. -/
theorem unwrapped_iff :
    (∀ l ∈ headerLines O frame, wraps l = false) ↔
      ∀ h ∈ headers.entries, LengthFits h := by
  rw [c.headerLines_eq]
  constructor
  · intro h p hp
    rw [lengthFits_iff]
    refine h _ (List.mem_append_left _ (List.mem_map_of_mem ?_))
    exact (O.perm headers).mem_iff.mpr hp
  · intro h l hl
    rw [List.mem_append, List.mem_singleton] at hl
    rcases hl with hl | rfl
    · obtain ⟨p, hp, rfl⟩ := List.mem_map.mp hl
      exact (lengthFits_iff p).mp (h p ((O.perm headers).mem_iff.mp hp))
    · exact wraps_lengthLine frame

end CleanFrame

/-! ## Bodies of the length the frame says -/

section Body

variable {frame : Frame} {body : Bytes} {n : Nat}
variable (hbody : frame.body = some body)
    (hlength : frame.bodyLength = UInt64.ofNat n)
variable (hpos : 1 ≤ n) (hlt : n < 2 ^ 31)
include hbody hlength hpos hlt

omit hbody hpos in
private theorem cInt_bodyLength : cInt frame.bodyLength.toNat = n := by
  rw [hlength, UInt64.toNat_ofNat', Nat.mod_eq_of_lt (by omega)]
  exact cInt_eq_of_lt hlt

/-- A positive length below `2 ^ 31` is announced as it stands. -/
theorem announcedLength_of_body : announcedLength frame = n := by
  unfold announcedLength
  rw [cInt_bodyLength hlength hlt, hbody]
  show (if (n : Int) ≤ 0 then _ else _) = _
  rw [if_neg (by omega)]

theorem sentBody_of_body : sentBody frame = body.take n := by
  have hlen : sentLength frame body = n := by
    unfold sentLength
    rw [cInt_bodyLength hlength hlt, if_neg (by omega)]
  have hsize : (toSize (n : Int)).toNat = n := by
    rw [toSize, UInt64.toNat_ofNat']
    omega
  unfold sentBody
  rw [hbody]
  show body.take (toSize (sentLength frame body)).toNat = body.take n
  rw [hlen, hsize]

/-- `stomp_write` finds the octets of such a body. -/
theorem bodyHolds_of_body (hn : n ≤ body.length) : frame.bodyHolds = true := by
  have hlen : sentLength frame body = n := by
    unfold sentLength
    rw [cInt_bodyLength hlength hlt, if_neg (by omega)]
  have hsize : (toSize (n : Int)).toNat = n := by
    rw [toSize, UInt64.toNat_ofNat']
    omega
  unfold Frame.bodyHolds
  rw [hbody]
  simp only [cInt_bodyLength hlength hlt, hlen, hsize, Bool.and_eq_true, Bool.or_eq_true,
    decide_eq_true_eq]
  exact ⟨.inl (by omega), hn⟩

end Body

/-! ## The frame on the wire -/

/-- The announced length is that of the octets sent, and there is one at least. -/
structure CountedFrame (frame : Frame) (headers : Hash) : Prop extends
    CleanFrame frame headers where
  announced_sent : announcedLength frame = (sentBody frame).length
  sent_pos : 1 ≤ (sentBody frame).length

namespace CountedFrame

variable {frame : Frame} {headers : Hash}

/-- A clean frame whose body holds at least the octets it announces. -/
theorem of_body (c : CleanFrame frame headers) {body : Bytes} {n : Nat}
    (hbody : frame.body = some body) (hlength : frame.bodyLength = UInt64.ofNat n)
    (hpos : 1 ≤ n) (hlt : n < 2 ^ 31) (hn : n ≤ body.length) :
    CountedFrame frame headers := by
  have hsent : (sentBody frame).length = n := by
    rw [sentBody_of_body hbody hlength hpos hlt, List.length_take]
    omega
  refine ⟨c, ?_, by omega⟩
  rw [announcedLength_of_body hbody hlength hpos hlt, hsent]

variable (c : CountedFrame frame headers)
include c

theorem aprAtoi64_announced :
    aprAtoi64 (aprItoa (announcedLength frame)) = (sentBody frame).length := by
  have hle := natAbs_announcedLength_le frame
  rw [c.announced_sent] at hle ⊢
  rw [Int.natAbs_natCast] at hle
  refine aprAtoi64_decimal _ ?_ (by omega)
  rw [aprItoa, if_neg (by omega)]
  rfl

/-- The frame on the wire. -/
def wire (O : HashOrder) : WireFrame where
  command := frame.command.bytes
  lines := headerLines O frame
  payload := sentBody frame
  command_clean := ⟨c.command_line, frame.command.nulFree⟩
  lines_header := c.lines_header O
  payload_ok := by
    rw [PayloadOk, c.contentLength_headerLines]
    exact c.aprAtoi64_announced.symm

/-- What is written for such a frame is a frame of the grammar. -/
theorem encode_eq (O : HashOrder) : encode O frame = (c.wire O).bytes := rfl

theorem sized_wire (O : HashOrder) : Sized (c.wire O).lines := by
  intro v hv
  have hpos := c.sent_pos
  obtain rfl := Option.some.inj (hv.symm.trans (c.contentLength_headerLines O))
  rw [c.aprAtoi64_announced]
  omega

theorem unwrapped_wire_iff (O : HashOrder) :
    Unwrapped (c.wire O) ↔ ∀ h ∈ headers.entries, LengthFits h :=
  c.unwrapped_iff O

/-- The frame a reader makes of it. -/
theorem frame_wire (O : HashOrder) :
    (c.wire O).frame = frameOf frame.command (table (headerLines O frame))
      (sentBody frame)
      (sentBody frame).length := by
  have hcommand : CString.ofBuffer frame.command.bytes = frame.command :=
    CString.ext (ofBuffer_of_nulFree frame.command.nulFree)
  have hv : contentLength (c.wire O).lines =
      some (aprItoa (announcedLength frame)) :=
    c.contentLength_headerLines O
  unfold WireFrame.frame denote
  rw [hv]
  show frameOf (CString.ofBuffer frame.command.bytes) _ _ _ = _
  rw [hcommand]
  rfl

/-- **A reader to which the stream is delivered whole reads the frame off its front.** -/
theorem read_back (A : Apr) (O : HashOrder)
    (hfits : ∀ h ∈ headers.entries, LengthFits h)
    {rd : Io} {t : Bytes} (hrecvs : rd.socket.recvs = [])
    (hin : rd.socket.inbox = encode O frame ++ t) :
    ∃ rd', rd'.socket.inbox = t ∧ rd'.socket.recvs = [] ∧
      stompRead A rd =
        .ok (frameOf frame.command (table (headerLines O frame))
          (sentBody frame) (sentBody frame).length) rd' := by
  have hd : Delivering rd := by simp [Delivering, hrecvs]
  obtain ⟨turns, hsuffix, hread⟩ :=
    stompRead_wire A hd ((c.unwrapped_wire_iff O).mpr hfits)
      (c.sized_wire O)
      (fun v _ => by rw [hrecvs, List.drop_nil]; exact whole_nil _) hin
  rw [hrecvs] at hsuffix
  rw [c.frame_wire O] at hread
  exact ⟨_, remaining_inbox t turns rd, List.suffix_nil.mp hsuffix, hread⟩

end CountedFrame

end LibStomp.Stream.CleanFrames
