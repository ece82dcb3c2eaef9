import Mathlib.Data.List.Induction
import LibStomp.Model.Io
import LibStomp.Verified.Framing
import LibStomp.Verified.Lines

/-!
# The frame grammar

The purpose of `stomp_read` in its own terms: which byte sequences are frames
and what they denote.  A frame is a command line, header lines `name:value`, an
empty line, a payload and the two bytes NUL LF.  The payload is either NUL-free
or has exactly the length a `content-length` header announces.

Nothing here refers to sockets or to the way the code reads.  The one place
where the code's notion of a line differs from this one is the end of the header
block: the code tests a length narrowed to `int` (`wraps`), the grammar an empty
line (`isBlank`).  Both are instances of one block scan.
-/

namespace LibStomp.Stream.Grammar

open LibStomp.Model
open LibStomp.Verified.Framing
open LibStomp.Verified.Lines

/-! ## Header lines -/

/-- The text before the first colon of a header line. -/
def nameOf (l : Bytes) : CString := CString.ofBuffer (l.takeWhile (· != colon))

/-- The text after the first colon of a header line. -/
def valueOf (l : Bytes) : CString :=
  CString.ofBuffer (l.dropWhile (· != colon)).tail

def hasColon (l : Bytes) : Bool := decide (colon ∈ l)

/-- The grammar's end of the header block: a line without a byte. -/
def isBlank (l : Bytes) : Bool := l.isEmpty

/-- The code's end of the header block: a line whose length, narrowed to `int`,
is zero. -/
def wraps (l : Bytes) : Bool := l.length % 2 ^ 32 == 0

theorem wraps_of_isBlank {l : Bytes} (h : isBlank l = true) : wraps l = true := by
  rw [isBlank, List.isEmpty_iff] at h
  simp [wraps, h]

theorem wraps_iff {l : Bytes} : wraps l = true ↔ cInt l.length = 0 := by
  rw [cInt_eq_zero_iff, wraps, beq_iff_eq]

/-- Short lines wrap only when they are empty. -/
theorem wraps_of_short {l : Bytes} (hne : l ≠ []) (h : l.length < 2 ^ 32) :
    wraps l = false := by
  have hpos : 0 < l.length := List.length_pos_iff.mpr hne
  rw [wraps, beq_eq_false_iff_ne, Nat.mod_eq_of_lt h]
  omega

theorem ofBuffer_of_nulFree {l : Bytes} (h : nul ∉ l) :
    (CString.ofBuffer l).bytes = l := by
  show l.takeWhile (· != nul) = l
  rw [List.takeWhile_eq_self_iff]
  intro b hb
  simpa using ne_of_mem_of_not_mem hb h

/-- A buffer holds the text in front of its first NUL. -/
theorem ofBuffer_cons_nul (s t : Bytes) :
    CString.ofBuffer (s ++ nul :: t) = CString.ofBuffer s := by
  ext1
  show (s ++ nul :: t).takeWhile (· != nul) = s.takeWhile (· != nul)
  rw [List.takeWhile_append]
  split
  · rename_i hlen
    rw [(List.takeWhile_prefix (· != nul)).eq_of_length hlen,
      List.takeWhile_cons_of_neg (by decide), List.append_nil]
  · rfl

theorem ofBuffer_terminated (l : Bytes) :
    CString.ofBuffer (l ++ [nul]) = CString.ofBuffer l :=
  ofBuffer_cons_nul l []

/-- Splitting the string a header line is stored as yields its name and value. -/
theorem splitColon_line {l : Bytes} (h : nul ∉ l) :
    (CString.ofBuffer (l ++ [nul])).splitColon =
      if hasColon l then some (nameOf l, valueOf l) else none := by
  have hname : nul ∉ l.takeWhile (· != colon) :=
    fun hm => h ((List.takeWhile_sublist _).subset hm)
  have hvalue : nul ∉ (l.dropWhile (· != colon)).tail :=
    fun hm => h ((List.dropWhile_sublist _).subset (List.mem_of_mem_tail hm))
  have hbytes : (CString.ofBuffer (l ++ [nul])).bytes = l := by
    rw [ofBuffer_terminated, ofBuffer_of_nulFree h]
  by_cases hc : colon ∈ l
  · simp only [CString.splitColon, hbytes, hasColon, hc, decide_true, if_true,
      Option.some.injEq, Prod.mk.injEq]
    exact ⟨CString.ext (ofBuffer_of_nulFree hname).symm,
      CString.ext (ofBuffer_of_nulFree hvalue).symm⟩
  · simp [CString.splitColon, hbytes, hasColon, hc]

/-! ## The header table of a block -/

/-- Insert one header line. -/
def insertLine (h : Hash) (l : Bytes) : Hash := h.insert (nameOf l) (valueOf l)

/-- The table a header block denotes. -/
def table (ls : List Bytes) : Hash := ls.foldl insertLine ∅

theorem table_concat (ls : List Bytes) (l : Bytes) :
    table (ls ++ [l]) = (table ls).insert (nameOf l) (valueOf l) := by
  simp [table, insertLine]

private theorem lookup_foldl_of_notMem {k : CString} {ls : List Bytes} :
    ∀ h : Hash, k ∉ ls.map nameOf →
      (ls.foldl insertLine h).lookup k = h.lookup k := by
  induction ls with
  | nil => intro h _; rfl
  | cons l ls ih =>
      intro h hk
      rw [List.map_cons, List.mem_cons, not_or] at hk
      rw [List.foldl_cons, ih _ hk.2, insertLine, AList.lookup_insert_ne hk.1]

/-- A name that no line has is not in the table. -/
theorem lookup_table_of_notMem {k : CString} {ls : List Bytes}
    (h : k ∉ ls.map nameOf) :
    (table ls).lookup k = none := by
  rw [table, lookup_foldl_of_notMem _ h, AList.lookup_empty]

private theorem lookup_foldl_of_mem {ls : List Bytes}
    (hnodup : (ls.map nameOf).Nodup) {l : Bytes} (hl : l ∈ ls) :
    ∀ h : Hash, (ls.foldl insertLine h).lookup (nameOf l) = some (valueOf l) := by
  induction ls with
  | nil => simp at hl
  | cons l₀ ls ih =>
      intro h
      rw [List.map_cons, List.nodup_cons] at hnodup
      rw [List.foldl_cons]
      rcases List.mem_cons.mp hl with rfl | hl
      · rw [lookup_foldl_of_notMem _ hnodup.1, insertLine, AList.lookup_insert]
      · exact ih hnodup.2 hl _

/-- With distinct names, each line's name is mapped to its value. -/
theorem lookup_table_of_mem {ls : List Bytes} (hnodup : (ls.map nameOf).Nodup)
    {l : Bytes} (hl : l ∈ ls) : (table ls).lookup (nameOf l) = some (valueOf l) :=
  lookup_foldl_of_mem hnodup hl ∅

/-- Whatever the names, an entry of the table comes from a line. -/
theorem mem_lines_of_lookup {ls : List Bytes} {k v : CString}
    (h : (table ls).lookup k = some v) :
    ∃ l ∈ ls, nameOf l = k ∧ valueOf l = v := by
  induction ls using List.reverseRecOn with
  | nil => cases h
  | append_singleton ls l ih =>
      rw [table_concat] at h
      by_cases hk : k = nameOf l
      · subst hk
        rw [AList.lookup_insert] at h
        exact ⟨l, by simp, rfl, Option.some.inj h⟩
      · rw [AList.lookup_insert_ne hk] at h
        obtain ⟨m, hm, hline⟩ := ih h
        exact ⟨m, List.mem_append_left _ hm, hline⟩

/-- The header a line makes. -/
def headerOf (l : Bytes) : Header := ⟨nameOf l, valueOf l⟩

/-- The last line with a name gives its value. -/
theorem lookup_table (ls : List Bytes) (k : CString) :
    (table ls).lookup k = (ls.map headerOf).reverse.dlookup k := by
  induction ls using List.reverseRecOn with
  | nil => rfl
  | append_singleton ls l ih =>
      rw [table_concat, List.map_append, List.reverse_append]
      show ((table ls).insert (nameOf l) (valueOf l)).lookup k =
        (headerOf l :: (ls.map headerOf).reverse).dlookup k
      by_cases hk : k = nameOf l
      · subst hk
        rw [AList.lookup_insert]
        exact (List.dlookup_cons_eq (ls.map headerOf).reverse (nameOf l)
          (valueOf l)).symm
      · rw [AList.lookup_insert_ne hk, ih, List.dlookup_cons_ne _ (headerOf l) hk]

/-- The names in the table are those of the lines. -/
theorem lookup_table_eq_none {ls : List Bytes} {k : CString} :
    (table ls).lookup k = none ↔ k ∉ ls.map nameOf := by
  rw [lookup_table, List.dlookup_eq_none, List.keys, List.map_reverse,
    List.mem_reverse, List.map_map]
  rfl

/-- The table maps the name of each line to its value and contains nothing else. -/
def Describes (headers : Hash) (ls : List Bytes) : Prop :=
  ∀ k v, headers.lookup k = some v ↔ ∃ l ∈ ls, nameOf l = k ∧ valueOf l = v

theorem table_describes {ls : List Bytes} (hnodup : (ls.map nameOf).Nodup) :
    Describes (table ls) ls := by
  intro k v
  constructor
  · intro h
    by_cases hk : k ∈ ls.map nameOf
    · obtain ⟨l, hl, rfl⟩ := List.mem_map.mp hk
      rw [lookup_table_of_mem hnodup hl] at h
      exact ⟨l, hl, rfl, Option.some.inj h⟩
    · rw [lookup_table_of_notMem hk] at h
      cases h
  · rintro ⟨l, hl, rfl, rfl⟩
    exact lookup_table_of_mem hnodup hl

/-! ## Frames -/

/-- The `content-length` value a header block announces, if any. -/
def contentLength (ls : List Bytes) : Option CString :=
  (table ls).lookup (.lit "content-length")

/-- A payload in the framing the header block selects. -/
def PayloadOk (ls : List Bytes) (payload : Bytes) : Prop :=
  match contentLength ls with
  | some v => (payload.length : Int) = aprAtoi64 v
  | none => nul ∉ payload

instance (ls : List Bytes) (payload : Bytes) : Decidable (PayloadOk ls payload) :=
  match hv : contentLength ls with
  | some v => decidable_of_iff ((payload.length : Int) = aprAtoi64 v)
      (by rw [PayloadOk, hv])
  | none => decidable_of_iff (nul ∉ payload) (by rw [PayloadOk, hv])

/-- The length of a counted payload is the one announced. -/
theorem PayloadOk.length_eq {ls : List Bytes} {payload : Bytes} {v : CString}
    (h : PayloadOk ls payload) (hv : contentLength ls = some v) :
    (payload.length : Int) = aprAtoi64 v := by
  rwa [PayloadOk, hv] at h

/-- An uncounted payload has no NUL. -/
theorem PayloadOk.nul_notMem {ls : List Bytes} {payload : Bytes}
    (h : PayloadOk ls payload) (hv : contentLength ls = none) : nul ∉ payload := by
  rwa [PayloadOk, hv] at h

/-- The bytes of a frame. -/
def frameBytes (command : Bytes) (ls : List Bytes) (payload : Bytes) : Bytes :=
  command ++ lf :: (joinLines lf ls ++ lf :: (payload ++ [nul, lf]))

theorem frameBytes_append (command : Bytes) (ls : List Bytes) (payload t : Bytes) :
    frameBytes command ls payload ++ t =
      command ++ lf :: (joinLines lf ls ++ lf :: (payload ++ nul :: lf :: t)) := by
  simp [frameBytes]

/-- A line of a header block. -/
abbrev IsHeaderLine (l : Bytes) : Prop := IsEntry lf nul isBlank hasColon l

/-- A well-formed frame, as a broker sends it. -/
@[ext] structure WireFrame where
  command : Bytes
  lines : List Bytes
  payload : Bytes
  command_clean : Clean lf nul command
  lines_header : ∀ l ∈ lines, IsHeaderLine l
  payload_ok : PayloadOk lines payload

def WireFrame.bytes (w : WireFrame) : Bytes :=
  frameBytes w.command w.lines w.payload

/-- `MESSAGE` is a line. -/
theorem clean_message : Clean lf nul (ascii "MESSAGE") := by decide

theorem clean_receipt : Clean lf nul (ascii "RECEIPT") := by decide

/-- The header lines of a frame, from its bytes. -/
def wireLines (bs : Bytes) : Option (List Bytes) :=
  match scanLine lf nul bs with
  | .line _ rest =>
      match scanBlock lf nul isBlank hasColon rest with
      | .done ls _ _ => some ls
      | _ => none
  | _ => none

theorem wireLines_frameBytes {command : Bytes} {ls : List Bytes} (payload : Bytes)
    (hcommand : Clean lf nul command) (hls : ∀ l ∈ ls, IsHeaderLine l) :
    wireLines (frameBytes command ls payload) = some ls := by
  have hscan :
      scanBlock lf nul isBlank hasColon (joinLines lf ls ++ lf ::
        (payload ++ [nul, lf])) =
      .done ls [] (payload ++ [nul, lf]) :=
    scanBlock_done_iff.mpr ⟨by simp, hls, clean_nil lf nul, rfl⟩
  simp only [wireLines, frameBytes, scanLine_append hcommand, hscan]

/-- A `content-length`, where there is one, announces at least one octet. -/
def Sized (ls : List Bytes) : Prop :=
  ∀ v, contentLength ls = some v → 1 ≤ aprAtoi64 v

instance (ls : List Bytes) : Decidable (Sized ls) :=
  match hv : contentLength ls with
  | some v => decidable_of_iff (1 ≤ aprAtoi64 v) (by simp [Sized, hv])
  | none => .isTrue (by simp [Sized, hv])

/-- A frame as `stomp_read` returns it. -/
def frameOf (command : CString) (headers : Hash) (body : Bytes) (length : Nat) :
    Frame :=
  ⟨command, some headers, some body, UInt64.ofNat length⟩

/-- What the parts of a frame denote.  The NUL that ends an uncounted payload is
part of its body. -/
def denote (command : Bytes) (ls : List Bytes) (payload : Bytes) : Frame :=
  match contentLength ls with
  | some _ => frameOf (CString.ofBuffer command) (table ls) payload payload.length
  | none => frameOf (CString.ofBuffer command) (table ls) (payload ++ [nul])
      (payload.length + 1)

@[simp] theorem denote_command (command : Bytes) (ls : List Bytes)
    (payload : Bytes) :
    (denote command ls payload).command = CString.ofBuffer command := by
  unfold denote
  split <;> rfl

@[simp] theorem denote_headers (command : Bytes) (ls : List Bytes)
    (payload : Bytes) : (denote command ls payload).headers = some (table ls) := by
  unfold denote
  split <;> rfl

def WireFrame.frame (w : WireFrame) : Frame := denote w.command w.lines w.payload

theorem WireFrame.bytes_append (w : WireFrame) (t : Bytes) :
    w.bytes ++ t = w.command ++ lf :: (joinLines lf w.lines ++ lf ::
      (w.payload ++ nul :: lf :: t)) :=
  frameBytes_append _ _ _ _

/-! ## Unique decoding -/

/-- In either framing the payload is determined by the text that starts with it. -/
theorem payload_unique {ls : List Bytes} {p q s t : Bytes}
    (hp : PayloadOk ls p)
    (hq : PayloadOk ls q) (h : p ++ nul :: s = q ++ nul :: t) :
    p = q ∧ s = t := by
  have hlen : p.length = q.length := by
    cases hv : contentLength ls with
    | some v =>
        have hlp := hp.length_eq hv
        have hlq := hq.length_eq hv
        omega
    | none =>
        -- both are what comes before the first NUL
        exact congrArg List.length
          (append_cons_inj (hp.nul_notMem hv) (hq.nul_notMem hv) h).1
  obtain ⟨rfl, hrest⟩ := List.append_inj h hlen
  exact ⟨rfl, (List.cons.inj hrest).2⟩

/-- **No frame is the beginning of another one.** -/
theorem bytes_prefixFree : PrefixFree WireFrame.bytes where
  nonempty w h := by
    have := congrArg List.length h
    simp [WireFrame.bytes, frameBytes] at this
  unique {a b s t} h := by
    rw [a.bytes_append, b.bytes_append] at h
    have hline := congrArg (scanLine lf nul) h
    rw [scanLine_append a.command_clean, scanLine_append b.command_clean] at hline
    obtain ⟨hcommand, hblock⟩ := LineScan.line.inj hline
    have hscan : ∀ (w : WireFrame) (u : Bytes), scanBlock lf nul isBlank hasColon
        (joinLines lf w.lines ++ lf :: u) = .done w.lines [] u := fun w u =>
      scanBlock_done_iff.mpr ⟨by simp, w.lines_header, clean_nil lf nul, rfl⟩
    have hheads := congrArg (scanBlock lf nul isBlank hasColon) hblock
    rw [hscan, hscan] at hheads
    obtain ⟨hlines, -, hbody⟩ := BlockScan.done.inj hheads
    have hb := b.payload_ok
    rw [← hlines] at hb
    obtain ⟨hpayload, hrest⟩ := payload_unique a.payload_ok hb hbody
    exact ⟨WireFrame.ext hcommand hlines hpayload, (List.cons.inj hrest).2⟩

end LibStomp.Stream.Grammar
