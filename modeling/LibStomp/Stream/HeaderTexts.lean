import LibStomp.Stream.CleanFrames

/-!
# Header texts cut at their newlines

`stomp_write` writes an entry of the table as its name, a colon, its value and a
newline, whatever bytes the strings have.  A reader cuts the text between the
command and the body at the newlines, so an entry with a newline of its own is
several lines to it, and an empty one among them is the end of the header block.

## Main results

* `readsBlock_iff` — a reader finds the body where it was written exactly when
  none of the lines is empty or without a colon; the lines are then those the
  texts are cut into.
* `readsOnce_iff` — it finds one header of a name exactly when no other line is
  of that name.
* `headersOnce_iff` — it finds no name twice exactly when the lines have distinct
  names and the table has no length of its own.
-/

namespace LibStomp.Stream.HeaderTexts

open LibStomp.Model
open LibStomp.Verified.Lines
open LibStomp.Stream.Grammar
open LibStomp.Stream.WriteFrame
open LibStomp.Stream.CleanFrames

/-! ## The lines of an entry -/

/-- The lines a reader takes the entry for. -/
def textLines (h : Header) : List Bytes := (headerLine h).splitOn lf

/-- The lines a reader takes the entries for. -/
def linesOf (hs : List Header) : List Bytes := hs.flatMap textLines

theorem mem_linesOf {hs : List Header} {l : Bytes} :
    l ∈ linesOf hs ↔ ∃ h ∈ hs, l ∈ textLines h := List.mem_flatMap

theorem linesOf_perm {hs hs' : List Header} (h : hs.Perm hs') :
    (linesOf hs).Perm (linesOf hs') := h.flatMap_right textLines

/-- The text in front of the first newline. -/
def firstLine (v : CString) : CString :=
  ⟨v.bytes.takeWhile (· != lf), fun h => v.nulFree ((List.takeWhile_sublist _).subset h)⟩

theorem firstLine_eq_self {v : CString} : firstLine v = v ↔ lf ∉ v.bytes := by
  rw [CString.ext_iff]
  show v.bytes.takeWhile (· != lf) = v.bytes ↔ _
  rw [List.takeWhile_eq_self_iff]
  simp only [bne_iff_ne, ne_eq]
  exact ⟨fun h hm => h lf hm rfl, fun h b hb hlf => h (hlf ▸ hb)⟩

/-- The strings of a name keep clear of the separators. -/
def CleanName (k : CString) : Prop := colon ∉ k.bytes ∧ lf ∉ k.bytes

instance (k : CString) : Decidable (CleanName k) :=
  inferInstanceAs (Decidable (colon ∉ k.bytes ∧ lf ∉ k.bytes))

/-- A clean name is that of the first line of its entry. -/
theorem textLines_eq_cons {k : CString} (hk : CleanName k) (v : CString) :
    textLines ⟨k, v⟩ =
      headerLine ⟨k, firstLine v⟩ :: (textLines ⟨k, v⟩).tail := by
  have hfirst : (headerLine ⟨k, v⟩).takeWhile (· != lf) =
      headerLine ⟨k, firstLine v⟩ := by
    unfold headerLine
    rw [List.takeWhile_append_of_pos, List.takeWhile_cons_of_pos (by decide)]
    · rfl
    · intro b hb
      simpa using ne_of_mem_of_not_mem hb hk.2
  rw [← hfirst]
  exact splitOn_eq_cons lf _

/-- A clean entry is one line. -/
theorem textLines_clean {h : Header} (hclean : CleanHeader h) :
    textLines h = [headerLine h] :=
  List.splitOn_eq_singleton (isHeaderLine_headerLine hclean).1.1

theorem linesOf_clean {hs : List Header} (hclean : ∀ h ∈ hs, CleanHeader h) :
    linesOf hs = hs.map headerLine := by
  rw [linesOf, List.map_eq_flatMap]
  exact List.flatMap_congr fun h hh => textLines_clean (hclean h hh)

/-- A line that is not empty and has a colon is a header line. -/
theorem isHeaderLine_of_mem_textLines {h : Header} {l : Bytes}
    (hl : l ∈ textLines h) : IsHeaderLine l ↔ isBlank l = false ∧ hasColon l = true := by
  have hnul : nul ∉ headerLine h := by
    simp [headerLine, h.1.nulFree, h.2.nulFree, (by decide : nul ≠ colon)]
  have hclean : Clean lf nul l :=
    ⟨notMem_of_mem_splitOn hl, fun hm => hnul (mem_of_mem_splitOn hl hm)⟩
  exact and_iff_right hclean

/-! ## The block of a frame -/

/-- A reader of the grammar finds the header lines `ls` in front of the body that is
sent. -/
structure ReadsBlock (O : HashOrder) (frame : Frame) (ls : List Bytes) : Prop where
  lines : wireLines (encode O frame) = some ls
  body : encode O frame = frameBytes frame.command.bytes ls (sentBody frame)

/-- The header lines of the frame, as a reader cuts them. -/
def blockLines (O : HashOrder) (frame : Frame) : List Bytes :=
  (headerLines O frame).flatMap (·.splitOn lf)

/-- A reader finds nothing but header lines. -/
theorem isHeaderLine_of_wireLines {bs : Bytes} {ls : List Bytes}
    (h : wireLines bs = some ls) : ∀ l ∈ ls, IsHeaderLine l := by
  unfold wireLines at h
  split at h
  · split at h
    · rename_i hscan
      obtain rfl := Option.some.inj h
      exact (scanBlock_done_iff.mp hscan).2.1
    · cases h
  · cases h

/-- **A reader finds the body where it was written exactly when the texts are cut
into header lines.** -/
theorem readsBlock_iff (O : HashOrder) {frame : Frame}
    (hcommand : lf ∉ frame.command.bytes) {ls : List Bytes} :
    ReadsBlock O frame ls ↔
      ls = blockLines O frame ∧ ∀ l ∈ ls, IsHeaderLine l := by
  have hcut : joinLines lf (blockLines O frame) = joinLines lf (headerLines O frame) :=
    joinLines_flatMap_splitOn lf _
  constructor
  · rintro ⟨hlines, hbody⟩
    have hheader := isHeaderLine_of_wireLines hlines
    refine ⟨?_, hheader⟩
    unfold encode frameBytes at hbody
    have htext := List.append_cancel_right
      (List.cons.inj (List.append_cancel_left hbody)).2
    refine joinLines_inj (d := lf) (fun l hl => (hheader l hl).1.1) (fun l hl => ?_)
      (htext.symm.trans hcut.symm)
    obtain ⟨_, -, hl⟩ := List.mem_flatMap.mp hl
    exact notMem_of_mem_splitOn hl
  · rintro ⟨rfl, hheader⟩
    have hbody : encode O frame =
        frameBytes frame.command.bytes (blockLines O frame) (sentBody frame) := by
      rw [encode, frameBytes, frameBytes, hcut]
    refine ⟨?_, hbody⟩
    rw [hbody]
    exact wireLines_frameBytes _ ⟨hcommand, frame.command.nulFree⟩ hheader

/-- The length is written behind the entries, in a line of its own. -/
theorem blockLines_eq (O : HashOrder) {frame : Frame} {headers : Hash}
    (h : frame.headers = some headers) :
    blockLines O frame = linesOf (O.iter headers) ++ [lengthLine frame] := by
  have hlength : (lengthLine frame).splitOn lf = [lengthLine frame] := by
    rw [← headerLine_lengthHeader]
    exact textLines_clean (cleanHeader_lengthHeader frame)
  rw [blockLines, headerLines, h, List.flatMap_append, List.flatMap_singleton, hlength,
    List.flatMap_map]
  rfl

theorem isHeaderLine_lengthLine (frame : Frame) : IsHeaderLine (lengthLine frame) := by
  rw [← headerLine_lengthHeader]
  exact isHeaderLine_headerLine (cleanHeader_lengthHeader frame)

theorem nameOf_lengthLine (frame : Frame) :
    nameOf (lengthLine frame) = .lit "content-length" := by
  rw [← headerLine_lengthHeader, nameOf_headerLine (cleanHeader_lengthHeader frame).1]
  rfl

/-- The order in which the table is written does not matter. -/
theorem blockLines_perm (O : HashOrder) {frame : Frame} {headers : Hash}
    {hs : List Header} (h : frame.headers = some headers)
    (hperm : headers.entries.Perm hs) :
    (blockLines O frame).Perm (linesOf hs ++ [lengthLine frame]) := by
  rw [blockLines_eq O h]
  exact (linesOf_perm ((O.perm headers).trans hperm)).append_right _

/-! ## One header of a name -/

/-- Of the lines only the first one of the entry `k` has this name, and each is a header
line. -/
structure Unforged (hs : List Header) (k : CString) : Prop where
  lines : ∀ l ∈ linesOf hs, isBlank l = false ∧ hasColon l = true
  own : ∀ h ∈ hs, h.1 = k → ∀ l ∈ (textLines h).tail, nameOf l ≠ k
  others : ∀ h ∈ hs, h.1 ≠ k → ∀ l ∈ textLines h, nameOf l ≠ k

instance (hs : List Header) (k : CString) : Decidable (Unforged hs k) :=
  decidable_of_iff
    ((∀ l ∈ linesOf hs, isBlank l = false ∧ hasColon l = true) ∧
      (∀ h ∈ hs, h.1 = k → ∀ l ∈ (textLines h).tail, nameOf l ≠ k) ∧
      ∀ h ∈ hs, h.1 ≠ k → ∀ l ∈ textLines h, nameOf l ≠ k)
    ⟨fun ⟨hlines, hown, hothers⟩ => ⟨hlines, hown, hothers⟩,
      fun h => ⟨h.lines, h.own, h.others⟩⟩

/-- Clean entries forge nothing. -/
theorem unforged_clean {hs : List Header} (hclean : ∀ h ∈ hs, CleanHeader h)
    (k : CString) : Unforged hs k := by
  constructor
  · intro l hl
    rw [linesOf_clean hclean] at hl
    obtain ⟨h, hh, rfl⟩ := List.mem_map.mp hl
    exact (isHeaderLine_headerLine (hclean h hh)).2
  · intro h hh _ l hl
    rw [textLines_clean (hclean h hh)] at hl
    cases hl
  · intro h hh hne l hl
    rw [textLines_clean (hclean h hh), List.mem_singleton] at hl
    rwa [hl, nameOf_headerLine (hclean h hh).1]

/-- What more there is in a list may only be clean entries of other names. -/
theorem Unforged.mono {hs hs' : List Header} {k : CString} (h : Unforged hs k)
    (hsub : ∀ p ∈ hs', p ∈ hs ∨ CleanHeader p ∧ p.1 ≠ k) : Unforged hs' k := by
  constructor
  · intro l hl
    obtain ⟨p, hp, hl⟩ := mem_linesOf.mp hl
    rcases hsub p hp with hp | ⟨hclean, -⟩
    · exact h.lines l (mem_linesOf.mpr ⟨p, hp, hl⟩)
    · rw [textLines_clean hclean, List.mem_singleton] at hl
      rw [hl]
      exact (isHeaderLine_headerLine hclean).2
  · intro p hp hk l hl
    rcases hsub p hp with hp | ⟨-, hne⟩
    · exact h.own p hp hk l hl
    · exact absurd hk hne
  · intro p hp hne l hl
    rcases hsub p hp with hp | ⟨hclean, -⟩
    · exact h.others p hp hne l hl
    · rw [textLines_clean hclean, List.mem_singleton] at hl
      rwa [hl, nameOf_headerLine hclean.1]

/-- The lines of the name `k`. -/
def named (k : CString) (ls : List Bytes) : List Bytes :=
  ls.filter fun l => decide (nameOf l = k)

theorem named_append (k : CString) (ls ls' : List Bytes) :
    named k (ls ++ ls') = named k ls ++ named k ls' := List.filter_append ..

theorem named_cons_self {k : CString} {l : Bytes} (h : nameOf l = k) (ls : List Bytes) :
    named k (l :: ls) = l :: named k ls := List.filter_cons_of_pos (by simpa using h)

theorem named_eq_nil_iff {k : CString} {ls : List Bytes} :
    named k ls = [] ↔ ∀ l ∈ ls, nameOf l ≠ k := by
  simp [named, List.filter_eq_nil_iff]

private theorem named_perm_iff {k : CString} {ls ls' : List Bytes} {l : Bytes}
    (h : ls.Perm ls') : named k ls = [l] ↔ named k ls' = [l] := by
  have hperm : (named k ls).Perm (named k ls') := h.filter _
  constructor
  · intro heq
    exact List.perm_singleton.mp (heq ▸ hperm.symm)
  · intro heq
    exact List.perm_singleton.mp (heq ▸ hperm)

/-- An entry of a clean name has a line of that name in front. -/
private theorem named_cons {k : CString} (hk : CleanName k) (v : CString)
    (hs : List Header) :
    named k (linesOf (⟨k, v⟩ :: hs)) = headerLine ⟨k, firstLine v⟩ ::
      (named k (textLines ⟨k, v⟩).tail ++ named k (linesOf hs)) := by
  have hfirst : nameOf (headerLine ⟨k, firstLine v⟩) = k := nameOf_headerLine hk.1
  have hlines : linesOf (⟨k, v⟩ :: hs) = headerLine ⟨k, firstLine v⟩ ::
      ((textLines ⟨k, v⟩).tail ++ linesOf hs) := by
    rw [linesOf, List.flatMap_cons]
    nth_rewrite 1 [textLines_eq_cons hk v]
    rfl
  rw [hlines, named_cons_self hfirst, named_append]

/-- It is the only one exactly when no other line has the name. -/
private theorem named_linesOf_iff {k v : CString} (hk : CleanName k)
    {hs : List Header} (hnodup : hs.NodupKeys) (hv : ⟨k, v⟩ ∈ hs) {l : Bytes} :
    named k (linesOf hs) = [l] ↔
      l = headerLine ⟨k, firstLine v⟩ ∧
        (∀ m ∈ (textLines ⟨k, v⟩).tail, nameOf m ≠ k) ∧
        ∀ h ∈ hs, h.1 ≠ k → ∀ m ∈ textLines h, nameOf m ≠ k := by
  obtain ⟨hs₁, hs₂, rfl⟩ := List.append_of_mem hv
  have hperm : (hs₁ ++ ⟨k, v⟩ :: hs₂).Perm (⟨k, v⟩ :: (hs₁ ++ hs₂)) := List.perm_middle
  -- the other entries have other names
  have hothers : ∀ h ∈ hs₁ ++ hs₂, h.1 ≠ k := by
    have hkeys := (List.perm_nodupKeys hperm).mp hnodup
    rw [List.nodupKeys_cons] at hkeys
    intro h hh heq
    exact hkeys.1 (List.mem_map.mpr ⟨h, hh, heq⟩)
  have hrest : named k (linesOf (hs₁ ++ hs₂)) = [] ↔
      ∀ h ∈ hs₁ ++ ⟨k, v⟩ :: hs₂, h.1 ≠ k → ∀ m ∈ textLines h, nameOf m ≠ k := by
    rw [named_eq_nil_iff]
    constructor
    · intro h p hp hne m hm
      rcases List.mem_cons.mp (hperm.mem_iff.mp hp) with rfl | hp
      · exact absurd rfl hne
      · exact h m (mem_linesOf.mpr ⟨p, hp, hm⟩)
    · intro h m hm
      obtain ⟨p, hp, hm⟩ := mem_linesOf.mp hm
      exact h p (hperm.mem_iff.mpr (List.mem_cons_of_mem _ hp)) (hothers p hp) m hm
  rw [named_perm_iff (linesOf_perm hperm), named_cons hk, List.cons.injEq,
    List.append_eq_nil_iff, named_eq_nil_iff, hrest, eq_comm]

/-- A reader finds the header `k` once, with the value `v`, and the body where it is. -/
def ReadsOnce (O : HashOrder) (frame : Frame) (k v : CString) : Prop :=
  ∃ ls l, ReadsBlock O frame ls ∧ named k ls = [l] ∧ valueOf l = v

/-- **A header that is written is read exactly once, with the first line of its value,
when none is forged.** -/
theorem readsOnce_iff (O : HashOrder) {frame : Frame} {headers : Hash}
    {hs : List Header} (hheaders : frame.headers = some headers)
    (hperm : headers.entries.Perm hs) (hcommand : lf ∉ frame.command.bytes)
    {k v : CString} (hk : CleanName k) (hne : k ≠ .lit "content-length")
    (hv : ⟨k, v⟩ ∈ hs) (w : CString) :
    ReadsOnce O frame k w ↔ Unforged hs k ∧ w = firstLine v := by
  have hblock := blockLines_perm O hheaders hperm
  have hnodup : hs.NodupKeys := (List.perm_nodupKeys hperm).mp headers.nodupKeys
  have hlength : named k [lengthLine frame] = [] := by
    rw [named_eq_nil_iff]
    intro l hl
    rw [List.mem_singleton.mp hl, nameOf_lengthLine]
    exact hne.symm
  have hnamed : ∀ l, named k (blockLines O frame) = [l] ↔
      l = headerLine ⟨k, firstLine v⟩ ∧
        (∀ m ∈ (textLines ⟨k, v⟩).tail, nameOf m ≠ k) ∧
        ∀ h ∈ hs, h.1 ≠ k → ∀ m ∈ textLines h, nameOf m ≠ k := by
    intro l
    rw [named_perm_iff hblock, named_append, hlength, List.append_nil,
      named_linesOf_iff hk hnodup hv]
  have hvalue : valueOf (headerLine ⟨k, firstLine v⟩) = firstLine v :=
    valueOf_headerLine hk.1
  constructor
  · rintro ⟨ls, l, hreads, hl, rfl⟩
    obtain ⟨rfl, hlines⟩ := (readsBlock_iff O hcommand).mp hreads
    obtain ⟨rfl, hown, hothers⟩ := (hnamed l).mp hl
    refine ⟨⟨fun m hm => ?_, fun p hp hpk => ?_, hothers⟩, hvalue⟩
    · exact (hlines m (hblock.mem_iff.mpr (List.mem_append_left _ hm))).2
    · obtain ⟨k, v'⟩ := p
      obtain rfl := hpk
      obtain rfl := hnodup.eq_of_mk_mem hp hv
      exact hown
  · rintro ⟨hunforged, rfl⟩
    refine ⟨_, _, (readsBlock_iff O hcommand).mpr ⟨rfl, fun m hm => ?_⟩,
      (hnamed _).mpr ⟨rfl, hunforged.own _ hv rfl, hunforged.others⟩, hvalue⟩
    rcases List.mem_append.mp (hblock.mem_iff.mp hm) with hm | hm
    · obtain ⟨h, -, hmh⟩ := mem_linesOf.mp hm
      exact (isHeaderLine_of_mem_textLines hmh).mpr (hunforged.lines m hm)
    · rw [List.mem_singleton.mp hm]
      exact isHeaderLine_lengthLine frame

/-! ## Every name once -/

/-- A reader finds no header name twice, the length computed for the body as the only
length, and the body where it is. -/
def HeadersOnce (O : HashOrder) (frame : Frame) : Prop :=
  ∃ ls, ReadsBlock O frame ls ∧ (ls.map nameOf).Nodup ∧
    named (.lit "content-length") ls = [lengthLine frame]

/-- The entries are cut into header lines of distinct names, and only the entry of that
name into one with a length. -/
structure Distinct (hs : List Header) : Prop where
  unforged : Unforged hs (.lit "content-length")
  nodup : ((linesOf hs).map nameOf).Nodup

instance (hs : List Header) : Decidable (Distinct hs) :=
  decidable_of_iff
    (Unforged hs (.lit "content-length") ∧ ((linesOf hs).map nameOf).Nodup)
    ⟨fun ⟨hunforged, hnodup⟩ => ⟨hunforged, hnodup⟩, fun h => ⟨h.unforged, h.nodup⟩⟩

/-- Clean entries of distinct names are distinct lines. -/
theorem distinct_clean {hs : List Header} (hclean : ∀ h ∈ hs, CleanHeader h)
    (hnodup : hs.NodupKeys) : Distinct hs := by
  refine ⟨unforged_clean hclean _, ?_⟩
  have hnames : (linesOf hs).map nameOf = hs.keys := by
    rw [linesOf_clean hclean, List.map_map]
    exact List.map_congr_left fun h hh => nameOf_headerLine (hclean h hh).1
  rw [hnames]
  exact hnodup

theorem Distinct.perm {hs hs' : List Header} (h : Distinct hs) (hperm : hs.Perm hs') :
    Distinct hs' :=
  ⟨h.unforged.mono fun _ hp => .inl (hperm.mem_iff.mpr hp),
    ((linesOf_perm hperm).map nameOf).nodup_iff.mp h.nodup⟩

private theorem cleanName_length : CleanName (.lit "content-length") := by decide

/-- No line has a length exactly when no entry is one and none is forged. -/
private theorem length_notMem_iff {hs : List Header} :
    .lit "content-length" ∉ (linesOf hs).map nameOf ↔
      .lit "content-length" ∉ hs.keys ∧
        ∀ h ∈ hs, h.1 ≠ .lit "content-length" →
          ∀ l ∈ textLines h, nameOf l ≠ .lit "content-length" := by
  constructor
  · intro h
    refine ⟨fun hm => h ?_, fun p hp _ l hl heq => h ?_⟩
    · obtain ⟨⟨k, v⟩, hp, hk⟩ := List.mem_map.mp hm
      obtain rfl : k = .lit "content-length" := hk
      have hline : headerLine ⟨.lit "content-length", firstLine v⟩ ∈
          textLines ⟨.lit "content-length", v⟩ := by
        rw [textLines_eq_cons cleanName_length]
        exact List.mem_cons_self
      exact List.mem_map.mpr ⟨_, mem_linesOf.mpr ⟨_, hp, hline⟩,
        nameOf_headerLine cleanName_length.1⟩
    · exact List.mem_map.mpr ⟨l, mem_linesOf.mpr ⟨p, hp, hl⟩, heq⟩
  · rintro ⟨hkeys, hothers⟩ hm
    obtain ⟨l, hl, heq⟩ := List.mem_map.mp hm
    obtain ⟨p, hp, hl⟩ := mem_linesOf.mp hl
    exact hothers p hp (fun hk => hkeys (List.mem_map.mpr ⟨p, hp, hk⟩)) l hl heq

/-- **A reader finds every name once exactly when the table has no length and no entry
forges a line.** -/
theorem headersOnce_iff (O : HashOrder) {frame : Frame} {headers : Hash}
    {hs : List Header} (hheaders : frame.headers = some headers)
    (hperm : headers.entries.Perm hs) (hcommand : lf ∉ frame.command.bytes) :
    HeadersOnce O frame ↔ .lit "content-length" ∉ hs.keys ∧ Distinct hs := by
  have hblock := blockLines_perm O hheaders hperm
  have hnames : ((blockLines O frame).map nameOf).Nodup ↔
      ((linesOf hs).map nameOf).Nodup ∧
        .lit "content-length" ∉ (linesOf hs).map nameOf := by
    rw [(hblock.map nameOf).nodup_iff, List.map_append, List.map_singleton,
      nameOf_lengthLine, ← List.concat_eq_append, List.nodup_concat, and_comm]
  constructor
  · rintro ⟨ls, hreads, hnodup, -⟩
    obtain ⟨rfl, hlines⟩ := (readsBlock_iff O hcommand).mp hreads
    obtain ⟨hdistinct, hno⟩ := hnames.mp hnodup
    obtain ⟨hkeys, hothers⟩ := length_notMem_iff.mp hno
    refine ⟨hkeys, ⟨fun l hl => ?_, fun p hp hpk => ?_, hothers⟩, hdistinct⟩
    · exact (hlines l (hblock.mem_iff.mpr (List.mem_append_left _ hl))).2
    · exact absurd (List.mem_map.mpr ⟨p, hp, hpk⟩) hkeys
  · rintro ⟨hkeys, hunforged, hdistinct⟩
    have hno := length_notMem_iff.mpr ⟨hkeys, hunforged.others⟩
    refine ⟨_, (readsBlock_iff O hcommand).mpr ⟨rfl, fun l hl => ?_⟩,
      hnames.mpr ⟨hdistinct, hno⟩, ?_⟩
    · rcases List.mem_append.mp (hblock.mem_iff.mp hl) with hl | hl
      · obtain ⟨h, -, hlh⟩ := mem_linesOf.mp hl
        exact (isHeaderLine_of_mem_textLines hlh).mpr (hunforged.lines l hl)
      · rw [List.mem_singleton.mp hl]
        exact isHeaderLine_lengthLine frame
    · have hothers : named (.lit "content-length") (linesOf hs) = [] :=
        named_eq_nil_iff.mpr fun l hl heq => hno (List.mem_map.mpr ⟨l, hl, heq⟩)
      rw [named_perm_iff hblock, named_append, hothers, List.nil_append,
        named_cons_self (nameOf_lengthLine frame)]
      rfl

end LibStomp.Stream.HeaderTexts
