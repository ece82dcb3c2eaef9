import LibStomp.Stream.Acceptance
import LibStomp.Stream.Accumulators

/-!
# Where the header block ends

`stomp_read_line` counts the bytes of a line in an `apr_size_t` and reports their
number in an `int`; the header loop of `stomp_read` compares that `int` with zero.
The reported length is right up to `2 ^ 31 - 1`, and the loop stops behind every
line whose length is a multiple of `2 ^ 32`, of which the empty line is only the
first.

## Main results

* `stopsAtEmpty_iff` — the loop stops exactly at the first empty line if and only
  if no line it can come to has one of the other lengths.
-/

namespace LibStomp.Stream.HeaderEnds

open LibStomp.Model
open LibStomp.Verified.Lines
open LibStomp.Stream.Grammar
open LibStomp.Stream.ReadLine
open LibStomp.Stream.ReadFrame
open LibStomp.Stream.Acceptance
open LibStomp.Stream.Accumulators

/-! ## The reported length -/

/-- The text starts with the line `l` and its LF. -/
def StartsWithLine (s l : Bytes) : Prop := ∃ t, s = l ++ lf :: t ∧ Clean lf nul l

/-- The length reported for a line is the number of bytes in front of its LF; the
buffer holds these and a NUL. -/
def ReportsLength (A : Apr) (io : Io) : Prop :=
  ∀ p length io', stompReadLine A io = .ok (p, length) io' →
    length = (p.length : Int) - 1

theorem reportsLength_iff {A : Apr} {io : Io} :
    ReportsLength A io ↔
      ∀ l, StartsWithLine (supply io) l → l.length < 2 ^ 31 := by
  constructor
  · rintro h l ⟨t, htext, hclean⟩
    have hlength := h _ _ _ (readLine_taken (A := A) hclean htext).1
    rw [List.length_append, List.length_singleton] at hlength
    exact cInt_eq_self_iff.mp (by omega)
  · intro h p length io' hok
    obtain ⟨l, hlength, htaken, -⟩ := readLine_ok hok
    obtain ⟨t, htext⟩ := htaken.received
    have hlt := h l ⟨t, htext, htaken.clean⟩
    rw [hlength, cInt_eq_of_lt hlt, htaken.data_eq, List.length_append,
      List.length_singleton]
    omega

/-! ## The header loop -/

/-- How much of a text has been used up to its rest. -/
private theorem used_eq {s p rest : Bytes} {n : Nat} (htext : s = p ++ lf :: rest)
    (hn : s.length = n + rest.length) : n = p.length + 1 := by
  rw [htext, List.length_append, List.length_cons] at hn
  omega

/-- The header loop succeeds exactly where the block scan with the code's test does,
and stops right behind the line that ended the scan. -/
theorem readHeaders_ok_iff {A : Apr} {io io' : Io} {headers headers' : Hash} :
    readHeaders A (io.socket.inbox.length + 1) headers io = .ok headers' io' ↔
      ∃ ls last rest,
        scanBlock lf nul wraps hasColon (supply io) = .done ls last rest ∧
        headers' = ls.foldl insertLine headers ∧
        io' = advance ((joinLines lf ls ++ last).length + 1) io := by
  have hloop := readHeaders_scan A io headers (Nat.lt_succ_self _)
  constructor
  · intro hok
    cases hscan : scanBlock lf nul wraps hasColon (supply io) with
    | done ls last rest =>
        rw [hscan] at hloop
        obtain ⟨n, hn, -, heq⟩ := hloop
        obtain ⟨rfl, rfl⟩ := EStateM.Result.ok.inj (heq.symm.trans hok)
        have hused := used_eq (scanBlock_done_iff.mp hscan).1 hn
        exact ⟨ls, last, rest, rfl, rfl, by rw [hused]⟩
    | refused rest =>
        rw [hscan] at hloop
        obtain ⟨n, io'', -, -, -, herror⟩ := hloop
        cases herror.symm.trans hok
    | short =>
        rw [hscan] at hloop
        obtain ⟨io'', -, herror⟩ := hloop
        cases herror.symm.trans hok
  · rintro ⟨ls, last, rest, hscan, rfl, rfl⟩
    rw [hscan] at hloop
    obtain ⟨n, hn, -, heq⟩ := hloop
    rw [used_eq (scanBlock_done_iff.mp hscan).1 hn] at heq
    exact heq

/-- The loop returns exactly on header lines with an empty line behind them, and then
with these lines in the table and the stream right behind the empty line. -/
def StopsAtEmpty (A : Apr) (headers : Hash) (io : Io) : Prop :=
  ∀ headers' io',
    readHeaders A (io.socket.inbox.length + 1) headers io = .ok headers' io' ↔
      ∃ ls rest, supply io = joinLines lf ls ++ lf :: rest ∧
        (∀ l ∈ ls, IsHeaderLine l) ∧ headers' = ls.foldl insertLine headers ∧
        io' = advance ((joinLines lf ls).length + 1) io

/-- The text has the line `l` behind header lines at its front. -/
def ReachesLine (s l : Bytes) : Prop :=
  ∃ ls t, s = joinLines lf ls ++ t ∧ (∀ m ∈ ls, IsHeaderLine m) ∧ StartsWithLine t l

/-- No line behind header lines narrows to an empty one, unless it is empty. -/
def NoneWraps (s : Bytes) : Prop :=
  ∀ l, ReachesLine s l → l ≠ [] → l.length % 2 ^ 32 ≠ 0

/-- Then the code's end of the block is the grammar's. -/
theorem scanBlock_wraps_iff {s : Bytes} (h : NoneWraps s) {ls : List Bytes}
    {last rest : Bytes} :
    scanBlock lf nul wraps hasColon s = .done ls last rest ↔
      last = [] ∧ s = joinLines lf ls ++ lf :: rest ∧
        ∀ l ∈ ls, IsHeaderLine l := by
  rw [scanBlock_done_iff]
  constructor
  · rintro ⟨htext, hls, hclean, hwraps⟩
    have hlines : ∀ l ∈ ls, IsHeaderLine l := fun l hl =>
      (hls l hl).narrow fun _ => wraps_of_isBlank
    have hreach : ReachesLine s last :=
      ⟨ls, last ++ lf :: rest, by rw [htext, List.append_assoc], hlines, rest, rfl,
        hclean⟩
    obtain rfl : last = [] := by
      by_contra hne
      exact h last hreach hne (beq_iff_eq.mp hwraps)
    rw [List.append_nil] at htext
    exact ⟨rfl, htext, hlines⟩
  · rintro ⟨rfl, htext, hlines⟩
    refine ⟨by rw [htext, List.append_nil], fun l hl => ?_, clean_nil lf nul, rfl⟩
    obtain ⟨hclean, hblank, hcolon⟩ := hlines l hl
    refine ⟨hclean, ?_, hcolon⟩
    -- the lines in front of `l` are header lines, too
    obtain ⟨before, behind, rfl⟩ := List.append_of_mem hl
    have hreach : ReachesLine s l := by
      refine ⟨before, l ++ lf :: (joinLines lf behind ++ lf :: rest), ?_,
        fun m hm => ?_, _, rfl, hclean⟩
      · rw [htext, ← joinLines_cons, ← List.append_assoc]
        simp [joinLines]
      · exact hlines m (List.mem_append_left _ hm)
    have hne : l ≠ [] := by
      rintro rfl
      cases hblank
    exact beq_eq_false_iff_ne.mpr (h l hreach hne)

/-- One line that narrows to an empty one makes the loop stop at one. -/
theorem exists_wrapping {s l : Bytes} (hreach : ReachesLine s l) (hne : l ≠ [])
    (hwraps : l.length % 2 ^ 32 = 0) :
    ∃ ls last rest, last ≠ [] ∧
      scanBlock lf nul wraps hasColon s = .done ls last rest := by
  obtain ⟨lines, t, rfl, hlines, rest, rfl, hclean⟩ := hreach
  have hblank : wraps l = true := beq_iff_eq.mpr hwraps
  have hgood : ∀ m ∈ lines, Clean lf nul m ∧ hasColon m = true := fun m hm =>
    ⟨(hlines m hm).1, (hlines m hm).2.2⟩
  obtain ⟨ls, last, rest', hlast, hscan⟩ := scanBlock_ends hgood hclean hblank rest
  refine ⟨ls, last, rest', ?_, hscan⟩
  rintro rfl
  rcases List.mem_append.mp hlast with hm | hm
  · cases (hlines [] hm).2.1
  · exact hne (List.mem_singleton.mp hm).symm

private theorem advance_inj {m n : Nat} {io : Io} (hm : m ≤ io.socket.inbox.length)
    (hn : n ≤ io.socket.inbox.length) (h : advance m io = advance n io) : m = n := by
  have hlen := congrArg (fun io => io.socket.inbox.length) h
  simp only [advance_inbox, List.length_drop] at hlen
  omega

/-- A loop that stops behind a line with a byte does not stop at an empty one. -/
theorem not_stopsAtEmpty {A : Apr} {headers : Hash} {io : Io} {ls : List Bytes}
    {last rest : Bytes}
    (hscan : scanBlock lf nul wraps hasColon (supply io) = .done ls last rest)
    (hlast : last ≠ []) : ¬ StopsAtEmpty A headers io := by
  intro h
  obtain ⟨htext, -, hclean, -⟩ := scanBlock_done_iff.mp hscan
  have hok : readHeaders A (io.socket.inbox.length + 1) headers io =
      .ok (ls.foldl insertLine headers)
        (advance ((joinLines lf ls ++ last).length + 1) io) :=
    readHeaders_ok_iff.mpr ⟨ls, last, rest, hscan, rfl, rfl⟩
  obtain ⟨ls', rest', htext', -, -, hpost⟩ := (h _ _).mp hok
  -- both texts end at the same place
  obtain ⟨more, hinbox⟩ := exists_inbox_eq io
  have hbound : ∀ {p t : Bytes}, supply io = p ++ lf :: t →
      p.length + 1 ≤ io.socket.inbox.length := by
    intro p t hp
    rw [hinbox, hp]
    simp only [List.length_append, List.length_cons]
    omega
  have hlength := advance_inj (hbound htext) (hbound htext') hpost
  have hjoin := (List.append_inj (htext.symm.trans htext') (by omega)).1
  exact hlast (eq_nil_of_joinLines_append hclean.1 hjoin)

theorem stopsAtEmpty_iff {A : Apr} {headers : Hash} {io : Io} :
    StopsAtEmpty A headers io ↔ NoneWraps (supply io) := by
  constructor
  · intro h l hreach hne hwraps
    obtain ⟨ls, last, rest, hlast, hscan⟩ := exists_wrapping hreach hne hwraps
    exact not_stopsAtEmpty hscan hlast h
  · intro h headers' io'
    rw [readHeaders_ok_iff]
    constructor
    · rintro ⟨ls, last, rest, hscan, hheaders, hpost⟩
      obtain ⟨rfl, htext, hlines⟩ := (scanBlock_wraps_iff h).mp hscan
      rw [List.append_nil] at hpost
      exact ⟨ls, rest, htext, hlines, hheaders, hpost⟩
    · rintro ⟨ls, rest, htext, hlines, hheaders, hpost⟩
      refine ⟨ls, [], rest, (scanBlock_wraps_iff h).mpr ⟨rfl, htext, hlines⟩, hheaders,
        ?_⟩
      rwa [List.append_nil]

/-- **Lengths are reported as they are below `2 ^ 31`, and the header loop stops at
the first empty line where no other line narrows to one**, and only there. -/
theorem only_empty_ends_iff (A : Apr) (headers : Hash) (io : Io) :
    (ReportsLength A io ↔ ∀ l, StartsWithLine (supply io) l → l.length < 2 ^ 31) ∧
      (StopsAtEmpty A headers io ↔ NoneWraps (supply io)) :=
  ⟨reportsLength_iff, stopsAtEmpty_iff⟩

/-- A header line of `2 ^ 32` bytes is reported to have none, and ends the block. -/
theorem only_empty_ends_fails :
    ∃ k, k + 1 = 2 ^ 32 ∧
      ¬ ReportsLength .sample (Io.fresh (valueLine k ++ [lf, lf])) ∧
      ¬ StopsAtEmpty .sample ∅ (Io.fresh (valueLine k ++ [lf, lf])) := by
  refine ⟨2 ^ 32 - 1, rfl, ?_⟩
  generalize hk : (2 ^ 32 - 1 : Nat) = k
  have hlength : (valueLine k).length = 2 ^ 32 := by
    rw [valueLine, List.length_cons, List.length_replicate]
    omega
  have hd : Delivering (Io.fresh (valueLine k ++ [lf, lf])) := by
    intro turn hturn
    cases hturn
  have hsupply : supply (Io.fresh (valueLine k ++ [lf, lf])) =
      valueLine k ++ [lf, lf] := hd.supply_eq.1
  have hline : StartsWithLine (valueLine k ++ [lf, lf]) (valueLine k) :=
    ⟨[lf], rfl, (isHeaderLine_valueLine k).1⟩
  rw [reportsLength_iff, stopsAtEmpty_iff, hsupply]
  constructor
  · intro h
    have hlt := h _ hline
    omega
  · intro h
    refine h _ ⟨[], _, rfl, by simp, hline⟩ (by simp [valueLine]) ?_
    rw [hlength, Nat.mod_self]

end LibStomp.Stream.HeaderEnds
