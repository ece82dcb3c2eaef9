import LibStomp.Stream.CleanFrames
import LibStomp.Stream.ReadSuccess

/-!
# What can stand in a table that was read

A header table that `stomp_read` returns was built from lines.  However the
bytes were delivered, no name in it holds a colon or a newline and no value a
newline, so the table can be merged into one that will be written again.
-/

namespace LibStomp.Stream.ReadTables

open LibStomp.Model
open LibStomp.Verified.Lines
open LibStomp.Stream.Grammar
open LibStomp.Stream.ReadFrame
open LibStomp.Stream.ReadBody
open LibStomp.Stream.CleanFrames
open LibStomp.Stream.ReadSuccess

/-- The name and the value of a line keep clear of the separators. -/
theorem cleanHeader_line {l : Bytes} (h : Clean lf nul l) :
    CleanHeader ⟨nameOf l, valueOf l⟩ := by
  have hname : (nameOf l).bytes.Sublist (l.takeWhile (· != colon)) :=
    List.takeWhile_sublist _
  have hvalue : (valueOf l).bytes.Sublist (l.dropWhile (· != colon)).tail :=
    List.takeWhile_sublist _
  refine ⟨fun hm => ?_, fun hm => ?_, fun hm => ?_⟩
  · simpa using List.mem_takeWhile_imp (hname.subset hm)
  · exact h.1 ((List.takeWhile_sublist _).subset (hname.subset hm))
  · exact h.1
      ((List.dropWhile_sublist _).subset
        (List.mem_of_mem_tail (hvalue.subset hm)))

/-- Lines without newlines and NULs make a clean table. -/
theorem cleanTable_table {ls : List Bytes} (h : ∀ l ∈ ls, Clean lf nul l) :
    CleanTable (table ls) := by
  rintro ⟨k, v⟩ hp
  obtain ⟨l, hl, rfl, rfl⟩ := mem_lines_of_lookup (AList.mem_lookup_iff.mpr hp)
  exact cleanHeader_line (h l hl)

/-- **The table of a frame that was read is clean.** -/
theorem stompRead_cleanTable (A : Apr) {io io' : Io} {frame : Frame}
    (h : stompRead A io = .ok frame io') :
    ∃ headers, frame.headers = some headers ∧ CleanTable headers := by
  obtain ⟨command, ls, last, rest, n, hhead, -, -, hbody⟩ := stompRead_ok A h
  obtain ⟨-, -, hscan⟩ := scanHead_text hhead
  obtain ⟨-, hlines, -, -⟩ := scanBlock_done_iff.mp hscan
  exact ⟨table ls, readBody_headers A hbody,
    cleanTable_table fun l hl => (hlines l hl).1⟩

end LibStomp.Stream.ReadTables
