import LibStomp.Stream.ReadLine

/-!
# The accumulators of `stomp_read_line` and `stomp_read_buffer`

Both functions take bytes one by one into a chain of blocks and copy the chain into
a buffer of as many bytes as they have counted.  The copy loop works with an `int`
for the length of each copy and with two pointers that it advances; here it is
written out as the list of its `memcpy` calls, each of which is refused if it leaves
the block it reads or the buffer it writes.

## Main results

* `accumulators_exact` — a line is read exactly when a newline comes before any NUL,
  a body where a newline follows its first NUL; the copy loop then returns what was
  received, byte by byte, and none of its calls is refused.
-/

namespace LibStomp.Stream.Accumulators

open LibStomp.Model
open LibStomp.Verified.BlockChain
open LibStomp.Verified.Lines
open LibStomp.Stream.ReadLine

/-! ## The copy loop -/

/-- The calls `memcpy (p, head->data, len)` of the loop over the blocks. -/
def copyCalls : List Block → Nat → Nat → List (Copy UInt8 blockSize)
  | [], _, _ => []
  | head :: next, p, bytesRead =>
      let len : Int :=
        cInt (if bytesRead > blockSize then blockSize else bytesRead : Nat)
      -- as a length of `memcpy` the `int` is a `size_t` again
      let size := (toSize len).toNat
      ⟨p, head, size⟩ :: copyCalls next (p + size) (bytesRead - size)

/-- The copy loop on the zeroed buffer; `none` if a call leaves a block or the
buffer. -/
def copyLoop (blocks : List Block) (bytesRead : Nat) : Option Bytes :=
  (copyCalls blocks 0 bytesRead).foldlM Copy.run (List.replicate bytesRead nul)

/-- Through `int` and back the length of a copy is what it was. -/
private theorem size_eq (bytesRead : Nat) :
    (toSize (cInt
        (if bytesRead > blockSize then blockSize else bytesRead : Nat))).toNat =
      min bytesRead blockSize := by
  have hblock : blockSize = 1024 := rfl
  have hmin : (if bytesRead > blockSize then blockSize else bytesRead) =
      min bytesRead blockSize := by
    rw [Nat.min_def]
    split <;> split <;> omega
  rw [hmin, cInt_eq_of_lt (by omega), toSize_toNat]
  omega

/-- The code's calls are the copies of the chain. -/
theorem copyCalls_eq (blocks : List Block) :
    ∀ p bytesRead, copyCalls blocks p bytesRead = copies blocks p bytesRead := by
  induction blocks with
  | nil => intro p bytesRead; rfl
  | cons head next ih =>
      intro p bytesRead
      rw [copyCalls, copies, size_eq]
      simp only [ih]

/-- The copy loop turns the blocks into `received`: it fills the buffer with these
bytes, each of which is in one of its calls, in this order, and no call leaves its
block or the buffer. -/
structure Reassembles (blocks : List Block) (received : Bytes) : Prop where
  filled : copyLoop blocks received.length = some received
  once : (copyCalls blocks 0 received.length).flatMap Copy.piece = received
  within : ∀ call ∈ copyCalls blocks 0 received.length,
    call.len ≤ blockSize ∧ call.p + call.len ≤ received.length

/-- It does so as soon as the blocks hold these bytes. -/
theorem reassembles_of_copyOut {blocks : List Block} {received : Bytes}
    (h : copyOut blocks received.length = received) : Reassembles blocks received where
  filled := by
    have hlen := congrArg List.length h
    rw [length_copyOut] at hlen
    have hfits : (List.replicate received.length nul).length ≤
        blockSize * blocks.length := by
      rw [List.length_replicate]
      omega
    have hrun := run_copies hfits
    rwa [List.length_replicate, h, ← copyCalls_eq] at hrun
  once := by
    rw [copyCalls_eq, flatMap_piece_copies, h]
  within call hcall := by
    rw [copyCalls_eq] at hcall
    have hwithin := copies_within call hcall
    rwa [Nat.zero_add] at hwithin

/-- What the fill loop leaves is reassembled, wherever the last byte falls. -/
theorem reassembles_pushed (l : Bytes) :
    Reassembles ((l.foldl (Chain.push nul) firstBlock).store nul) (l ++ [nul]) := by
  refine reassembles_of_copyOut ?_
  rw [List.length_append, List.length_singleton]
  exact copyOut_pushed l

/-- The copy loop has run on what the fill loop `loop` left, and reassembled `data`. -/
def CopiedFrom (loop : IoM (List Block × Nat)) (io io' : Io) (data : Bytes) : Prop :=
  ∃ blocks, loop io = .ok (blocks, data.length) io' ∧ Reassembles blocks data

variable {A : Apr} {io io' : Io}

/-! ## `stomp_read_line` -/

/-- The line `l` was received and taken off the stream with its LF; `data` holds it
and one NUL. -/
structure LineTaken (io io' : Io) (data l : Bytes) : Prop where
  clean : Clean lf nul l
  received : ∃ t, supply io = l ++ lf :: t
  data_eq : data = l ++ [nul]
  consumed : io.socket.inbox = l ++ lf :: io'.socket.inbox
  post : io' = advance (l.length + 1) io

theorem readLine_taken {l t : Bytes} (hclean : Clean lf nul l)
    (htext : supply io = l ++ lf :: t) :
    stompReadLine A io = .ok (l ++ [nul], cInt l.length) (advance (l.length + 1) io) ∧
      LineTaken io (advance (l.length + 1) io) (l ++ [nul]) l ∧
      CopiedFrom (readLineLoop A (io.socket.inbox.length + 1) firstBlock 0) io
        (advance (l.length + 1) io) (l ++ [nul]) := by
  have hline := scanLine_line_iff.mpr ⟨htext, hclean⟩
  have hread := stompReadLine_scan A io
  have hloop := readLineLoop_scan A firstBlock 0 io (Nat.lt_succ_self _)
  rw [hline] at hread hloop
  simp only [Nat.zero_add] at hloop
  have hsplit : supply io = (l ++ [lf]) ++ t := by simp [htext]
  have hinbox := (supply_append hsplit).1
  rw [List.length_append, List.length_singleton, List.append_assoc] at hinbox
  refine ⟨hread, ⟨hclean, ⟨t, htext⟩, rfl, hinbox, rfl⟩, _, ?_, reassembles_pushed l⟩
  rw [List.length_append, List.length_singleton]
  exact hloop

/-- What `stomp_read_line` returns is a line, and its length narrowed to `int`. -/
theorem readLine_ok {data : Bytes} {length : Int}
    (h : stompReadLine A io = .ok (data, length) io') :
    ∃ l, length = cInt l.length ∧ LineTaken io io' data l ∧
      CopiedFrom (readLineLoop A (io.socket.inbox.length + 1) firstBlock 0) io io'
        data := by
  have hread := stompReadLine_scan A io
  cases hline : scanLine lf nul (supply io) with
  | line l t =>
      obtain ⟨htext, hclean⟩ := scanLine_line_iff.mp hline
      obtain ⟨hok, htaken, hcopied⟩ := readLine_taken (A := A) hclean htext
      obtain ⟨hpair, rfl⟩ := EStateM.Result.ok.inj (hok.symm.trans h)
      obtain ⟨rfl, rfl⟩ := Prod.mk.inj hpair
      exact ⟨l, rfl, htaken, hcopied⟩
  | stop l t =>
      rw [hline] at hread
      cases hread.symm.trans h
  | short =>
      rw [hline] at hread
      cases hread.symm.trans h

/-! ## `stomp_read_buffer` -/

/-- The body `p` was taken off the stream with its NUL and the LF behind it; `data`
holds it and the NUL, and `bodyLen` is their number. -/
structure BodyTaken (io io' : Io) (data : Bytes) (bodyLen : Nat) (p : Bytes) :
    Prop where
  data_eq : data = p ++ [nul]
  bodyLen_eq : bodyLen = data.length
  consumed : io.socket.inbox = p ++ nul :: lf :: io'.socket.inbox
  post : io' = advance (p.length + 2) io

theorem readBuffer_taken {p t : Bytes} (hp : nul ∉ p)
    (htext : supply io = p ++ nul :: lf :: t) :
    ∃ data bodyLen io', stompReadBuffer A io = .ok (data, bodyLen) io' ∧
      BodyTaken io io' data bodyLen p := by
  have hline := scanLine_line_iff.mpr ⟨htext, hp, hp⟩
  have hread := stompReadBuffer_scan A io
  rw [hline] at hread
  have hend : endlineOf io (lf :: t) = lf := rfl
  have hbehind : behindEnd (lf :: t) (advance (p.length + 1) io) =
      advance (p.length + 2) io := by
    rw [behindEnd, if_neg (List.cons_ne_nil _ _), advance_advance]
  simp only [hend, hbehind, ne_eq, not_true_eq_false, if_false] at hread
  have hsplit : supply io = (p ++ [nul, lf]) ++ t := by simp [htext]
  have hinbox := (supply_append hsplit).1
  rw [List.length_append, List.append_assoc] at hinbox
  refine ⟨_, _, _, hread, rfl, ?_, hinbox, rfl⟩
  rw [List.length_append, List.length_singleton]

/-- Whatever `stomp_read_buffer` returns, also where no LF was received, its copy loop
has reassembled. -/
theorem readBuffer_ok {data : Bytes} {bodyLen : Nat}
    (h : stompReadBuffer A io = .ok (data, bodyLen) io') :
    CopiedFrom (readBufferLoop A (io.socket.inbox.length + 1) firstBlock 0) io io'
      data := by
  have hread := stompReadBuffer_scan A io
  have hloop := readBufferLoop_scan A firstBlock 0 io (Nat.lt_succ_self _)
  cases hline : scanLine nul nul (supply io) with
  | line p t =>
      rw [hline] at hread hloop
      simp only [Nat.zero_add] at hread hloop
      by_cases he : endlineOf io t = lf
      · rw [if_neg (not_not_intro he)] at hread hloop
        obtain ⟨hpair, rfl⟩ := EStateM.Result.ok.inj (hread.symm.trans h)
        obtain ⟨rfl, rfl⟩ := Prod.mk.inj hpair
        refine ⟨_, ?_, reassembles_pushed p⟩
        rw [List.length_append, List.length_singleton]
        exact hloop
      · rw [if_pos he] at hread
        cases hread.symm.trans h
  | stop p t =>
      rw [hline] at hread
      cases hread.symm.trans h
  | short =>
      rw [hline] at hread
      cases hread.symm.trans h

/-! ## The main result -/

/-- **The accumulators return what was received.**  A line is read exactly when an LF
comes before any NUL and before the bytes that are received end; a body and its NUL
are read when an LF is received behind them. -/
theorem accumulators_exact (A : Apr) (io : Io) :
    ((∃ r io', stompReadLine A io = .ok r io') ↔
      ∃ l t, supply io = l ++ lf :: t ∧ nul ∉ l) ∧
    (∀ data length io', stompReadLine A io = .ok (data, length) io' →
      ∃ l, LineTaken io io' data l ∧
        CopiedFrom (readLineLoop A (io.socket.inbox.length + 1) firstBlock 0) io io'
          data) ∧
    (∀ p t, nul ∉ p → supply io = p ++ nul :: lf :: t →
      ∃ data bodyLen io', stompReadBuffer A io = .ok (data, bodyLen) io' ∧
        BodyTaken io io' data bodyLen p) ∧
    ∀ data bodyLen io', stompReadBuffer A io = .ok (data, bodyLen) io' →
      CopiedFrom (readBufferLoop A (io.socket.inbox.length + 1) firstBlock 0) io io'
        data := by
  refine ⟨⟨?_, ?_⟩, ?_, fun p t => readBuffer_taken,
    fun data bodyLen io' => readBuffer_ok⟩
  · rintro ⟨⟨data, length⟩, io', hok⟩
    obtain ⟨l, -, htaken, -⟩ := readLine_ok hok
    obtain ⟨t, htext⟩ := htaken.received
    exact ⟨l, t, htext, htaken.clean.2⟩
  · rintro ⟨l, t, htext, hnul⟩
    obtain ⟨l', t', hfirst, hclean⟩ := exists_clean_line (d := lf) hnul t
    exact ⟨_, _, (readLine_taken hclean (htext.trans hfirst)).1⟩
  · intro data length io' hok
    obtain ⟨l, -, hline⟩ := readLine_ok hok
    exact ⟨l, hline⟩

end LibStomp.Stream.Accumulators
