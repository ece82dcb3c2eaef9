/-!
# Block-chained accumulators

An accumulator of unknown final length can be kept as a chain of fixed-size
blocks: elements are stored at a running index of the last block, and a fresh
block is linked when that index reaches the block size.  At the end the chain
is copied out block by block, each time the smaller of the block size and of
what is left to copy.

The module is generic in the element type and in the block size `n`.  A chain
that is ready to receive carries `i < n` as a field, so the index of a store is
in bounds by construction; the proof of that field is exactly the test the fill
loop makes after each store.

## Main results

* `Chain.content_push` — pushing appends one element to the content.
* `Chain.copyOut_store` — copying out the chain at the moment the last element
  is stored (before a fresh block is linked) yields the content followed by
  that element, whatever the length is relative to `n`.
* `run_copies` — copying out into a buffer of as many cells as are left to copy
  stays within the blocks and the buffer, and fills it with these elements.
-/

namespace LibStomp.Verified.BlockChain

variable {α : Type} {n : Nat}

/-- A chain ready to receive: the full blocks, head first, and the block being
filled with the index of its next free cell. -/
structure Chain (α : Type) (n : Nat) where
  full : List (Vector α n)
  tail : Vector α n
  i : Nat
  i_lt : i < n

/-- A chain of one fresh block. -/
def Chain.fresh (z : α) (hn : 0 < n) : Chain α n :=
  { full := [], tail := Vector.replicate n z, i := 0, i_lt := hn }

/-- The blocks after `b` has been stored in the next free cell. -/
def Chain.store (c : Chain α n) (b : α) : List (Vector α n) :=
  c.full ++ [c.tail.set c.i b c.i_lt]

/-- Store `b` and make room for the next element: a fresh block is linked when
the index has reached the block size. -/
def Chain.push (z : α) (c : Chain α n) (b : α) : Chain α n :=
  if h : c.i + 1 < n then
    { full := c.full, tail := c.tail.set c.i b c.i_lt, i := c.i + 1, i_lt := h }
  else
    { full := c.store b, tail := Vector.replicate n z, i := 0
      i_lt := Nat.lt_of_le_of_lt (Nat.zero_le _) c.i_lt }

/-- Copy `left` elements out of the blocks, at most one block at a time. -/
def copyOut : List (Vector α n) → Nat → List α
  | [], _ => []
  | block :: rest, left =>
      block.toList.take (min left n) ++ copyOut rest (left - min left n)

/-! ## What a chain holds -/

/-- The elements stored so far, oldest first. -/
def Chain.content (c : Chain α n) : List α :=
  c.full.flatMap Vector.toList ++ c.tail.toList.take c.i

@[simp] theorem Chain.content_fresh (z : α) (hn : 0 < n) :
    (Chain.fresh z hn : Chain α n).content = [] := by
  simp [Chain.content, Chain.fresh]

private theorem take_succ_set (l : List α) (b : α) {i : Nat} (h : i < l.length) :
    (l.set i b).take (i + 1) = l.take i ++ [b] := by
  have hlen : (l.take i).length = i := List.length_take_of_le (Nat.le_of_lt h)
  rw [List.set_eq_take_append_cons_drop, if_pos h, List.take_append, hlen,
    List.take_of_length_le (by omega), Nat.add_sub_cancel_left]
  rfl

theorem Chain.content_push (z : α) (c : Chain α n) (b : α) :
    (c.push z b).content = c.content ++ [b] := by
  have hstore : (c.tail.toList.set c.i b).take (c.i + 1) =
      c.tail.toList.take c.i ++ [b] :=
    take_succ_set _ b (by simpa using c.i_lt)
  unfold Chain.push
  split
  · simp [Chain.content, Vector.toList_set, hstore]
  · -- the index reached the block size: the block just filled is kept whole
    have hfull : c.i + 1 = n := by have := c.i_lt; omega
    have hwhole : c.tail.toList.set c.i b = c.tail.toList.take c.i ++ [b] := by
      rw [← hstore, List.take_of_length_le (by simp [hfull])]
    simp [Chain.content, Chain.store, Vector.toList_set, hwhole]

/-- Pushing a whole sequence appends it to the content. -/
theorem Chain.content_foldl_push (z : α) (l : List α) :
    ∀ c : Chain α n, (l.foldl (Chain.push z) c).content = c.content ++ l := by
  induction l with
  | nil => intro c; simp
  | cons b l ih =>
      intro c
      rw [List.foldl_cons, ih, Chain.content_push]
      simp

/-! ## Copying out -/

private theorem flatMap_toList_length (bs : List (Vector α n)) :
    (bs.flatMap Vector.toList).length = n * bs.length := by
  induction bs with
  | nil => simp
  | cons b bs ih =>
      simp only [List.flatMap_cons, List.length_append, Vector.length_toList, ih,
        List.length_cons, Nat.mul_succ]
      omega

theorem Chain.content_length (c : Chain α n) :
    c.content.length = n * c.full.length + c.i := by
  have := c.i_lt
  simp only [Chain.content, List.length_append, flatMap_toList_length,
    List.length_take, Vector.length_toList]
  omega

/-- The copy loop returns the first `left` elements of the concatenated blocks:
each once, in order. -/
theorem copyOut_eq_take (bs : List (Vector α n)) :
    ∀ left, copyOut bs left = (bs.flatMap Vector.toList).take left := by
  induction bs with
  | nil => intro left; simp [copyOut]
  | cons b bs ih =>
      intro left
      rw [copyOut, ih, List.flatMap_cons, List.take_append, Vector.length_toList]
      rcases Nat.le_total left n with h | h
      · simp [Nat.min_eq_left h, Nat.sub_eq_zero_of_le h]
      · rw [Nat.min_eq_right h, List.take_of_length_le (l := b.toList) (by simp),
          List.take_of_length_le (l := b.toList) (by simpa using h)]

/-- **Exact reassembly.**  Storing a last element and copying out one more than
the content gives back the content and that element, at every length. -/
theorem Chain.copyOut_store (c : Chain α n) (b : α) :
    copyOut (c.store b) (c.content.length + 1) = c.content ++ [b] := by
  have hstore : (c.tail.toList.set c.i b).take (c.i + 1) =
      c.tail.toList.take c.i ++ [b] :=
    take_succ_set _ b (by simpa using c.i_lt)
  have hlen : c.content.length + 1 - (c.full.flatMap Vector.toList).length =
      c.i + 1 := by
    rw [c.content_length, flatMap_toList_length]
    omega
  have hfull : (c.full.flatMap Vector.toList).length ≤ c.content.length + 1 := by
    rw [c.content_length, flatMap_toList_length]
    omega
  rw [copyOut_eq_take, Chain.store, List.flatMap_append, List.take_append, hlen,
    List.take_of_length_le hfull]
  simp [Vector.toList_set, hstore, Chain.content]

/-! ## Copying into a buffer -/

/-- One copy: the first `len` elements of a block, to the cells from `p` on. -/
structure Copy (α : Type) (n : Nat) where
  p : Nat
  block : Vector α n
  len : Nat

/-- What is copied. -/
def Copy.piece (c : Copy α n) : List α := c.block.toList.take c.len

/-- The copy is done only if it leaves neither the block nor the buffer. -/
def Copy.run (buf : List α) (c : Copy α n) : Option (List α) :=
  if c.len ≤ n ∧ c.p + c.len ≤ buf.length then
    some (buf.take c.p ++ (c.piece ++ buf.drop (c.p + c.len)))
  else none

/-- The copies out of a list of blocks, of `left` elements to the cells from `p` on. -/
def copies : List (Vector α n) → Nat → Nat → List (Copy α n)
  | [], _, _ => []
  | block :: rest, p, left =>
      ⟨p, block, min left n⟩ :: copies rest (p + min left n) (left - min left n)

/-- Every element is in one copy, in its order. -/
theorem flatMap_piece_copies (bs : List (Vector α n)) :
    ∀ p left, (copies bs p left).flatMap Copy.piece = copyOut bs left := by
  induction bs with
  | nil => intro p left; rfl
  | cons b bs ih =>
      intro p left
      rw [copies, List.flatMap_cons, ih, copyOut]
      rfl

/-- No copy leaves its block or the cells there are to fill. -/
theorem copies_within {bs : List (Vector α n)} :
    ∀ {p left : Nat}, ∀ c ∈ copies bs p left, c.len ≤ n ∧ c.p + c.len ≤ p + left := by
  induction bs with
  | nil =>
      intro p left c hc
      cases hc
  | cons b bs ih =>
      intro p left c hc
      rcases List.mem_cons.mp hc with rfl | hc
      · exact ⟨Nat.min_le_right left n, Nat.add_le_add_left (Nat.min_le_left left n) p⟩
      · obtain ⟨hlen, hbuf⟩ := ih c hc
        exact ⟨hlen, by omega⟩

theorem length_copyOut (bs : List (Vector α n)) (left : Nat) :
    (copyOut bs left).length = min left (n * bs.length) := by
  rw [copyOut_eq_take, List.length_take, flatMap_toList_length]

/-- The copies fill the cells behind what has been copied. -/
private theorem foldlM_copies (bs : List (Vector α n)) :
    ∀ copied cells : List α,
      (copies bs copied.length cells.length).foldlM Copy.run (copied ++ cells) =
        some (copied ++ (copyOut bs cells.length ++
          cells.drop (copyOut bs cells.length).length)) := by
  induction bs with
  | nil => intro copied cells; rfl
  | cons b bs ih =>
      intro copied cells
      have hpiece : (b.toList.take (min cells.length n)).length =
          min cells.length n := by
        refine List.length_take_of_le ?_
        rw [Vector.length_toList]
        exact Nat.min_le_right _ n
      have hrun : Copy.run (copied ++ cells) ⟨copied.length, b, min cells.length n⟩ =
          some ((copied ++ b.toList.take (min cells.length n)) ++
            cells.drop (min cells.length n)) := by
        have hcells :
            copied.length + min cells.length n ≤ (copied ++ cells).length := by
          rw [List.length_append]
          exact Nat.add_le_add_left (Nat.min_le_left _ n) _
        rw [Copy.run, if_pos ⟨Nat.min_le_right _ n, hcells⟩, List.take_left,
          List.drop_append, List.append_assoc]
        simp [Copy.piece]
      have hrest := ih (copied ++ b.toList.take (min cells.length n))
        (cells.drop (min cells.length n))
      rw [List.length_append, hpiece, List.length_drop] at hrest
      rw [copies, List.foldlM_cons, hrun]
      show (copies bs (copied.length + min cells.length n)
        (cells.length - min cells.length n)).foldlM Copy.run _ = _
      rw [hrest, copyOut, List.length_append, hpiece, List.drop_drop, List.append_assoc,
        List.append_assoc]

/-- **The copies stay within the blocks and the buffer and fill the buffer**, if the
blocks hold that many elements. -/
theorem run_copies {bs : List (Vector α n)} {buf : List α}
    (h : buf.length ≤ n * bs.length) :
    (copies bs 0 buf.length).foldlM Copy.run buf = some (copyOut bs buf.length) := by
  have hfill := foldlM_copies bs [] buf
  rw [List.length_nil, List.nil_append] at hfill
  rw [hfill, length_copyOut, Nat.min_eq_left h, List.drop_length, List.append_nil]
  rfl

end LibStomp.Verified.BlockChain
