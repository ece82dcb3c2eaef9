import Mathlib.Data.Nat.Init
import Mathlib.Tactic.ByContra

/-!
# Delimited lines and line blocks

A scanner over an arbitrary alphabet with a line delimiter `d` and a forbidden
symbol `z`.  `scanLine` cuts the first line off a sequence; `scanBlock` collects
lines until a terminating one.  What terminates a block and what a line of a
block must look like are parameters (`blank`, `good`), so that two readers of
the same text which differ in these tests alone are compared by instantiating
the same theorem twice.

Both scanners are total functions of the text and report where they stopped,
so "reads exactly this prefix" is part of every equation below.

## Main results

* `joinLines_inj`, `joinLines_flatMap_splitOn` — text is cut into lines in one way.
* `scanLine_cases` — a text is a delimited line, a line stopped at the forbidden
  symbol, or a line that ends with the text.
* `scanBlock_done_iff` — a block is accepted exactly when the text is its lines,
  each delimited, followed by a terminating line.
-/

namespace LibStomp.Verified.Lines

variable {α : Type}

/-! ## One line -/

/-- Outcome of a line scan: a line and what follows its delimiter, a stop at the
forbidden symbol and what follows it, or a text that ends first. -/
inductive LineScan (α : Type)
  | line (l rest : List α)
  | stop (l rest : List α)
  | short

/-- Symbols that may occur inside a line. -/
def Clean (d z : α) (l : List α) : Prop := d ∉ l ∧ z ∉ l

instance [DecidableEq α] (d z : α) (l : List α) : Decidable (Clean d z l) := by
  unfold Clean; infer_instance

theorem clean_nil (d z : α) : Clean d z [] := ⟨by simp, by simp⟩

theorem clean_cons {d z b : α} {l : List α} :
    Clean d z (b :: l) ↔ b ≠ d ∧ b ≠ z ∧ Clean d z l := by
  simp only [Clean, List.mem_cons, not_or]
  constructor
  · rintro ⟨⟨h1, h2⟩, h3, h4⟩; exact ⟨Ne.symm h1, Ne.symm h3, h2, h4⟩
  · rintro ⟨h1, h3, h2, h4⟩; exact ⟨⟨Ne.symm h1, h2⟩, Ne.symm h3, h4⟩

theorem clean_append {d z : α} {l m : List α} :
    Clean d z (l ++ m) ↔ Clean d z l ∧ Clean d z m := by
  simp only [Clean, List.mem_append, not_or]
  exact and_and_and_comm

/-- Where a delimiter comes before any forbidden symbol, so does the first one. -/
theorem exists_clean_line {d z : α} {l : List α} (hz : z ∉ l) (t : List α) :
    ∃ l' t', l ++ d :: t = l' ++ d :: t' ∧ Clean d z l' := by
  induction l with
  | nil => exact ⟨[], t, rfl, clean_nil d z⟩
  | cons b l ih =>
      rw [List.mem_cons, not_or] at hz
      by_cases hd : b = d
      · subst hd
        exact ⟨[], l ++ b :: t, rfl, clean_nil b z⟩
      · obtain ⟨l', t', htext, hclean⟩ := ih hz.2
        refine ⟨b :: l', t', ?_, clean_cons.mpr ⟨hd, Ne.symm hz.1, hclean⟩⟩
        rw [List.cons_append, htext]
        rfl

/-- The text of a sequence of lines, each with its delimiter. -/
def joinLines (d : α) (ls : List (List α)) : List α := ls.flatMap (· ++ [d])

@[simp] theorem joinLines_nil (d : α) : joinLines d [] = [] := rfl

theorem joinLines_cons (d : α) (l : List α) (ls : List (List α)) (t : List α) :
    joinLines d (l :: ls) ++ t = l ++ d :: (joinLines d ls ++ t) := by
  simp [joinLines]

/-- Behind lines there is nothing but lines. -/
theorem eq_nil_of_joinLines_append {d : α} {ls ls' : List (List α)} {last : List α}
    (hlast : d ∉ last) (h : joinLines d ls ++ last = joinLines d ls') : last = [] := by
  rcases List.eq_nil_or_concat last with rfl | ⟨last, b, rfl⟩
  · rfl
  rcases List.eq_nil_or_concat ls' with rfl | ⟨ls', m, rfl⟩
  · simp at h
  · have hjoin : joinLines d (ls' ++ [m]) = joinLines d ls' ++ m ++ [d] := by
      simp [joinLines]
    rw [List.concat_eq_append, List.concat_eq_append, hjoin, ← List.append_assoc] at h
    obtain rfl := (List.cons.inj (List.append_inj' h rfl).2).1
    exact absurd (by simp) hlast

/-- What comes before the first `z` of a text, and what comes behind it. -/
theorem append_cons_inj {z : α} {p q s t : List α} (hp : z ∉ p) (hq : z ∉ q)
    (h : p ++ z :: s = q ++ z :: t) : p = q ∧ s = t := by
  induction p generalizing q with
  | nil =>
      cases q with
      | nil => exact ⟨rfl, (List.cons.inj h).2⟩
      | cons c q =>
          obtain rfl := (List.cons.inj h).1
          exact absurd List.mem_cons_self hq
  | cons b p ih =>
      rw [List.mem_cons, not_or] at hp
      cases q with
      | nil => exact absurd (List.cons.inj h).1.symm hp.1
      | cons c q =>
          rw [List.mem_cons, not_or] at hq
          obtain ⟨rfl, htail⟩ := List.cons.inj h
          obtain ⟨rfl, rfl⟩ := ih hp.2 hq.2 htail
          exact ⟨rfl, rfl⟩

/-- Text without the symbol `z` put before a text and a `z` leaves the text in place
only if there is none. -/
theorem eq_nil_of_shift {z : α} {x s t : List α} (hx : z ∉ x) {p : List α}
    (h : x ++ (p ++ z :: s) = p ++ z :: t) : x = [] := by
  induction hn : p.length using Nat.strong_induction_on generalizing p with
  | _ n ih =>
      subst hn
      by_contra hne
      rcases List.append_eq_append_iff.mp h with ⟨q, rfl, hrest⟩ | ⟨q, hxp, hrest⟩
      · -- `p` starts with `x`, too, and so does what follows it there
        have hpos := List.length_pos_iff.mpr hne
        rw [List.append_assoc] at hrest
        exact hne (ih q.length (by rw [List.length_append]; omega) hrest rfl)
      · cases q with
        | nil =>
            rw [List.append_nil] at hxp
            subst hxp
            obtain ⟨b, x, rfl⟩ := List.exists_cons_of_ne_nil hne
            obtain rfl := (List.cons.inj hrest).1
            exact hx (by simp)
        | cons b q =>
            obtain rfl := (List.cons.inj hrest).1
            exact hx (by rw [hxp]; simp)

/-- Lines without the delimiter are determined by their text. -/
theorem joinLines_inj {d : α} {ls ls' : List (List α)} (h : ∀ l ∈ ls, d ∉ l)
    (h' : ∀ l ∈ ls', d ∉ l) (heq : joinLines d ls = joinLines d ls') : ls = ls' := by
  induction ls generalizing ls' with
  | nil =>
      cases ls' with
      | nil => rfl
      | cons m ls' => simp [joinLines] at heq
  | cons l ls ih =>
      cases ls' with
      | nil => simp [joinLines] at heq
      | cons m ls' =>
          rw [← List.append_nil (joinLines d (l :: ls)),
            ← List.append_nil (joinLines d (m :: ls')), joinLines_cons, joinLines_cons,
            List.append_nil, List.append_nil] at heq
          obtain ⟨rfl, hrest⟩ := append_cons_inj (h l (by simp)) (h' m (by simp)) heq
          rw [ih (fun k hk => h k (by simp [hk])) (fun k hk => h' k (by simp [hk])) hrest]

variable [DecidableEq α]

/-! ## Cutting a text -/

/-- The parts a text is cut into at the delimiter are the lines of the text. -/
theorem joinLines_splitOn (d : α) (l : List α) :
    joinLines d (l.splitOn d) = l ++ [d] := by
  induction l with
  | nil => rfl
  | cons b l ih =>
      rw [List.splitOn_cons_eq_if_modifyHead]
      obtain ⟨m, ms, hms⟩ := List.exists_cons_of_ne_nil (List.splitOn_ne_nil d l)
      rw [hms] at ih ⊢
      by_cases hb : b = d
      · subst hb
        simpa [joinLines] using ih
      · rw [if_neg (by simpa using hb), List.modifyHead_cons]
        simpa [joinLines] using ih

theorem joinLines_flatMap_splitOn (d : α) (ls : List (List α)) :
    joinLines d (ls.flatMap (·.splitOn d)) = joinLines d ls := by
  induction ls with
  | nil => rfl
  | cons l ls ih =>
      have hl := joinLines_splitOn d l
      unfold joinLines at ih hl ⊢
      rw [List.flatMap_cons, List.flatMap_append, ih, hl, List.flatMap_cons]

/-- No part has a delimiter. -/
theorem notMem_of_mem_splitOn {d : α} {l m : List α} (h : m ∈ l.splitOn d) : d ∉ m := by
  induction l generalizing m with
  | nil =>
      obtain rfl := List.mem_singleton.mp h
      exact List.not_mem_nil
  | cons b l ih =>
      rw [List.splitOn_cons_eq_if_modifyHead] at h
      obtain ⟨k, ks, hks⟩ := List.exists_cons_of_ne_nil (List.splitOn_ne_nil d l)
      rw [hks] at h ih
      by_cases hb : b = d
      · subst hb
        rw [if_pos (by simp), List.mem_cons] at h
        rcases h with rfl | h
        · exact List.not_mem_nil
        · exact ih h
      · rw [if_neg (by simpa using hb), List.modifyHead_cons, List.mem_cons] at h
        rcases h with rfl | h
        · rw [List.mem_cons, not_or]
          exact ⟨Ne.symm hb, ih (by simp)⟩
        · exact ih (by simp [h])

/-- The symbols of a part are symbols of the text. -/
theorem mem_of_mem_splitOn {d b : α} {l m : List α} (h : m ∈ l.splitOn d)
    (hb : b ∈ m) : b ∈ l := by
  have htext : b ∈ l ++ [d] := by
    rw [← joinLines_splitOn]
    exact List.mem_flatMap.mpr ⟨m, h, by simp [hb]⟩
  rcases List.mem_append.mp htext with hl | hd
  · exact hl
  · obtain rfl := List.mem_singleton.mp hd
    exact absurd hb (notMem_of_mem_splitOn h)

/-- The first part is what comes before the first delimiter. -/
theorem splitOn_eq_cons (d : α) (l : List α) :
    l.splitOn d = l.takeWhile (· != d) :: (l.splitOn d).tail := by
  induction l with
  | nil => rfl
  | cons b l ih =>
      rw [List.splitOn_cons_eq_if_modifyHead]
      by_cases hb : b = d
      · subst hb
        rw [if_pos (by simp), List.takeWhile_cons_of_neg (by simp), List.tail_cons]
      · rw [if_neg (by simpa using hb), ih, List.modifyHead_cons, List.tail_cons,
          List.takeWhile_cons_of_pos (by simpa using hb)]

/-! ## Scanning one line -/

/-- Scan to the first delimiter `d`, or to a `z` before it. -/
def scanLine (d z : α) : List α → LineScan α
  | [] => .short
  | b :: bs =>
      if b = d then .line [] bs
      else if b = z then .stop [] bs
      else
        match scanLine d z bs with
        | .line l rest => .line (b :: l) rest
        | .stop l rest => .stop (b :: l) rest
        | .short => .short

/-- A clean line and its delimiter are scanned off whatever follows. -/
theorem scanLine_append {d z : α} {l : List α} (h : Clean d z l) (t : List α) :
    scanLine d z (l ++ d :: t) = .line l t := by
  induction l with
  | nil => simp [scanLine]
  | cons b l ih =>
      obtain ⟨hd, hz, hl⟩ := clean_cons.mp h
      simp [scanLine, hd, hz, ih hl]

theorem scanLine_append_stop {d z : α} {l : List α} (hne : z ≠ d)
    (h : Clean d z l)
    (t : List α) : scanLine d z (l ++ z :: t) = .stop l t := by
  induction l with
  | nil => simp [scanLine, hne]
  | cons b l ih =>
      obtain ⟨hd, hz, hl⟩ := clean_cons.mp h
      simp [scanLine, hd, hz, ih hl]

theorem scanLine_clean {d z : α} {l : List α} (h : Clean d z l) :
    scanLine d z l = .short := by
  induction l with
  | nil => rfl
  | cons b l ih =>
      obtain ⟨hd, hz, hl⟩ := clean_cons.mp h
      simp [scanLine, hd, hz, ih hl]

/-- Every text is of exactly one of the three shapes. -/
theorem scanLine_cases (d z : α) (s : List α) :
    (∃ l t, s = l ++ d :: t ∧ Clean d z l) ∨
      (∃ l t, s = l ++ z :: t ∧ Clean d z l ∧ z ≠ d) ∨ Clean d z s := by
  induction s with
  | nil => exact .inr (.inr (clean_nil d z))
  | cons b s ih =>
      by_cases hd : b = d
      · subst hd; exact .inl ⟨[], s, rfl, clean_nil _ z⟩
      by_cases hz : b = z
      · subst hz; exact .inr (.inl ⟨[], s, rfl, clean_nil d _, hd⟩)
      rcases ih with ⟨l, t, rfl, hl⟩ | ⟨l, t, rfl, hl, hne⟩ | hs
      · exact .inl ⟨b :: l, t, rfl, clean_cons.mpr ⟨hd, hz, hl⟩⟩
      · exact .inr (.inl ⟨b :: l, t, rfl, clean_cons.mpr ⟨hd, hz, hl⟩, hne⟩)
      · exact .inr (.inr (clean_cons.mpr ⟨hd, hz, hs⟩))

theorem scanLine_line_iff {d z : α} {s l t : List α} :
    scanLine d z s = .line l t ↔ s = l ++ d :: t ∧ Clean d z l := by
  constructor
  · intro h
    rcases scanLine_cases d z s with
      ⟨l', t', rfl, hl⟩ | ⟨l', t', rfl, hl, hne⟩ | hs
    · rw [scanLine_append hl] at h
      obtain ⟨rfl, rfl⟩ := LineScan.line.inj h
      exact ⟨rfl, hl⟩
    · rw [scanLine_append_stop hne hl] at h; cases h
    · rw [scanLine_clean hs] at h; cases h
  · rintro ⟨rfl, hl⟩
    exact scanLine_append hl t

theorem scanLine_stop {d z : α} {s l t : List α} (h : scanLine d z s = .stop l t) :
    s = l ++ z :: t := by
  rcases scanLine_cases d z s with
    ⟨l', t', rfl, hl⟩ | ⟨l', t', rfl, hl, hne⟩ | hs
  · rw [scanLine_append hl] at h; cases h
  · rw [scanLine_append_stop hne hl] at h
    obtain ⟨rfl, rfl⟩ := LineScan.stop.inj h
    rfl
  · rw [scanLine_clean hs] at h; cases h

/-! ## A block of lines -/

/-- Outcome of a block scan: the lines, the line that ended the block and what
follows it; a text refused after `used` symbols; or a text that ends first. -/
inductive BlockScan (α : Type)
  | done (lines : List (List α)) (last rest : List α)
  | refused (rest : List α)
  | short

/-- Collect lines until one satisfies `blank`; a line that is neither `blank` nor
`good`, and a forbidden symbol, are refused. -/
def scanBlockFuel (d z : α) (blank good : List α → Bool) :
    Nat → List α → BlockScan α
  | 0, _ => .short
  | fuel + 1, s =>
      match scanLine d z s with
      | .short => .short
      | .stop _ t => .refused t
      | .line l t =>
          if blank l then .done [] l t
          else if good l then
            match scanBlockFuel d z blank good fuel t with
            | .done ls last rest => .done (l :: ls) last rest
            | .refused rest => .refused rest
            | .short => .short
          else .refused t

/-- The block scan; each line consumes at least its delimiter, so the length of
the text bounds the number of rounds. -/
def scanBlock (d z : α) (blank good : List α → Bool) (s : List α) : BlockScan α :=
  scanBlockFuel d z blank good (s.length + 1) s

variable {d z : α} {blank good : List α → Bool}

/-- Rounds beyond the length of the text change nothing. -/
theorem scanBlockFuel_stable {fuel fuel' : Nat} :
    ∀ {s : List α}, s.length < fuel → s.length < fuel' →
      scanBlockFuel d z blank good fuel s =
        scanBlockFuel d z blank good fuel' s := by
  induction fuel generalizing fuel' with
  | zero => intro s h; omega
  | succ fuel ih =>
      intro s h h'
      obtain ⟨fuel', rfl⟩ : ∃ k, fuel' = k + 1 := ⟨fuel' - 1, by omega⟩
      simp only [scanBlockFuel]
      cases hs : scanLine d z s with
      | short => rfl
      | stop l t => rfl
      | line l t =>
          obtain ⟨rfl, -⟩ := scanLine_line_iff.mp hs
          simp only [List.length_append, List.length_cons] at h h'
          have hrec : scanBlockFuel d z blank good fuel t =
              scanBlockFuel d z blank good fuel' t := ih (by omega) (by omega)
          simp only [hrec]

/-- The block scan, one line at a time. -/
theorem scanBlock_eq (s : List α) :
    scanBlock d z blank good s =
      match scanLine d z s with
      | .short => .short
      | .stop _ t => .refused t
      | .line l t =>
          if blank l then .done [] l t
          else if good l then
            match scanBlock d z blank good t with
            | .done ls last rest => .done (l :: ls) last rest
            | .refused rest => .refused rest
            | .short => .short
          else .refused t := by
  rw [scanBlock, scanBlockFuel]
  cases hs : scanLine d z s with
  | short => rfl
  | stop l t => rfl
  | line l t =>
      obtain ⟨rfl, -⟩ := scanLine_line_iff.mp hs
      have hrec : scanBlockFuel d z blank good (l ++ d :: t).length t =
          scanBlock d z blank good t :=
        scanBlockFuel_stable
          (by simp only [List.length_append, List.length_cons]; omega) (by omega)
      simp only [hrec]

/-- A line a block may hold. -/
def IsEntry (d z : α) (blank good : List α → Bool) (l : List α) : Prop :=
  Clean d z l ∧ blank l = false ∧ good l = true

instance (l : List α) : Decidable (IsEntry d z blank good l) :=
  inferInstanceAs (Decidable (Clean d z l ∧ blank l = false ∧ good l = true))

/-- The lines of a block are scanned off whatever follows them. -/
theorem scanBlock_append {ls : List (List α)}
    (h : ∀ l ∈ ls, IsEntry d z blank good l) (t : List α) :
    scanBlock d z blank good (joinLines d ls ++ t) =
      match scanBlock d z blank good t with
      | .done ls' last rest => .done (ls ++ ls') last rest
      | .refused rest => .refused rest
      | .short => .short := by
  induction ls with
  | nil =>
      rw [joinLines_nil, List.nil_append]
      cases scanBlock d z blank good t <;> rfl
  | cons l ls ih =>
      obtain ⟨hclean, hblank, hgood⟩ := h l (by simp)
      rw [joinLines_cons, scanBlock_eq, scanLine_append hclean]
      simp only [hblank, hgood, Bool.false_eq_true, if_false, if_true]
      rw [ih fun l hl => h l (by simp [hl])]
      cases scanBlock d z blank good t <;> rfl

theorem scanBlock_blank {last : List α} (h : Clean d z last)
    (hb : blank last = true)
    (t : List α) : scanBlock d z blank good (last ++ d :: t) =
      .done [] last t := by
  rw [scanBlock_eq, scanLine_append h]
  simp [hb]

/-- Behind lines that a block may hold, a terminating line ends the block, unless one of
them has ended it before. -/
theorem scanBlock_ends {ls : List (List α)} {l : List α}
    (hls : ∀ m ∈ ls, Clean d z m ∧ good m = true) (hl : Clean d z l)
    (hb : blank l = true) (rest : List α) :
    ∃ ls' last rest', last ∈ ls ++ [l] ∧
      scanBlock d z blank good (joinLines d ls ++ (l ++ d :: rest)) =
        .done ls' last rest' := by
  induction ls with
  | nil => exact ⟨[], l, rest, by simp, scanBlock_blank hl hb rest⟩
  | cons m ls ih =>
      obtain ⟨hclean, hgood⟩ := hls m (by simp)
      rw [joinLines_cons, scanBlock_eq, scanLine_append hclean]
      simp only [hgood, if_true]
      cases hm : blank m with
      | true => exact ⟨[], m, _, by simp, rfl⟩
      | false =>
          obtain ⟨ls', last, rest', hlast, hscan⟩ :=
            ih fun m' hm' => hls m' (List.mem_cons_of_mem m hm')
          refine ⟨m :: ls', last, rest', List.mem_cons_of_mem m hlast, ?_⟩
          simp only [hscan, Bool.false_eq_true, if_false]

/-- **A block is accepted exactly when the text is its lines followed by a
terminating line.** -/
theorem scanBlock_done_iff {s last rest : List α} {ls : List (List α)} :
    scanBlock d z blank good s = .done ls last rest ↔
      s = joinLines d ls ++ last ++ d :: rest ∧
        (∀ l ∈ ls, IsEntry d z blank good l) ∧ Clean d z last ∧
          blank last = true := by
  constructor
  · -- the text shrinks by one line per round
    intro h
    induction ls generalizing s with
    | nil =>
        rw [scanBlock_eq] at h
        cases hs : scanLine d z s with
        | short => simp [hs] at h
        | stop l t => simp [hs] at h
        | line l t =>
            obtain ⟨rfl, hclean⟩ := scanLine_line_iff.mp hs
            simp only [hs] at h
            split at h
            · rename_i hb
              simp only [BlockScan.done.injEq, true_and] at h
              obtain ⟨rfl, rfl⟩ := h
              exact ⟨by simp, by simp, hclean, hb⟩
            · split at h
              · split at h <;> simp at h
              · cases h
    | cons l₀ ls ih =>
        rw [scanBlock_eq] at h
        cases hs : scanLine d z s with
        | short => simp [hs] at h
        | stop l t => simp [hs] at h
        | line l t =>
            obtain ⟨rfl, hclean⟩ := scanLine_line_iff.mp hs
            simp only [hs] at h
            split at h
            · simp at h
            · rename_i hb
              split at h
              · rename_i hg
                split at h
                · rename_i ls' last' rest' hrec
                  simp only [BlockScan.done.injEq, List.cons.injEq] at h
                  obtain ⟨⟨rfl, rfl⟩, rfl, rfl⟩ := h
                  obtain ⟨rfl, hls, hlast⟩ := ih hrec
                  refine ⟨?_, ?_, hlast⟩
                  · simp [joinLines]
                  · intro m hm
                    rcases List.mem_cons.mp hm with rfl | hm
                    · exact ⟨hclean, by simpa using hb, hg⟩
                    · exact hls m hm
                · cases h
                · cases h
              · cases h
  · rintro ⟨rfl, hls, hclean, hb⟩
    rw [List.append_assoc, scanBlock_append hls, scanBlock_blank hclean hb]
    simp

/-! ## Two notions of the terminating line -/

omit [DecidableEq α] in
/-- A line of a block that more lines can end is a line of one that fewer can. -/
theorem IsEntry.narrow {blank' : List α → Bool}
    (hweak : ∀ l, blank l = true → blank' l = true) {l : List α}
    (h : IsEntry d z blank' good l) : IsEntry d z blank good l := by
  obtain ⟨hclean, hb', hgood⟩ := h
  refine ⟨hclean, ?_, hgood⟩
  cases hb : blank l with
  | false => rfl
  | true =>
      rw [hweak l hb] at hb'
      cases hb'

end LibStomp.Verified.Lines
