import Mathlib.Data.List.Basic

/-!
# Escaped text

A text over an alphabet `α` in which some symbols are written as two, a mark and
the letter that stands for the symbol.  Escaping makes every text longer that has
such a symbol and leaves the others alone, so a reader that does not undo it
still gets the text right exactly when there was nothing to undo.

## Main results

* `encode_eq_self_iff` — a text is its own encoding if and only if it is plain.
* `plain_of_preimages` — a set of texts that holds only encodings of its own
  members holds only plain texts.
-/

namespace LibStomp.Verified.Escaping

variable {α : Type} (mark : α) (letter : α → Option α)

/-- The text of one symbol. -/
def escapeSymbol (b : α) : List α :=
  match letter b with
  | some x => [mark, x]
  | none => [b]

/-- The text with its symbols escaped. -/
def encode (l : List α) : List α := l.flatMap (escapeSymbol mark letter)

@[simp] theorem encode_nil : encode mark letter [] = [] := rfl

@[simp] theorem encode_cons (b : α) (l : List α) :
    encode mark letter (b :: l) =
      escapeSymbol mark letter b ++ encode mark letter l := rfl

/-- No symbol of the text is escaped. -/
def Plain (l : List α) : Prop := ∀ b ∈ l, letter b = none

instance (l : List α) : Decidable (Plain letter l) :=
  inferInstanceAs (Decidable (∀ b ∈ l, letter b = none))

variable {mark letter}

/-- A symbol of an encoding is the mark, a letter, or a symbol that is not escaped. -/
theorem mem_encode {b : α} {l : List α} (h : b ∈ encode mark letter l) :
    b = mark ∨ (∃ a ∈ l, letter a = some b) ∨ b ∈ l ∧ letter b = none := by
  obtain ⟨a, ha, hb⟩ := List.mem_flatMap.mp h
  unfold escapeSymbol at hb
  cases hletter : letter a with
  | some x =>
      simp only [hletter, List.mem_cons, List.not_mem_nil, or_false] at hb
      rcases hb with rfl | rfl
      · exact .inl rfl
      · exact .inr (.inl ⟨a, ha, hletter⟩)
  | none =>
      simp only [hletter, List.mem_singleton] at hb
      subst hb
      exact .inr (.inr ⟨ha, hletter⟩)

theorem encode_of_plain {l : List α} (h : Plain letter l) :
    encode mark letter l = l := by
  induction l with
  | nil => rfl
  | cons b l ih =>
      have hb : letter b = none := h b (by simp)
      rw [encode_cons, ih fun a ha => h a (by simp [ha]), escapeSymbol, hb]
      rfl

variable (mark letter) in
theorem length_escapeSymbol (b : α) :
    1 ≤ (escapeSymbol mark letter b).length ∧
      (letter b ≠ none → 2 ≤ (escapeSymbol mark letter b).length) := by
  unfold escapeSymbol
  cases letter b with
  | some x => simp
  | none => simp

variable (mark letter) in
theorem length_le_encode (l : List α) :
    l.length ≤ (encode mark letter l).length := by
  induction l with
  | nil => simp
  | cons b l ih =>
      have hb := (length_escapeSymbol mark letter b).1
      rw [encode_cons, List.length_append, List.length_cons]
      omega

variable (mark) in
/-- A text that is not plain gets longer. -/
theorem length_lt_encode {l : List α} (h : ¬ Plain letter l) :
    l.length < (encode mark letter l).length := by
  induction l with
  | nil => exact absurd (fun b hb => nomatch hb) h
  | cons b l ih =>
      have hlen := length_escapeSymbol mark letter b
      have htail := length_le_encode mark letter l
      rw [encode_cons, List.length_append, List.length_cons]
      by_cases hb : letter b = none
      · have hrest : ¬ Plain letter l := fun hplain => h fun a ha => by
          rcases List.mem_cons.mp ha with rfl | ha
          · exact hb
          · exact hplain a ha
        have := ih hrest
        omega
      · have := hlen.2 hb
        omega

/-- **A text is its own encoding exactly when it is plain.** -/
theorem encode_eq_self_iff {l : List α} :
    encode mark letter l = l ↔ Plain letter l := by
  constructor
  · intro h
    by_contra hplain
    have hlt := length_lt_encode mark hplain
    rw [h] at hlt
    omega
  · exact encode_of_plain

/-- **If every text of a set encodes a text of the set, all of them are plain.**  By
induction on the length: a text that is not plain encodes a shorter one that is not
plain either. -/
theorem plain_of_preimages {texts : List α → Prop}
    (h : ∀ m, texts m → ∃ l, texts l ∧ encode mark letter l = m) {m : List α}
    (hm : texts m) : Plain letter m := by
  induction hn : m.length using Nat.strongRecOn generalizing m with
  | ind n ih =>
      obtain ⟨l, hl, hencode⟩ := h m hm
      by_cases hplain : Plain letter l
      · rw [← hencode, encode_of_plain hplain]
        exact hplain
      · have hlt := length_lt_encode mark hplain
        rw [hencode, hn] at hlt
        exact absurd (ih l.length hlt hl rfl) hplain

end LibStomp.Verified.Escaping
