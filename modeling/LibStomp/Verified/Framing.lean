import Mathlib.Data.List.Basic

/-!
# Streams of code words

A stream over an alphabet `β` is the concatenation of the code words of a list of
messages.  When no code word is the beginning of another one a reader cannot
lose the boundary: whatever it has taken off the front of a stream of messages,
word by word, are the first messages of the stream, and what is left is the
stream of the others.

## Main results

* `PrefixFree.split` — the words taken are a prefix of the words sent.
-/

namespace LibStomp.Verified.Framing

variable {α β : Type}

/-- The stream of a list of messages. -/
def streamOf (code : α → List β) (as : List α) : List β := as.flatMap code

@[simp] theorem streamOf_nil (code : α → List β) : streamOf code [] = [] := rfl

@[simp] theorem streamOf_cons (code : α → List β) (a : α) (as : List α) :
    streamOf code (a :: as) = code a ++ streamOf code as := rfl

@[simp] theorem streamOf_append (code : α → List β) (as bs : List α) :
    streamOf code (as ++ bs) = streamOf code as ++ streamOf code bs := by
  simp [streamOf]

/-- The front of a stream determines its first message. -/
structure PrefixFree (code : α → List β) : Prop where
  nonempty : ∀ a, code a ≠ []
  unique : ∀ {a b : α} {s t : List β}, code a ++ s = code b ++ t → a = b ∧ s = t

/-- **What was taken off a stream word by word are its first messages.** -/
theorem PrefixFree.split {code : α → List β} (h : PrefixFree code)
    {taken : List α} {rest : List β} :
    ∀ {sent : List α}, streamOf code taken ++ rest = streamOf code sent →
      ∃ unread, sent = taken ++ unread ∧ rest = streamOf code unread := by
  induction taken with
  | nil => intro sent hs; exact ⟨sent, rfl, hs⟩
  | cons a taken ih =>
      intro sent hs
      rw [streamOf_cons, List.append_assoc] at hs
      cases sent with
      | nil => exact absurd (List.append_eq_nil_iff.mp hs).1 (h.nonempty a)
      | cons b sent =>
          obtain ⟨rfl, hrest⟩ := h.unique hs
          obtain ⟨unread, rfl, hunread⟩ := ih hrest
          exact ⟨unread, rfl, hunread⟩

end LibStomp.Verified.Framing
