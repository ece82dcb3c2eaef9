import Mathlib.Data.List.Induction

/-!
# Requests and their answers

Exchanges happen one after the other; each may ask for something under a key and
may get an answer with a key.  Nothing compares the two keys.  They agree all the
same if answers are causal (by the end of each exchange no key has been answered
more often than it was asked for) and nobody who asked went without an answer:
then nothing is ever left over that a later exchange could get.

## Main results

* `own_answer` — every answer is the one that was asked for.
-/

namespace LibStomp.Verified.Matching

variable {ε κ : Type} [DecidableEq κ] (asked got : ε → Option κ)

/-- At the end of each exchange no key has been answered more often than asked for. -/
def Causal (log : List ε) : Prop :=
  ∀ p, p <+: log → ∀ k,
    p.countP (fun e => got e = some k) ≤ p.countP (fun e => asked e = some k)

variable {asked got}

theorem Causal.of_isPrefix {p log : List ε} (h : Causal asked got log)
    (hp : p <+: log) :
    Causal asked got p :=
  fun q hq => h q (hq.trans hp)

/-- **Each exchange gets what it has asked for.** -/
theorem own_answer {log : List ε} (hcausal : Causal asked got log)
    (hserved : ∀ e ∈ log, asked e ≠ none → got e ≠ none) :
    ∀ e ∈ log, asked e ≠ none → got e = asked e := by
  induction log using List.reverseRecOn with
  | nil => intro e he; cases he
  | append_singleton log e ih =>
      have hearlier :=
        ih (hcausal.of_isPrefix (List.prefix_append log [e])) fun e' he' =>
        hserved e' (by simp [he'])
      intro e' he' hasked
      rcases List.mem_append.mp he' with he' | he'
      · exact hearlier e' he' hasked
      · obtain rfl := List.mem_singleton.mp he'
        obtain ⟨k, hk⟩ :=
          Option.ne_none_iff_exists'.mp (hserved e' (by simp) hasked)
        -- what was asked for under `k` before has been answered already
        have hbefore : log.countP (fun e => asked e = some k) ≤
            log.countP (fun e => got e = some k) := by
          refine List.countP_mono_left fun e he h => ?_
          have hask : asked e = some k := of_decide_eq_true h
          rw [← hask, hearlier e he (by simp [hask])]
          exact decide_eq_true rfl
        have hcount := hcausal _ (List.prefix_refl _) k
        rw [List.countP_append, List.countP_append, List.countP_singleton,
          List.countP_singleton, if_pos (decide_eq_true hk)] at hcount
        by_contra hne
        rw [if_neg (by simpa [hk, eq_comm] using hne)] at hcount
        omega

end LibStomp.Verified.Matching
