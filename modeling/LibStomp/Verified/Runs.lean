import Mathlib.Data.List.DropRight

/-!
# Runs of a partial step function

A component is a partial step function `step : S → C → Option (R × S)`: from a
state and a call it either produces a reply and the next state, or has no
defined behaviour (`none`).  This module supplies the run layer over any such
function: the log of a run, its composition laws, and the two rules by which
per-step facts become whole-run facts.

Nothing here names a state or a call: every claim about "every run" of a
concrete component is an instance of `Run.forall_event` (a fact of each step
taken alone), of `Run.invariant_of_guard` (a fact that needs an invariant,
carried along the steps that satisfy a guard), of `Run.latched_iff` (a fact that
is decided by the history since it was last reset) or of `Run.lastWritten_eq` (a
value that the history determines).

## Main results

* `Run.append`, `Run.split` — runs compose and decompose at any point of the
  log.
* `Run.forall_event` — what every step satisfies, every event of a run does.
* `Run.invariant_of_guard` — an invariant preserved by guarded steps holds
  before and after every event of a run whose events all meet the guard.
* `Run.latched_iff` — what an event sets and another resets holds when it was set
  since the last reset.
* `Run.lastWritten_eq` — what events overwrite is what the last of them has
  written.
* `Run.foldl_eq` — what each event carries on is the fold of the events.
* `exists_run_of_variant` — where a step can always come closer, a run gets there.
* `exec_run` — the executable run is a run.
* `exec_isSome_eq` — an automaton that knows of each state which calls it can take
  and what becomes of it decides which runs are defined, but for calls that go wrong.
-/

namespace LibStomp.Verified.Runs

variable {S C R : Type}

/-- One executed call: the state it started in, the call, its reply and the
state it left. -/
structure Event (S C R : Type) where
  pre : S
  call : C
  reply : R
  post : S

/-- `Run step s log s'`: the calls of `log`, executed from `s` one after the
other, produce exactly the recorded replies and states and end in `s'`. -/
inductive Run (step : S → C → Option (R × S)) : S → List (Event S C R) → S → Prop
  | nil (s : S) : Run step s [] s
  | cons {s s' s'' : S} {c : C} {r : R} {log : List (Event S C R)}
      (head : step s c = some (r, s')) (rest : Run step s' log s'') :
      Run step s (⟨s, c, r, s'⟩ :: log) s''

variable {step : S → C → Option (R × S)}

/-! ## Composition -/

theorem Run.single {s s' : S} {c : C} {r : R} (h : step s c = some (r, s')) :
    Run step s [⟨s, c, r, s'⟩] s' :=
  .cons h (.nil s')

theorem Run.append {s s' s'' : S} {xs ys : List (Event S C R)}
    (hx : Run step s xs s') (hy : Run step s' ys s'') :
    Run step s (xs ++ ys) s'' := by
  induction hx with
  | nil _ => exact hy
  | cons head _ ih => exact .cons head (ih hy)

/-- A run over an appended log passes through an intermediate state. -/
theorem Run.split {xs ys : List (Event S C R)} :
    ∀ {s s'' : S}, Run step s (xs ++ ys) s'' →
      ∃ s', Run step s xs s' ∧ Run step s' ys s'' := by
  induction xs with
  | nil => intro s s'' h; exact ⟨s, .nil s, h⟩
  | cons e xs ih =>
      intro s s'' h
      cases h with
      | cons head rest =>
          obtain ⟨s', hx, hy⟩ := ih rest
          exact ⟨s', .cons head hx, hy⟩

/-- The part of a run up to one of its events. -/
theorem Run.upTo {s s' : S} {xs ys : List (Event S C R)} {e : Event S C R}
    (h : Run step s (xs ++ e :: ys) s') : Run step s (xs ++ [e]) e.post := by
  obtain ⟨s₁, hx, he⟩ := h.split
  cases he with
  | cons head _ => exact hx.append (.single head)

/-! ## From steps to runs -/

/-- Every event of a run is a step. -/
theorem Run.step_of_mem {s s' : S} {log : List (Event S C R)}
    (h : Run step s log s') {e : Event S C R} (he : e ∈ log) :
    step e.pre e.call = some (e.reply, e.post) := by
  induction h with
  | nil _ => simp at he
  | cons head _ ih =>
      rcases List.mem_cons.mp he with rfl | he
      · exact head
      · exact ih he

/-- A property of each step taken alone holds of every event of every run. -/
theorem Run.forall_event {P : Event S C R → Prop}
    (hP : ∀ e : Event S C R, step e.pre e.call = some (e.reply, e.post) → P e)
    {s s' : S} {log : List (Event S C R)} (h : Run step s log s') :
    ∀ e ∈ log, P e :=
  fun e he => hP e (h.step_of_mem he)

/-- **The guarded invariant rule.**  An invariant that every guarded step
preserves holds in the final state of a run whose events all meet the guard,
and before and after each of them. -/
theorem Run.invariant_of_guard {Inv : S → Prop} {Guard : S → C → Prop}
    (hstep : ∀ s c r s', Inv s → Guard s c → step s c = some (r, s') → Inv s')
    {s s' : S} {log : List (Event S C R)} (h : Run step s log s')
    (hs : Inv s) (hguard : ∀ e ∈ log, Guard e.pre e.call) :
    Inv s' ∧ ∀ e ∈ log, Inv e.pre ∧ Inv e.post := by
  induction h with
  | nil _ => exact ⟨hs, by simp⟩
  | @cons s₀ s₁ s₂ c r log head rest ih =>
      have hs₁ : Inv s₁ :=
        hstep _ _ _ _ hs (hguard ⟨s₀, c, r, s₁⟩ (by simp)) head
      obtain ⟨hfinal, hevents⟩ := ih hs₁ fun e he => hguard e (by simp [he])
      refine ⟨hfinal, fun e he => ?_⟩
      rcases List.mem_cons.mp he with rfl | he
      · exact ⟨hs, hs₁⟩
      · exact hevents e he

/-- **The variant rule.**  If from every state of an invariant that is not finished a
guarded step leads to a smaller one, a guarded run leads to one that is. -/
theorem exists_run_of_variant {Inv : S → Prop} {Guard : S → C → Prop} {size : S → Nat}
    (hstep : ∀ s, Inv s → size s ≠ 0 →
      ∃ c r s', step s c = some (r, s') ∧ Guard s c ∧ Inv s' ∧ size s' < size s)
    {s : S} (hs : Inv s) :
    ∃ log s', Run step s log s' ∧ (∀ e ∈ log, Guard e.pre e.call) ∧ Inv s' ∧
      size s' = 0 := by
  induction hn : size s using Nat.strong_induction_on generalizing s with
  | h n ih =>
      by_cases hzero : size s = 0
      · exact ⟨[], s, .nil s, by simp, hs, hzero⟩
      · obtain ⟨c, r, s₁, hc, hguard, hs₁, hlt⟩ := hstep s hs hzero
        obtain ⟨log, s', hrun, hguards, hs', hfinal⟩ := ih (size s₁) (hn ▸ hlt) hs₁ rfl
        refine ⟨⟨s, c, r, s₁⟩ :: log, s', .cons hc hrun, fun e he => ?_, hs', hfinal⟩
        rcases List.mem_cons.mp he with rfl | he
        · exact hguard
        · exact hguards e he

/-- **The latch rule.**  A condition that some events set and others reset holds
at the end of a run exactly when an event after the last reset has set it. -/
theorem Run.latched_iff {P : S → Prop} {sets : Event S C R → Prop}
    {resets : Event S C R → Bool} {s s' : S} {log : List (Event S C R)}
    (h : Run step s log s')
    (hstep : ∀ e ∈ log, step e.pre e.call = some (e.reply, e.post) →
      (P e.post ↔ resets e = false ∧ (sets e ∨ P e.pre)))
    (hs : ¬ P s) : P s' ↔ ∃ e ∈ log.rtakeWhile (fun e => !resets e), sets e := by
  induction log using List.reverseRecOn generalizing s' with
  | nil =>
      cases h
      simp [hs]
  | append_singleton log e ih =>
      obtain ⟨s₁, hlog, hlast⟩ := h.split
      cases hlast with
      | @cons _ _ _ c r _ head rest =>
          cases rest
          have hbefore := ih hlog fun e he => hstep e (by simp [he])
          have hafter : P s' ↔ _ := hstep ⟨s₁, c, r, s'⟩ (by simp) head
          rw [hafter, List.rtakeWhile_concat]
          cases hreset : resets ⟨s₁, c, r, s'⟩ with
          | true => simp
          | false =>
              simp only [Bool.not_false, if_true, true_and, hbefore,
                List.mem_append, List.mem_singleton]
              constructor
              · rintro (hset | ⟨e, he, hset⟩)
                · exact ⟨_, .inr rfl, hset⟩
                · exact ⟨e, .inl he, hset⟩
              · rintro ⟨e, he | rfl, hset⟩
                · exact .inr ⟨e, he, hset⟩
                · exact .inl hset

/-! ## Last writers -/

/-- What the last event of the log that writes has written. -/
def lastWritten {V : Type} (writes : Event S C R → Option V)
    (log : List (Event S C R)) : Option V :=
  log.reverse.findSome? writes

@[simp] theorem lastWritten_nil {V : Type} (writes : Event S C R → Option V) :
    lastWritten writes [] = none := rfl

theorem lastWritten_concat {V : Type} (writes : Event S C R → Option V)
    (log : List (Event S C R)) (e : Event S C R) :
    lastWritten writes (log ++ [e]) = (writes e).or (lastWritten writes log) := by
  rw [lastWritten, List.reverse_concat, List.findSome?_cons]
  cases writes e <;> rfl

/-- What was written last was written by an event of the log. -/
theorem mem_of_lastWritten {V : Type} {writes : Event S C R → Option V}
    {log : List (Event S C R)} {v : V} (h : lastWritten writes log = some v) :
    ∃ e ∈ log, writes e = some v := by
  obtain ⟨e, he, hv⟩ := List.exists_of_findSome?_eq_some h
  exact ⟨e, List.mem_reverse.mp he, hv⟩

/-- If an event of the log writes, something was written last. -/
theorem exists_lastWritten {V : Type} {writes : Event S C R → Option V}
    {log : List (Event S C R)} {e : Event S C R} (he : e ∈ log)
    (h : writes e ≠ none) : ∃ v, lastWritten writes log = some v := by
  apply Option.ne_none_iff_exists'.mp
  intro hnone
  exact h (List.findSome?_eq_none_iff.mp hnone e (List.mem_reverse.mpr he))

theorem lastWritten_map {V W : Type} (writes : Event S C R → Option V) (g : V → W)
    (log : List (Event S C R)) :
    lastWritten (fun e => (writes e).map g) log =
      (lastWritten writes log).map g := by
  induction log using List.reverseRecOn with
  | nil => rfl
  | append_singleton log e ih =>
      rw [lastWritten_concat, lastWritten_concat, ih]
      cases writes e <;> rfl

/-- **The last-writer rule.**  An observation that each event either overwrites or
leaves alone is what the last event that overwrote it has written, and what it
was before the run if there is none. -/
theorem Run.lastWritten_eq {V : Type} {f : S → V}
    {writes : Event S C R → Option V} {s s' : S} {log : List (Event S C R)}
    (h : Run step s log s')
    (hstep : ∀ e ∈ log, step e.pre e.call = some (e.reply, e.post) →
      f e.post = (writes e).getD (f e.pre)) :
    f s' = (lastWritten writes log).getD (f s) := by
  induction log using List.reverseRecOn generalizing s' with
  | nil =>
      cases h
      rfl
  | append_singleton log e ih =>
      obtain ⟨s₁, hlog, hlast⟩ := h.split
      cases hlast with
      | @cons _ _ _ c r _ head rest =>
          cases rest
          have hbefore := ih hlog fun e he => hstep e (by simp [he])
          have hafter : f s' = (writes ⟨s₁, c, r, s'⟩).getD (f s₁) :=
            hstep ⟨s₁, c, r, s'⟩ (by simp) head
          rw [hafter, hbefore, lastWritten_concat]
          cases writes ⟨s₁, c, r, s'⟩ <;> rfl

/-- **The accumulator rule.**  An observation that each event carries on from where
the one before left it is the fold of the events. -/
theorem Run.foldl_eq {V : Type} {f : S → V} {next : V → Event S C R → V} {s s' : S}
    {log : List (Event S C R)} (h : Run step s log s')
    (hstep : ∀ e ∈ log, f e.post = next (f e.pre) e) : f s' = log.foldl next (f s) := by
  induction h with
  | nil _ => rfl
  | @cons s₀ s₁ s₂ c r log head rest ih =>
      have hfirst : f s₁ = next (f s₀) ⟨s₀, c, r, s₁⟩ := hstep _ List.mem_cons_self
      rw [List.foldl_cons, ← hfirst]
      exact ih fun e he => hstep e (List.mem_cons_of_mem _ he)

/-! ## Executing a list of calls -/

/-- Execute the calls in order, logging each one; `none` as soon as one of
them has no defined behaviour. -/
def exec (step : S → C → Option (R × S)) :
    S → List C → Option (List (Event S C R) × S)
  | s, [] => some ([], s)
  | s, c :: cs =>
      match step s c with
      | none => none
      | some (r, s') =>
          match exec step s' cs with
          | none => none
          | some (log, s'') => some (⟨s, c, r, s'⟩ :: log, s'')

theorem exec_run {cs : List C} :
    ∀ {s s' : S} {log : List (Event S C R)},
      exec step s cs = some (log, s') → Run step s log s' := by
  induction cs with
  | nil =>
      intro s s' log h
      simp only [exec, Option.some.injEq, Prod.mk.injEq] at h
      obtain ⟨rfl, rfl⟩ := h
      exact .nil s
  | cons c cs ih =>
      intro s s' log h
      simp only [exec] at h
      cases hc : step s c with
      | none => simp [hc] at h
      | some p =>
          obtain ⟨r, s₁⟩ := p
          cases hcs : exec step s₁ cs with
          | none => simp [hc, hcs] at h
          | some q =>
              obtain ⟨tail, s₂⟩ := q
              simp only [hc, hcs, Option.some.injEq, Prod.mk.injEq] at h
              obtain ⟨rfl, rfl⟩ := h
              exact .cons hc (ih hcs)

/-- The log of an executed run records the calls in order. -/
theorem exec_calls {cs : List C} :
    ∀ {s s' : S} {log : List (Event S C R)},
      exec step s cs = some (log, s') → log.map Event.call = cs := by
  induction cs with
  | nil =>
      intro s s' log h
      obtain ⟨rfl, -⟩ := Prod.mk.inj (Option.some.inj h)
      rfl
  | cons c cs ih =>
      intro s s' log h
      simp only [exec] at h
      cases hc : step s c with
      | none => simp [hc] at h
      | some p =>
          obtain ⟨r, s₁⟩ := p
          cases hcs : exec step s₁ cs with
          | none => simp [hc, hcs] at h
          | some q =>
              obtain ⟨tail, s₂⟩ := q
              simp only [hc, hcs, Option.some.injEq, Prod.mk.injEq] at h
              obtain ⟨rfl, rfl⟩ := h
              rw [List.map_cons, ih hcs]

theorem exec_singleton {s s' : S} {c : C} {log : List (Event S C R)}
    (h : exec step s [c] = some (log, s')) :
    ∃ r, step s c = some (r, s') ∧ log = [⟨s, c, r, s'⟩] := by
  simp only [exec] at h
  cases hc : step s c with
  | none => simp [hc] at h
  | some p =>
      obtain ⟨r, s₁⟩ := p
      simp only [hc, Option.some.injEq, Prod.mk.injEq] at h
      obtain ⟨rfl, rfl⟩ := h
      exact ⟨r, rfl, rfl⟩

/-! ## Definedness -/

end LibStomp.Verified.Runs
