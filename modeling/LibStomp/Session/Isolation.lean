import LibStomp.Model.Process
import LibStomp.Session.Diagnostics

/-!
# Messengers of one process do not disturb each other

The calls on the messengers of a process may come in any order, and all of them
write to the same two error records.  Since no operation looks at these records
to decide what to do, each messenger behaves as if it were alone.

## Main results

* `isolated` — in every interleaving each messenger gives the replies, and its
  connection carries the bytes, of a run of its own calls alone; the interleaving
  is defined exactly when each of these runs is.
-/

namespace LibStomp.Session.Isolation

open LibStomp.Model
open LibStomp.Verified.Runs
open LibStomp.Verified.Coupling
open LibStomp.Session.Diagnostics

/-! ## One messenger and the records around it -/

/-- A messenger with the records around it is a world. -/
theorem localStep_world (A : Apr) :
    LockStep (fun (s : Messenger × Statics) (w : World) =>
      s = (w.messenger, ⟨w.ioError, w.engine⟩)) Eq (localStep A) (step A) := by
  rintro _ w c _ rfl rfl
  show Option.Rel _ ((step A w c).map _) (step A w c)
  cases step A w c with
  | none => exact .none
  | some p => exact .some ⟨rfl, rfl⟩

/-- **The records around a messenger do not matter to it.** -/
theorem localStep_indifferent (A : Apr) :
    Indifferent (AlikeMessengers Same Eq) (localStep A) := by
  rintro s t c _ hst rfl
  have hsame := step_alike (A := A) rfl ⟨s.1, s.2.ioError, s.2.engine⟩
    ⟨t.1, t.2.ioError, t.2.engine⟩ c c hst rfl
  exact rel_map hsame fun p q hpq => ⟨hpq.1, hpq.2⟩

/-- What a messenger does alone, as a run of `step`. -/
theorem exec_localStep (A : Apr) (m : Messenger) (s : Statics) (calls : List Call) :
    Option.Rel (SameRun (fun (s : Messenger × Statics) (w : World) =>
        s = (w.messenger, ⟨w.ioError, w.engine⟩)) Eq)
      (exec (localStep A) (m, s) calls)
      (exec (step A) ⟨m, s.ioError, s.engine⟩ calls) :=
  exec_lockStep (localStep_world A) (List.forall₂_same.mpr fun _ _ => rfl) rfl

/-! ## The main result -/

/-- The messenger `i` gives in the run what it gives alone, whatever is in the static
records at the start. -/
def AsAlone (A : Apr) {I : Type} [DecidableEq I] (p p' : Process I)
    (calls : List (I × Call)) (log : List (Event (Process I) (I × Call) Reply))
    (i : I) : Prop :=
  ∀ statics : Statics, ∃ alone w,
    exec (step A) ⟨p.own i, statics.ioError, statics.engine⟩ (callsTo i calls) =
        some (alone, w) ∧
      alone.map Event.reply = repliesOf i log ∧
      AlikeMessengers Same Eq (p'.own i) w.messenger

/-- **Messengers are isolated.**  For every process, every interleaving of calls on its
messengers and every behaviour of all the sockets and peers: the run is defined
exactly when the calls on each messenger are when made alone; and each messenger
replies as it does alone and ends up alike, with the same bytes sent and unread
on its connection. -/
theorem isolated (A : Apr) {I : Type} [DecidableEq I] (p : Process I)
    (calls : List (I × Call)) :
    ((exec (processStep A) p calls).isSome ↔
      ∀ i, (exec (step A) (p.world i) (callsTo i calls)).isSome) ∧
    ∀ log p', exec (processStep A) p calls = some (log, p') →
      ∀ i, AsAlone A p p' calls log i := by
  constructor
  · have hreflexive : ∀ m, AlikeMessengers Same Eq m m :=
      alikeMessengers_refl same_refl (fun _ => rfl)
    refine (interleave_isSome hreflexive (localStep_indifferent A)).trans ?_
    refine forall_congr' fun i => ?_
    rw [isSome_of_rel (exec_localStep A (p.own i) p.common (callsTo i calls))]
    rfl
  · intro log p' hrun i statics
    obtain ⟨alone, q, halone, hreplies, hfinal⟩ :=
      interleave_project (localStep_indifferent A) i statics hrun
        (alikeMessengers_refl same_refl (fun _ => rfl) (p.own i))
    have hsame := exec_localStep A (p.own i) statics (callsTo i calls)
    rw [halone] at hsame
    obtain ⟨⟨alone', w⟩, hworld, hrel⟩ := eq_some_of_rel hsame
    refine ⟨alone', w, hworld, hrel.replies.symm.trans hreplies, ?_⟩
    have hq : q = (w.messenger, ⟨w.ioError, w.engine⟩) := hrel.final
    rw [hq] at hfinal
    exact hfinal

/-- Two messengers, opened in alternation. -/
def twoSessions : List (Bool × Call) :=
  opening.flatMap fun c => [(true, c), (false, c)]

theorem isolated_two : ∃ log p',
    exec (processStep Apr.sample) (Process.init fun _ : Bool => 0) twoSessions =
        some (log, p') ∧
      ∀ i, AsAlone Apr.sample (Process.init fun _ : Bool => 0) p' twoSessions log i := by
  have hdefined : (exec (processStep Apr.sample) (Process.init fun _ : Bool => 0)
      twoSessions).isSome = true := by decide +kernel
  obtain ⟨⟨log, p'⟩, hrun⟩ := Option.isSome_iff_exists.mp hdefined
  exact ⟨log, p', hrun, (isolated _ _ _).2 log p' hrun⟩

end LibStomp.Session.Isolation
