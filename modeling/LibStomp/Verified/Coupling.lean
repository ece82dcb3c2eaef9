import Mathlib.Data.List.Forall2
import Mathlib.Logic.Function.Basic
import LibStomp.Verified.Runs

/-!
# Two runs side by side

A statement that something does not matter compares two runs: of the same
program from two states, or of two programs from one.  This module supplies the
rules by which such a comparison is made one step at a time, first inside a
computation with state and errors (`Couples`), then for a partial step function
and its runs (`LockStep`, and `Simulates` where the other function is a more
abstract one), and last for several components that take their steps in any order
and share a part of their state (`interleave`).

A coupling keeps everything that can be seen: related computations return the
same value or throw the same error, related steps give the same reply, and one
of the two is defined exactly when the other is.

## Main results

* `Couples.bind`, `Couples.get_bind` — couplings compose.
* `exec_lockStep` — what one step keeps related, a run keeps related.
* `exec_simulates` — what one step of another function matches, a run of it matches.
* `run_expands` — the same where one step is matched by several.
* `interleave_project`, `interleave_isSome` — if the shared part of the state does
  not matter, every component runs as it would alone.
-/

namespace LibStomp.Verified.Coupling

open LibStomp.Verified.Runs

/-! ## Computations with state and errors -/

section Computations

variable {S T E A B : Type}

/-- The same value or the same error, and related states. -/
inductive Coupled (rel : S → T → Prop) :
    EStateM.Result E S A → EStateM.Result E T A → Prop
  | ok {s : S} {t : T} (a : A) (h : rel s t) : Coupled rel (.ok a s) (.ok a t)
  | error {s : S} {t : T} (e : E) (h : rel s t) :
      Coupled rel (.error e s) (.error e t)

/-- From related states the two computations do the same. -/
def Couples (rel : S → T → Prop) (x : EStateM E S A) (y : EStateM E T A) : Prop :=
  ∀ s t, rel s t → Coupled rel (x s) (y t)

variable {rel : S → T → Prop}

theorem couples_pure (a : A) :
    Couples rel (pure a : EStateM E S A) (pure a : EStateM E T A) :=
  fun _ _ h => .ok a h

theorem couples_throw (e : E) :
    Couples rel (throw e : EStateM E S A) (throw e : EStateM E T A) :=
  fun _ _ h => .error e h

theorem Couples.bind {x : EStateM E S A} {y : EStateM E T A}
    {f : A → EStateM E S B} {g : A → EStateM E T B} (hx : Couples rel x y)
    (hf : ∀ a, Couples rel (f a) (g a)) : Couples rel (x >>= f) (y >>= g) := by
  intro s t h
  have hresult := hx s t h
  show Coupled rel (EStateM.bind x f s) (EStateM.bind y g t)
  unfold EStateM.bind
  generalize x s = p at hresult ⊢
  generalize y t = q at hresult ⊢
  cases hresult with
  | ok a h' => exact hf a _ _ h'
  | error e h' => exact .error e h'

/-- A computation may look at its state if what it does with it is coupled. -/
theorem Couples.get_bind {f : S → EStateM E S B} {g : T → EStateM E T B}
    (hf : ∀ s t, rel s t → Couples rel (f s) (g t)) :
    Couples rel (get >>= f) (get >>= g) :=
  fun s t h => hf s t h s t h

theorem Couples.ite {p : Prop} [Decidable p] {x x' : EStateM E S A}
    {y y' : EStateM E T A} (hx : Couples rel x y) (hx' : Couples rel x' y') :
    Couples rel (if p then x else x') (if p then y else y') := by
  by_cases h : p
  · rwa [if_pos h, if_pos h]
  · rwa [if_neg h, if_neg h]

end Computations

/-! ## Steps and runs -/

section Steps

variable {S T C D R : Type}

/-- The same reply, and related states. -/
def SameReply (rel : S → T → Prop) (p : R × S) (q : R × T) : Prop :=
  p.1 = q.1 ∧ rel p.2 q.2

/-- From related states, related calls have the same reply and lead to related
states, or neither has a behaviour. -/
def LockStep (rel : S → T → Prop) (calls : C → D → Prop)
    (step : S → C → Option (R × S)) (step' : T → D → Option (R × T)) : Prop :=
  ∀ s t c d, rel s t → calls c d →
    Option.Rel (SameReply rel) (step s c) (step' t d)

/-- Two events that cannot be told apart. -/
structure SameEvent (rel : S → T → Prop) (calls : C → D → Prop)
    (e : Event S C R) (f : Event T D R) : Prop where
  pre : rel e.pre f.pre
  call : calls e.call f.call
  reply : e.reply = f.reply
  post : rel e.post f.post

/-- Two runs that cannot be told apart. -/
structure SameRun (rel : S → T → Prop) (calls : C → D → Prop)
    (p : List (Event S C R) × S) (q : List (Event T D R) × T) : Prop where
  log : List.Forall₂ (SameEvent rel calls) p.1 q.1
  final : rel p.2 q.2

theorem SameRun.replies {rel : S → T → Prop} {calls : C → D → Prop}
    {p : List (Event S C R) × S} {q : List (Event T D R) × T}
    (h : SameRun rel calls p q) :
    p.1.map Event.reply = q.1.map Event.reply := by
  obtain ⟨log, s⟩ := p
  obtain ⟨log', t⟩ := q
  have hlog : List.Forall₂ (SameEvent rel calls) log log' := h.log
  clear h
  show log.map Event.reply = log'.map Event.reply
  induction hlog with
  | nil => rfl
  | cons he _ ih => rw [List.map_cons, List.map_cons, he.reply, ih]

variable {rel : S → T → Prop} {calls : C → D → Prop}
variable {step : S → C → Option (R × S)} {step' : T → D → Option (R × T)}

/-- One of two related results is defined exactly when the other is. -/
theorem isSome_of_rel {A B : Type} {r : A → B → Prop} {x : Option A} {y : Option B}
    (h : Option.Rel r x y) : x.isSome = y.isSome := by
  cases h <;> rfl

theorem eq_some_of_rel {A B : Type} {r : A → B → Prop} {a : A} {y : Option B}
    (h : Option.Rel r (some a) y) : ∃ b, y = some b ∧ r a b := by
  cases h with
  | some hab => exact ⟨_, rfl, hab⟩

theorem rel_mono {A B : Type} {r r' : A → B → Prop} {x : Option A} {y : Option B}
    (h : Option.Rel r x y) (hr : ∀ a b, r a b → r' a b) : Option.Rel r' x y := by
  cases h with
  | none => exact .none
  | some hab => exact .some (hr _ _ hab)

theorem rel_bind {A B A' B' : Type} {r : A → B → Prop} {r' : A' → B' → Prop}
    {x : Option A} {y : Option B} {f : A → Option A'} {g : B → Option B'}
    (h : Option.Rel r x y) (hf : ∀ a b, r a b → Option.Rel r' (f a) (g b)) :
    Option.Rel r' (x.bind f) (y.bind g) := by
  cases h with
  | none => exact .none
  | some hab => exact hf _ _ hab

theorem rel_map {A B A' B' : Type} {r : A → B → Prop} {r' : A' → B' → Prop}
    {x : Option A} {y : Option B} {f : A → A'} {g : B → B'}
    (h : Option.Rel r x y) (hf : ∀ a b, r a b → r' (f a) (g b)) :
    Option.Rel r' (x.map f) (y.map g) := by
  cases h with
  | none => exact .none
  | some hab => exact .some (hf _ _ hab)

theorem exec_cons (step : S → C → Option (R × S)) (s : S) (c : C) (cs : List C) :
    exec step s (c :: cs) = (step s c).bind fun p =>
      (exec step p.2 cs).map fun q => (⟨s, c, p.1, p.2⟩ :: q.1, q.2) := by
  rw [exec]
  cases step s c with
  | none => rfl
  | some p => cases h : exec step p.2 cs <;> simp [h]

/-- **The lock-step rule.**  Related calls from related states run alike. -/
theorem exec_lockStep (h : LockStep rel calls step step') {cs : List C}
    {ds : List D} (hcalls : List.Forall₂ calls cs ds) :
    ∀ {s : S} {t : T}, rel s t →
      Option.Rel (SameRun rel calls) (exec step s cs) (exec step' t ds) := by
  induction hcalls with
  | nil => intro s t hs; exact .some ⟨.nil, hs⟩
  | @cons c d cs ds hcall _ ih =>
      intro s t hs
      rw [exec_cons, exec_cons]
      refine rel_bind (h s t c d hs hcall) fun p q hsame => ?_
      refine rel_map (ih hsame.2) fun tail tail' hrun => ?_
      exact ⟨.cons ⟨hs, hcall, hsame.1, hsame.2⟩ hrun.log, hrun.final⟩

end Steps

/-! ## Simulation -/

section Simulation

variable {S T C D R : Type}

/-- Every guarded step is matched by a step of the other function with the same
reply.  The relation between the states may look at the calls still to come. -/
def Simulates (rel : List C → S → T → Prop) (guard : S → C → Prop) (call : C → D)
    (step : S → C → Option (R × S)) (step' : T → D → Option (R × T)) : Prop :=
  ∀ c cs s t r s', rel (c :: cs) s t → guard s c → step s c = some (r, s') →
    ∃ t', step' t (call c) = some (r, t') ∧ rel cs s' t'

variable {rel : List C → S → T → Prop} {guard : S → C → Prop} {call : C → D}
variable {step : S → C → Option (R × S)} {step' : T → D → Option (R × T)}

/-- **The simulation rule.**  A run whose events all meet the guard is matched, reply
by reply, by a run from every related state. -/
theorem exec_simulates (h : Simulates rel guard call step step') {s s' : S}
    {log : List (Event S C R)} (hrun : Run step s log s') :
    ∀ {t : T}, (∀ e ∈ log, guard e.pre e.call) → rel (log.map Event.call) s t →
      ∃ log' t', exec step' t (log.map fun e => call e.call) = some (log', t') ∧
        log'.map Event.reply = log.map Event.reply ∧ rel [] s' t' := by
  induction hrun with
  | nil s => exact fun _ hrel => ⟨[], _, rfl, rfl, hrel⟩
  | @cons s₀ s₁ s₂ c r log head rest ih =>
      intro t hguard hrel
      obtain ⟨t₁, hstep, hrel₁⟩ :=
        h c (log.map Event.call) s₀ t r s₁ hrel (hguard ⟨s₀, c, r, s₁⟩ (by simp)) head
      obtain ⟨log', t', hexec, hreplies, hfinal⟩ :=
        ih (fun e he => hguard e (List.mem_cons_of_mem _ he)) hrel₁
      refine ⟨⟨t, call c, r, t₁⟩ :: log', t', ?_, ?_, hfinal⟩
      · rw [List.map_cons, exec_cons, hstep]
        show (exec step' t₁ (log.map fun e => call e.call)).map _ = _
        rw [hexec]
        rfl
      · rw [List.map_cons, List.map_cons, hreplies]

/-- **The expansion rule.**  If every step is matched by a run of the other function
that fits it, a run is matched by such runs one after the other. -/
theorem run_expands {S T C D R Q : Type} {rel : S → T → Prop}
    {fits : Event S C R → List (Event T D Q) → Prop}
    {step : S → C → Option (R × S)} {step' : T → D → Option (Q × T)}
    (hstep : ∀ e : Event S C R, step e.pre e.call = some (e.reply, e.post) →
      ∀ t, rel e.pre t →
        ∃ part t', Run step' t part t' ∧ fits e part ∧ rel e.post t')
    {s s' : S} {log : List (Event S C R)} (hrun : Run step s log s') :
    ∀ {t : T}, rel s t →
      ∃ parts t', Run step' t parts.flatten t' ∧ List.Forall₂ fits log parts ∧
        rel s' t' := by
  induction hrun with
  | nil s => exact fun hrel => ⟨[], _, .nil _, .nil, hrel⟩
  | @cons s₀ s₁ s₂ c r log head _ ih =>
      intro t hrel
      obtain ⟨part, t₁, hpart, hfits, hrel₁⟩ := hstep ⟨s₀, c, r, s₁⟩ head t hrel
      obtain ⟨parts, t', hparts, hall, hfinal⟩ := ih hrel₁
      exact ⟨part :: parts, t', hpart.append hparts, .cons hfits hall, hfinal⟩

end Simulation

/-! ## Components that share a part of their state -/

section Interleaving

variable {I L G C R : Type} [DecidableEq I]

/-- A state for each component, and one they have in common. -/
@[ext] structure Shared (I L G : Type) where
  own : I → L
  common : G

/-- A step of the component the call names. -/
def interleave (step : L × G → C → Option (R × L × G)) (s : Shared I L G)
    (c : I × C) : Option (R × Shared I L G) :=
  (step (s.own c.1, s.common) c.2).map fun (r, l, g) =>
    (r, ⟨Function.update s.own c.1 l, g⟩)

/-- The calls to one component. -/
def callsTo (i : I) (cs : List (I × C)) : List C :=
  (cs.filter fun c => c.1 = i).map Prod.snd

/-- The replies one component has given. -/
def repliesOf (i : I) (log : List (Event (Shared I L G) (I × C) R)) : List R :=
  (log.filter fun e => e.call.1 = i).map Event.reply

theorem callsTo_cons_self (i : I) (c : C) (cs : List (I × C)) :
    callsTo i ((i, c) :: cs) = c :: callsTo i cs := by
  simp [callsTo]

theorem callsTo_cons_ne {i j : I} (h : j ≠ i) (c : C) (cs : List (I × C)) :
    callsTo i ((j, c) :: cs) = callsTo i cs := by
  simp [callsTo, h]

/-- Neither the common state nor anything the relation on the own states forgets
matters to a step. -/
abbrev Indifferent (rel : L → L → Prop) (step : L × G → C → Option (R × L × G)) :
    Prop :=
  LockStep (fun p q => rel p.1 q.1) Eq step step

variable {rel : L → L → Prop} {step : L × G → C → Option (R × L × G)}

theorem interleave_eq_some {s s' : Shared I L G} {i : I} {c : C} {r : R}
    (h : interleave step s (i, c) = some (r, s')) :
    ∃ l g, step (s.own i, s.common) c = some (r, l, g) ∧
      s' = ⟨Function.update s.own i l, g⟩ := by
  obtain ⟨⟨r', l, g⟩, hstep, hp⟩ := Option.map_eq_some_iff.mp h
  obtain ⟨rfl, rfl⟩ := Prod.mk.inj hp
  exact ⟨l, g, hstep, rfl⟩

/-- **The projection rule.**  In a run of all the components each of them replies as
it would alone, whatever the others do and whatever the common state is. -/
theorem interleave_project (h : Indifferent rel step) (i : I)
    {cs : List (I × C)} :
    ∀ {s s' : Shared I L G} {log : List (Event (Shared I L G) (I × C) R)}
      {l : L} (g : G),
      exec (interleave step) s cs = some (log, s') → rel (s.own i) l →
      ∃ alone p, exec step (l, g) (callsTo i cs) = some (alone, p) ∧
        alone.map Event.reply = repliesOf i log ∧ rel (s'.own i) p.1 := by
  induction cs with
  | nil =>
      intro s s' log l g hrun hl
      obtain ⟨rfl, rfl⟩ := Prod.mk.inj (Option.some.inj hrun)
      exact ⟨[], (l, g), rfl, rfl, hl⟩
  | cons call cs ih =>
      intro s s' log l g hrun hl
      obtain ⟨j, c⟩ := call
      simp only [exec] at hrun
      cases hc : interleave step s (j, c) with
      | none => simp [hc] at hrun
      | some p =>
          obtain ⟨r, s₁⟩ := p
          cases hcs : exec (interleave step) s₁ cs with
          | none => simp [hc, hcs] at hrun
          | some q =>
              obtain ⟨tail, s₂⟩ := q
              simp only [hc, hcs, Option.some.injEq, Prod.mk.injEq] at hrun
              obtain ⟨rfl, rfl⟩ := hrun
              obtain ⟨l₁, g₁, hstep, rfl⟩ := interleave_eq_some hc
              by_cases hj : j = i
              · subst hj
                have hsame := h (s.own j, s.common) (l, g) c c hl rfl
                rw [hstep] at hsame
                obtain ⟨⟨r', l', g'⟩, hstep', hreply, hl'⟩ := eq_some_of_rel hsame
                obtain ⟨alone, p, halone, hreplies, hfinal⟩ :=
                  ih g' hcs ((Function.update_self j l₁ s.own).symm ▸ hl')
                refine ⟨⟨(l, g), c, r', (l', g')⟩ :: alone, p, ?_, ?_, hfinal⟩
                · rw [callsTo_cons_self]
                  simp only [exec, hstep', halone]
                · rw [List.map_cons, hreplies]
                  simp only [repliesOf, decide_true, List.filter_cons_of_pos,
                    List.map_cons]
                  exact congrArg (· :: _) hreply.symm
              · obtain ⟨alone, p, halone, hreplies, hfinal⟩ :=
                  ih g hcs
                    ((Function.update_of_ne (Ne.symm hj) l₁ s.own).symm ▸ hl)
                refine ⟨alone, p, ?_, ?_, hfinal⟩
                · rwa [callsTo_cons_ne hj]
                · rw [hreplies]
                  simp [repliesOf, hj]

/-- A run of all the components is defined exactly when the run of each of them alone
is. -/
theorem interleave_isSome (hrefl : ∀ l, rel l l) (h : Indifferent rel step)
    {cs : List (I × C)} :
    ∀ {s : Shared I L G},
      (exec (interleave step) s cs).isSome ↔
        ∀ i, (exec step (s.own i, s.common) (callsTo i cs)).isSome := by
  intro s
  constructor
  · intro hrun i
    obtain ⟨⟨log, s'⟩, hsome⟩ := Option.isSome_iff_exists.mp hrun
    obtain ⟨alone, p, halone, -⟩ :=
      interleave_project h i s.common hsome (hrefl (s.own i))
    rw [halone]
    rfl
  · induction cs generalizing s with
    | nil => intro _; rfl
    | cons call cs ih =>
        intro halone
        obtain ⟨j, c⟩ := call
        have hj := halone j
        rw [callsTo_cons_self] at hj
        simp only [exec] at hj
        cases hc : step (s.own j, s.common) c with
        | none => simp [hc] at hj
        | some p =>
            obtain ⟨r, l₁, g₁⟩ := p
            have hhead : interleave step s (j, c) =
                some (r, ⟨Function.update s.own j l₁, g₁⟩) := by
              unfold interleave
              rw [hc]
              rfl
            have hrest : (exec (interleave step)
                ⟨Function.update s.own j l₁, g₁⟩ cs).isSome := by
              refine ih fun i => ?_
              by_cases hi : i = j
              · subst hi
                rw [hc] at hj
                simp only [Function.update_self]
                cases hrun : exec step (l₁, g₁) (callsTo i cs) with
                | none => simp [hrun] at hj
                | some q => rfl
              · -- another component finds its own state as it was
                have hi' := halone i
                rw [callsTo_cons_ne (Ne.symm hi)] at hi'
                have hsame : Option.Rel _
                    (exec step (s.own i, s.common) (callsTo i cs))
                    (exec step (s.own i, g₁) (callsTo i cs)) :=
                  exec_lockStep h (List.forall₂_same.mpr fun _ _ => rfl)
                    (hrefl (s.own i))
                simp only [Function.update_of_ne hi]
                rwa [← isSome_of_rel hsame]
            obtain ⟨⟨log, s'⟩, hsome⟩ := Option.isSome_iff_exists.mp hrest
            simp only [exec, hhead, hsome]
            rfl

end Interleaving

end LibStomp.Verified.Coupling
