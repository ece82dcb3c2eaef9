import LibStomp.Session.Conversation

/-!
# When a whole session succeeds

Each operation expects a certain answer, or none: a connect the frame `CONNECTED`,
an operation with a receipt `RECEIPT`, a receive `MESSAGE`.  Nothing connects an
answer with the operation it belongs to but its place in the stream, and nothing
of it is looked at but the beginning of its command.  So an in-step session
succeeds as a whole exactly when the broker keeps to the script.

## Main results

* `converse_answer` — one operation succeeds exactly when the next frame is the
  answer it expects.
* `succeeds_iff_scripted` — all operations of an in-step session succeed exactly
  when the first frames of the broker are the expected answers, one by one.
-/

namespace LibStomp.Session.Script

open LibStomp.Model
open LibStomp.Verified.Framing
open LibStomp.Verified.Runs
open LibStomp.Verified.Coupling
open LibStomp.Session.Steps
open LibStomp.Session.Unread
open LibStomp.Session.Conversation
open LibStomp.Stream.Grammar

/-! ## The script -/

/-- The receipt an operation asks for. -/
def receiptAsked : Op → Option UInt32
  | .disconnect header => header.map (·.receipt)
  | .subscribe header => header.map (·.receipt)
  | .unsubscribe header => header.map (·.receipt)
  | .ack header => header.map (·.receipt)
  | .nack header => header.map (·.receipt)
  | .begin header => header.map (·.receipt)
  | .commit header => header.map (·.receipt)
  | .abort header => header.map (·.receipt)
  | .send header _ => header.map (·.receipt)
  | _ => none

/-- How the command of the answer has to start. -/
def awaited : Op → Option CString
  | .connect _ => some (.lit "CONNECTED")
  | .receive _ => some (.lit "MESSAGE")
  | op => ((receiptAsked op).filter (0 < ·)).map fun _ => .lit "RECEIPT"

/-- The library itself has nothing against the call, and an answer that is awaited is
there. -/
structure Feasible (A : Apr) (c : Move) : Prop where
  endpoint : ∀ uri, c.op = .setEndpoint uri → Dialogue.objection A uri = none
  header : c.op ≠ .subscribe none
  ready : awaited c.op ≠ none → c.ready = true

/-- The reply does not report a failure.  `STOMP_SUCCESS_NO_DATA` is none of
success. -/
def Succeeded (r : Reply) : Prop := r.code = none ∨ r.code = some .success

/-- The frame is the answer. -/
def Answers (word : CString) (f : WireFrame) : Prop :=
  f.frame.command.startsWith word = true

/-! ## One operation -/

theorem request_receipt {m : Messenger} {op : Op} {q : Request}
    (h : request m op = some q) : q.receipt = receiptAsked op := by
  unfold request at h
  split at h
  case h_10 => cases h
  all_goals
    first
      | obtain rfl := Option.some.inj h
        rfl
      | obtain ⟨frame, -, rfl⟩ := Option.map_eq_some_iff.mp h
        rfl

theorem not_succeeded_failure : ¬ Succeeded ⟨some .failure, none⟩ := by
  simp [Succeeded]

/-- What becomes of an operation that expects an answer, by the frames that are unread
before and after it. -/
inductive Answered (ready : Bool) (word : CString) (r : Reply) :
    List WireFrame → List WireFrame → Prop
  | timeout {unread unread' : List WireFrame} (hready : ready = false)
      (hfails : ¬ Succeeded r) : Answered ready word r unread unread'
  | frame {f : WireFrame} {rest : List WireFrame} (hready : ready = true)
      (hiff : Succeeded r ↔ Answers word f) : Answered ready word r (f :: rest) rest

theorem answered_of_await {s s' : Dialogue} {ready : Bool} {word : CString}
    {refusal : Frame → Option CString} {r : Reply}
    (h : s.await ready word refusal = some (r, s')) :
    Answered ready word r s.unread s'.unread := by
  unfold Dialogue.await at h
  cases ready with
  | false =>
      obtain ⟨rfl, rfl⟩ := Prod.mk.inj (Option.some.inj h)
      exact .timeout rfl not_succeeded_failure
  | true =>
      cases hunread : s.unread with
      | nil => simp [hunread] at h
      | cons f rest =>
          simp only [hunread, if_true] at h
          by_cases hword : f.frame.command.startsWith word = true
          · rw [if_pos hword] at h
            obtain ⟨rfl, rfl⟩ := Prod.mk.inj (Option.some.inj h)
            exact .frame rfl (iff_of_true (.inr rfl) hword)
          · rw [if_neg hword] at h
            obtain ⟨text, -, hp⟩ := Option.map_eq_some_iff.mp h
            obtain ⟨rfl, rfl⟩ := Prod.mk.inj hp
            exact .frame rfl (iff_of_false not_succeeded_failure hword)

theorem answered_of_receive {s s' : Dialogue} {ready : Bool} {message : Message}
    {r : Reply} (h : s.receive message ready = some (r, s')) :
    Answered ready (.lit "MESSAGE") r s.unread s'.unread := by
  unfold Dialogue.receive at h
  split at h
  · cases h
  cases ready with
  | false =>
      obtain ⟨rfl, rfl⟩ := Prod.mk.inj (Option.some.inj h)
      exact .timeout rfl (by simp [Succeeded])
  | true =>
      cases hunread : s.unread with
      | nil => simp [hunread] at h
      | cons f rest =>
          simp only [hunread, if_true] at h
          obtain ⟨rfl, rfl⟩ := Prod.mk.inj (Option.some.inj h)
          refine .frame rfl ?_
          unfold Succeeded Answers
          show _ ∨ _ ↔ isMessage f = true
          cases isMessage f <;> simp

/-- What becomes of an operation: it takes nothing, and then only the library can object,
or it waits for its answer. -/
inductive Outcome (A : Apr) (s : Dialogue) (c : Move) (r : Reply) (s' : Dialogue) :
    Prop
  | unanswered (hawaited : awaited c.op = none) (hunread : s'.unread = s.unread)
      (hiff : Succeeded r ↔ Feasible A c)
  | answered {word : CString} (hawaited : awaited c.op = some word)
      (hiff : Feasible A c ↔ c.ready = true)
      (h : Answered c.ready word r s.unread s'.unread)

/-- An operation that is neither of the two the library can object to. -/
theorem feasible_iff {A : Apr} {c : Move} (hset : ∀ uri, c.op ≠ .setEndpoint uri)
    (hsubscribe : c.op ≠ .subscribe none) :
    Feasible A c ↔ (awaited c.op ≠ none → c.ready = true) :=
  ⟨fun h => h.ready, fun h => ⟨fun uri hop => absurd hop (hset uri), hsubscribe, h⟩⟩

theorem awaited_of_request {m : Messenger} {op : Op} {q : Request}
    (h : request m op = some q) :
    awaited op = (q.receipt.filter (0 < ·)).map fun _ => .lit "RECEIPT" := by
  rw [request_receipt h]
  cases op <;> first | rfl | cases h

/-- **An operation succeeds exactly when it gets the answer it expects.** -/
theorem converse_answer {A : Apr} {s s' : Dialogue} {c : Move} {r : Reply}
    (h : converse A s c = some (r, s')) : Outcome A s c r s' := by
  obtain ⟨op, ready, order⟩ := c
  unfold converse at h
  cases hrequest : request s.messenger op with
  | some q =>
      have hset : ∀ uri, op ≠ .setEndpoint uri := by
        rintro uri rfl
        cases hrequest
      have hsubscribe : op ≠ .subscribe none := by
        rintro rfl
        cases hrequest
      have hfeasible := feasible_iff (A := A) (c := ⟨op, ready, order⟩) hset hsubscribe
      have hawaited := awaited_of_request hrequest
      simp only [hrequest] at h
      unfold Dialogue.ask at h
      split at h
      · cases h
      cases hreceipt : q.receipt.filter (0 < ·) with
      | some receipt =>
          rw [hreceipt] at h hawaited
          exact .answered hawaited (hfeasible.trans (by simp [hawaited]))
            (answered_of_await (s := s.say order q.frame) h)
      | none =>
          rw [hreceipt] at h hawaited
          obtain ⟨rfl, rfl⟩ := Prod.mk.inj (Option.some.inj h)
          exact .unanswered hawaited rfl
            (iff_of_true (.inr rfl) (hfeasible.mpr fun hne => absurd hawaited hne))
  | none =>
      simp only [hrequest] at h
      cases op with
      | connect header =>
          refine .answered rfl
            ((feasible_iff (by simp) (by simp)).trans (by simp [awaited])) ?_
          have hconnect : s.connect header ready order = some (r, s') := h
          unfold Dialogue.connect at hconnect
          split at hconnect
          · cases hconnect
          · exact answered_of_await
              (s := { s with isOpen := true }.say order (connectFrame header)) hconnect
      | receive message =>
          exact .answered rfl
            ((feasible_iff (by simp) (by simp)).trans (by simp [awaited]))
            (answered_of_receive h)
      | setEndpoint uri =>
          have hset := Option.some.inj h
          unfold Dialogue.setEndpoint at hset
          have hfeasible : Feasible A ⟨.setEndpoint uri, ready, order⟩ ↔
              Dialogue.objection A uri = none := by
            refine ⟨fun hf => hf.endpoint uri rfl, fun hnone => ⟨?_, by simp, ?_⟩⟩
            · rintro _ ⟨⟩
              exact hnone
            · exact fun hne => absurd rfl hne
          cases hobjection : Dialogue.objection A uri with
          | some text =>
              rw [hobjection] at hset hfeasible
              obtain ⟨rfl, rfl⟩ := Prod.mk.inj hset
              exact .unanswered rfl rfl
                (iff_of_false not_succeeded_failure (by simp [hfeasible]))
          | none =>
              rw [hobjection] at hset hfeasible
              obtain ⟨rfl, rfl⟩ := Prod.mk.inj hset
              exact .unanswered rfl rfl (iff_of_true (.inr rfl) (hfeasible.mpr rfl))
      | subscribe header =>
          cases header with
          | none =>
              obtain ⟨rfl, rfl⟩ := Prod.mk.inj (Option.some.inj h)
              exact .unanswered rfl rfl
                (iff_of_false not_succeeded_failure fun hf => hf.header rfl)
          | some header => cases h
      | exchangeAdd name value =>
          obtain ⟨rfl, rfl⟩ := Prod.mk.inj (Option.some.inj h)
          exact .unanswered rfl rfl (iff_of_true (.inl rfl)
            ((feasible_iff (by simp) (by simp)).mpr fun hne => absurd rfl hne))
      | exchangeClear =>
          obtain ⟨rfl, rfl⟩ := Prod.mk.inj (Option.some.inj h)
          exact .unanswered rfl rfl (iff_of_true (.inl rfl)
            ((feasible_iff (by simp) (by simp)).mpr fun hne => absurd rfl hne))
      | _ => cases h

/-! ## Sessions -/

/-- The answers the calls expect, in order. -/
def script (moves : List Move) : List CString := moves.filterMap fun c => awaited c.op

/-- The first frames are these answers. -/
def Follows (words : List CString) (frames : List WireFrame) : Prop :=
  List.Forall₂ Answers words (frames.take words.length)

theorem follows_cons (word : CString) (words : List CString) (f : WireFrame)
    (frames : List WireFrame) :
    Follows (word :: words) (f :: frames) ↔ Answers word f ∧ Follows words frames := by
  unfold Follows
  rw [List.length_cons, List.take_succ_cons, List.forall₂_cons]

/-- A conversation goes well as a whole exactly when the other side keeps to the
script. -/
theorem converse_scripted {A : Apr} {moves : List Move} :
    ∀ {s s' : Dialogue} {talk : List (Event Dialogue Move Reply)},
      exec (converse A) s moves = some (talk, s') →
      ((∀ r ∈ talk.map Event.reply, Succeeded r) ↔
        (∀ c ∈ moves, Feasible A c) ∧ Follows (script moves) s.unread) := by
  induction moves with
  | nil =>
      intro s s' talk h
      obtain ⟨rfl, rfl⟩ := Prod.mk.inj (Option.some.inj h)
      simp [script, Follows]
  | cons c moves ih =>
      intro s s' talk h
      rw [exec_cons] at h
      obtain ⟨⟨r, s₁⟩, hstep, hrest⟩ := Option.bind_eq_some_iff.mp h
      obtain ⟨⟨tail, s₂⟩, htail, hp⟩ := Option.map_eq_some_iff.mp hrest
      obtain ⟨rfl, rfl⟩ := Prod.mk.inj hp
      have hrec := ih htail
      rw [List.map_cons, List.forall_mem_cons, List.forall_mem_cons, hrec]
      show Succeeded r ∧ _ ↔ _
      cases converse_answer hstep with
      | unanswered hawaited hunread hiff =>
          have hscript : script (c :: moves) = script moves :=
            List.filterMap_cons_none hawaited
          rw [hscript, hiff, hunread, and_assoc]
      | @answered word hawaited hiff hanswered =>
          have hscript : script (c :: moves) = word :: script moves :=
            List.filterMap_cons_some hawaited
          rw [hscript, hiff]
          generalize s.unread = unread, s₁.unread = unread₁ at hanswered ⊢
          cases hanswered with
          | timeout hready hfails =>
              -- a wait that finds nothing fails, and the call was not feasible
              refine iff_of_false (fun hall => hfails hall.1) fun hall => ?_
              rw [hready] at hall
              exact Bool.false_ne_true hall.1.1
          | @frame f rest hready hsucceeded =>
              rw [follows_cons, hsucceeded, hready]
              constructor
              · rintro ⟨hf, hmoves, hfollows⟩
                exact ⟨⟨rfl, hmoves⟩, hf, hfollows⟩
              · rintro ⟨⟨-, hmoves⟩, hf, hfollows⟩
                exact ⟨hf, hmoves, hfollows⟩

/-- **A session succeeds exactly when the broker keeps to the script.**  All operations
of an in-step session, from before its connect on, report success exactly when the
library has nothing against their arguments, nothing is waited for in vain, and the
first frames of the broker are the awaited answers, one by one.  It does not matter
which receipt a `RECEIPT` answers. -/
theorem succeeds_iff_scripted (A : Apr) {w w' : World} {log : Log}
    (h : Run (step A) w log w') (hnone : w.messenger.connection = none)
    (hin : ∀ e ∈ log, InStep e.pre e.call) {frames : List WireFrame} {future : Bytes}
    (hstream : arrivals log ++ future = streamOf WireFrame.bytes frames) :
    (∀ e ∈ log, Succeeded e.reply) ↔
      (∀ e ∈ log, Feasible A (move e.call)) ∧
        Follows (script (log.map fun e => move e.call)) frames := by
  rw [arrivals_eq_arriving] at hstream
  obtain ⟨talk, s, hexec, hreplies, -⟩ :=
    exec_simulates (converse_simulates A future) h hin (carries_opening hnone hstream)
  have hscripted := converse_scripted hexec
  rw [hreplies, List.forall_mem_map, List.forall_mem_map] at hscripted
  exact hscripted

theorem succeeds_iff_scripted_prompt : ∃ log w',
    exec (step .sample) (stompMessengerInit 0) prompt = some (log, w') ∧
      ((∀ e ∈ log, Succeeded e.reply) ↔
        (∀ e ∈ log, Feasible .sample (move e.call)) ∧
          Follows (script (log.map fun e => move e.call)) [welcome, greeting]) := by
  obtain ⟨log, w', hexec, hinboxes⟩ := prompt_run
  exact ⟨log, w', hexec, succeeds_iff_scripted .sample (exec_run hexec) rfl
    (inStep_hello hexec hinboxes (by simp) (List.append_nil _).symm rfl)
    (stream_hello hexec rfl)⟩

end LibStomp.Session.Script
