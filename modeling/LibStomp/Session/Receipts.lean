import LibStomp.Session.Unread
import LibStomp.Verified.Matching

/-!
# Receipts and the requests they confirm

`stomp_process_receipt` takes the next frame for the answer to the request at
hand if its command begins with RECEIPT; the `receipt-id` is not looked at.  As
long as no request was left without its receipt this makes no difference: a
broker that answers each request at most once has nothing else to send.  A
receipt that comes after its request has given up confirms the next one.

## Main results

* `receipt_own` — a request that succeeds has taken the next unread frame, a
  RECEIPT, and it is its own if every request before it has succeeded.
-/

namespace LibStomp.Session.Receipts

open LibStomp.Model
open LibStomp.Verified.Framing
open LibStomp.Verified.Matching
open LibStomp.Verified.Runs
open LibStomp.Session.Steps
open LibStomp.Session.Unread
open LibStomp.Stream.Grammar
open LibStomp.Stream.WholeFrames

/-! ## The broker -/

/-- The identifier a call sends in its `receipt` header. -/
def requestId (e : Event World Call Reply) : Option CString :=
  (receiptOf e.pre.messenger e.call.op).map fun receipt =>
    aprItoa (cInt receipt.toNat)

/-- The identifier of a RECEIPT frame. -/
def answerId (f : WireFrame) : Option CString :=
  if isReceipt f then receiptId f else none

/-- The broker may answer late and in any order, but each RECEIPT answers a request, and
at no time have more of them arrived for an identifier than were asked for. -/
structure Answering (inbox : Bytes) (log : Log) (fs : List WireFrame) : Prop where
  identified : ∀ f ∈ fs, isReceipt f = true → receiptId f ≠ none
  causal : ∀ n gs, gs <+: fs →
    streamOf WireFrame.bytes gs <+: inbox ++ arrivals (log.take n) →
    ∀ k, gs.countP (fun f => answerId f = some k) ≤
      (log.take n).countP fun e => requestId e = some k

/-! ## Counting -/

/-- The answer a call has taken. -/
def answered (mark : Option WireFrame) : Option CString := mark.bind answerId

private theorem countP_answered (marks : List (Option WireFrame)) (k : CString) :
    marks.countP (fun mark => answered mark = some k) =
      (taken marks).countP fun f => answerId f = some k := by
  induction marks with
  | nil => rfl
  | cons mark marks ih =>
      rw [taken_cons, List.countP_append, ← ih, List.countP_cons]
      cases mark with
      | none => simp [answered]
      | some f =>
          rw [Option.toList_some, List.countP_singleton, Nat.add_comm]
          rfl

section Zip

variable {log : Log} {marks : List (Option WireFrame)}
    (hlen : log.length = marks.length)
variable (k : CString)
include hlen

private theorem countP_zip_fst :
    (log.zip marks).countP (fun x => requestId x.1 = some k) =
      log.countP fun e => requestId e = some k := by
  have hmap : (log.zip marks).map Prod.fst = log :=
    List.map_fst_zip (le_of_eq hlen)
  conv => rhs; rw [← hmap, List.countP_map]
  rfl

private theorem countP_zip_snd :
    (log.zip marks).countP (fun x => answered x.2 = some k) =
      marks.countP fun mark => answered mark = some k := by
  have hmap : (log.zip marks).map Prod.snd = marks :=
    List.map_snd_zip (le_of_eq hlen.symm)
  conv => rhs; rw [← hmap, List.countP_map]
  rfl

end Zip

/-- In a run on the stream of such a broker the answers taken are causal. -/
theorem causal_of_answering {inbox : Bytes} {log : Log}
    {marks : List (Option WireFrame)}
    {unread : List WireFrame} (h : List.Forall₂ Took log marks)
    (hanswering : Answering inbox log (taken marks ++ unread))
    (hparts : ∀ n, streamOf WireFrame.bytes (taken (marks.take n)) <+:
      inbox ++ arrivals (log.take n)) :
    Causal (fun x => requestId x.1) (fun x => answered x.2) (log.zip marks) := by
  intro p hp k
  obtain ⟨n, rfl⟩ : ∃ n, p = (log.take n).zip (marks.take n) := by
    refine ⟨p.length, ?_⟩
    rw [List.zip, ← List.take_zipWith]
    exact List.prefix_iff_eq_take.mp hp
  have hlen : (log.take n).length = (marks.take n).length := by
    rw [List.length_take, List.length_take, h.length_eq]
  have hfirst : taken (marks.take n) <+: taken marks ++ unread := by
    have hsplit : taken marks = taken (marks.take n) ++ taken (marks.drop n) := by
      rw [taken, taken, taken, ← List.flatMap_append, List.take_append_drop]
    rw [hsplit, List.append_assoc]
    exact List.prefix_append _ _
  rw [countP_zip_fst hlen, countP_zip_snd hlen, countP_answered]
  exact hanswering.causal n _ hfirst (hparts n) k

/-! ## Runs -/

/-- The requests for a receipt have succeeded. -/
def AllConfirmed (log : Log) : Prop :=
  ∀ e ∈ log, receiptOf e.pre.messenger e.call.op ≠ none →
    e.reply.code = some .success

/-- A request that succeeds has taken a RECEIPT. -/
theorem isReceipt_of_success {e : Event World Call Reply}
    {mark : Option WireFrame}
    (h : Took e mark) (hreceipt : receiptOf e.pre.messenger e.call.op ≠ none)
    (hcode : e.reply.code = some .success) :
    ∃ f, mark = some f ∧ isReceipt f = true := by
  cases h with
  | nothing _ hfailure =>
      rw [hfailure hreceipt] at hcode
      cases hcode
  | received _ hop =>
      rw [hop] at hreceipt
      exact absurd rfl hreceipt
  | @waited f _ _ hreply =>
      refine ⟨f, rfl, ?_⟩
      rw [hreply] at hcode
      cases hf : isReceipt f with
      | true => rfl
      | false =>
          rw [hf] at hcode
          cases hcode

/-- In a run in which all requests succeed each has taken its own receipt. -/
theorem own_receipts {inbox : Bytes} {log : Log} {marks : List (Option WireFrame)}
    {unread : List WireFrame} (h : List.Forall₂ Took log marks)
    (hanswering : Answering inbox log (taken marks ++ unread))
    (hparts : ∀ n, streamOf WireFrame.bytes (taken (marks.take n)) <+:
      inbox ++ arrivals (log.take n)) (hconfirmed : AllConfirmed log) :
    ∀ e mark, (e, mark) ∈ log.zip marks → requestId e ≠ none →
      answered mark = requestId e := by
  have hserved : ∀ x ∈ log.zip marks, requestId x.1 ≠ none →
      answered x.2 ≠ none := by
    rintro ⟨e, mark⟩ hx hrequest
    have hreceipt : receiptOf e.pre.messenger e.call.op ≠ none :=
      fun hnone => hrequest (by rw [requestId, hnone]; rfl)
    obtain ⟨f, rfl, hf⟩ :=
      isReceipt_of_success ((List.forall₂_iff_zip.mp h).2 hx) hreceipt
      (hconfirmed e (List.of_mem_zip hx).1 hreceipt)
    have hmem : f ∈ taken marks :=
      List.mem_flatMap.mpr ⟨some f, (List.of_mem_zip hx).2, by simp⟩
    show answerId f ≠ none
    rw [answerId, if_pos hf]
    exact hanswering.identified f (List.mem_append_left _ hmem) hf
  intro e mark hx hrequest
  exact own_answer (causal_of_answering h hanswering hparts) hserved (e, mark)
    hx hrequest

/-- **A request succeeds on the next unread frame if it is a RECEIPT, whatever it
confirms**; it is its own if all requests before it have succeeded. -/
theorem receipt_own (A : Apr) (w w' : World) (before : Log)
    (e : Event World Call Reply)
    (h : Run (step A) w (before ++ [e]) w') (socket : Socket)
    (hsocket : w.messenger.connection = some socket)
    (horderly : ∀ r ∈ before ++ [e], Orderly r.pre r.call) (fs : List WireFrame)
    (future : Bytes)
    (hstream : socket.inbox ++ arrivals (before ++ [e]) ++ future =
      streamOf WireFrame.bytes fs)
    (receipt : UInt32)
    (hreceipt : receiptOf e.pre.messenger e.call.op = some receipt)
    (hcode : e.reply.code = some .success) :
    ∃ marks f unread, List.Forall₂ Took (before ++ [e]) (marks ++ [some f]) ∧
      fs = taken marks ++ f :: unread ∧ isReceipt f = true ∧
      (Answering socket.inbox (before ++ [e]) fs → AllConfirmed before →
        receiptId f = some (aprItoa (cInt receipt.toNat))) := by
  obtain ⟨marks, socket', hmarks, -, hin, hparts⟩ :=
    conserved_run h horderly hsocket
  rw [hin, List.append_assoc] at hstream
  obtain ⟨unread, rfl, -⟩ := bytes_prefixFree.split hstream
  obtain ⟨init, last, rfl⟩ : ∃ init last, marks = init ++ [last] := by
    rcases List.eq_nil_or_concat' marks with rfl | hconcat
    · exact absurd hmarks.length_eq (by simp)
    · exact hconcat
  have hlength : before.length = init.length := by simpa using hmarks.length_eq
  have hlast : (e, last) ∈ (before ++ [e]).zip (init ++ [last]) := by
    rw [List.zip_append hlength]
    simp
  have hwaits : receiptOf e.pre.messenger e.call.op ≠ none := by simp [hreceipt]
  obtain ⟨f, rfl, hf⟩ :=
    isReceipt_of_success ((List.forall₂_iff_zip.mp hmarks).2 hlast) hwaits hcode
  have hfs : taken (init ++ [some f]) ++ unread = taken init ++ f :: unread := by
    simp [taken]
  refine ⟨init, f, unread, hmarks, hfs, hf, fun hanswering hbefore => ?_⟩
  have hconfirmed : AllConfirmed (before ++ [e]) := by
    intro r hr hreceipt'
    rcases List.mem_append.mp hr with hr | hr
    · exact hbefore r hr hreceipt'
    · rw [List.mem_singleton.mp hr]
      exact hcode
  have hrequest : requestId e = some (aprItoa (cInt receipt.toNat)) := by
    rw [requestId, hreceipt]
    rfl
  have hown :=
    own_receipts hmarks hanswering hparts hconfirmed e (some f) hlast
      (by simp [hrequest])
  rw [hrequest] at hown
  have hanswer : answerId f = some (aprItoa (cInt receipt.toNat)) := hown
  rwa [answerId, if_pos hf] at hanswer

/-- The receipt of the call is all that arrives during it. -/
def Prompt (e : Event World Call Reply) (f : WireFrame) : Prop :=
  e.call.net.arrivals = f.bytes ∧ answerId f = requestId e ∧ answerId f ≠ none

private theorem arrivals_prompt {log : Log} {fs : List WireFrame}
    (h : List.Forall₂ Prompt log fs) : arrivals log = streamOf WireFrame.bytes fs := by
  induction h with
  | nil => rfl
  | cons hprompt _ ih => rw [streamOf_cons, ← ih, ← hprompt.1]; rfl

private theorem countP_prompt {log : Log} {fs : List WireFrame}
    (h : List.Forall₂ Prompt log fs) (k : CString) :
    fs.countP (fun f => answerId f = some k) =
      log.countP fun e => requestId e = some k := by
  induction h with
  | nil => rfl
  | cons hprompt _ ih => rw [List.countP_cons, List.countP_cons, ih, hprompt.2.1]

/-- A broker that answers each request at once is answering. -/
private theorem answering_prompt {log : Log} {fs : List WireFrame}
    (h : List.Forall₂ Prompt log fs) : Answering [] log fs where
  identified f hf hreceipt := by
    obtain ⟨i, hi, rfl⟩ := List.mem_iff_getElem.mp hf
    have hprompt := List.forall₂_iff_get.mp h
    have hid := (hprompt.2 i (hprompt.1 ▸ hi) hi).2.2
    rwa [List.get_eq_getElem, answerId, if_pos hreceipt] at hid
  causal n gs hgs hbytes k := by
    have hprompt := List.forall₂_take n h
    rw [List.nil_append, arrivals_prompt hprompt] at hbytes
    obtain ⟨rest, hrest⟩ := hbytes
    obtain ⟨unread, hunread, -⟩ := bytes_prefixFree.split hrest
    rw [← countP_prompt hprompt, hunread]
    exact (List.sublist_append_left gs unread).countP_le

/-- A message is sent and a receipt asked for. -/
def receiptSend (receipt : UInt32) (net : Net) : Call :=
  ⟨.send (some ⟨-1, receipt⟩)
    (stompMessageFormat stompMessageCreate (ascii "x") 1), net⟩

/-- The answer to a request for the receipt 2. -/
def secondReceipt : WireFrame where
  command := ascii "RECEIPT"
  lines := [ascii "receipt-id:2"]
  payload := []
  command_clean := firstReceipt.command_clean
  lines_header := by decide
  payload_ok := by decide

/-- Two receipts are asked for, and the broker answers at once. -/
def promptCalls : List Call :=
  [receiptSend 1 (.quiet firstReceipt.bytes), receiptSend 2 (.quiet secondReceipt.bytes)]

theorem receipt_own_promptCalls :
    ∃ (log : Log) (marks : List (Option WireFrame)) (f : WireFrame),
      log.map Event.call = promptCalls ∧
      List.Forall₂ Took log (marks ++ [some f]) ∧ receiptId f = some (.lit "2") := by
  have hrun : (exec (step .sample) opened promptCalls).map (fun p =>
      (p.1.map (fun e => (e.reply.code, receiptOf e.pre.messenger e.call.op)),
        p.1.map fun e => e.pre.messenger.connection.map (·.inbox))) =
        some ([(some .success, some 1), (some .success, some 2)],
          [some [], some []]) := by
    decide +kernel
  obtain ⟨⟨log, w'⟩, hexec, hpair⟩ := Option.map_eq_some_iff.mp hrun
  obtain ⟨hreplies, hinboxes⟩ := Prod.mk.inj hpair
  have hcalls := exec_calls hexec
  obtain ⟨e₁, es, rfl, he₁, hes⟩ := List.map_eq_cons_iff.mp hcalls
  obtain ⟨e₂, rfl, he₂⟩ := List.map_eq_singleton_iff.mp hes
  obtain ⟨hreply₁, hreplies⟩ := List.cons.inj hreplies
  obtain ⟨hcode₁, hreceipt₁⟩ := Prod.mk.inj hreply₁
  obtain ⟨hcode₂, hreceipt₂⟩ := Prod.mk.inj (List.singleton_inj.mp hreplies)
  obtain ⟨hinbox₁, hinboxes⟩ := List.cons.inj hinboxes
  obtain ⟨socket, hsocket, hinbox⟩ := Option.map_eq_some_iff.mp opened_inbox
  have horderly : ∀ e ∈ [e₁] ++ [e₂], Orderly e.pre e.call := by
    intro e he
    rcases List.mem_append.mp he with he | he
    · obtain rfl := List.mem_singleton.mp he
      rw [he₁]
      exact orderly_of_uncounted (fun header hc => by cases hc)
        (fun turn ht => by cases ht) hinbox₁ (List.append_nil _).symm
        (by decide : Unwrapped firstReceipt) (by decide)
    · obtain rfl := List.mem_singleton.mp he
      rw [he₂]
      exact orderly_of_uncounted (fun header hc => by cases hc)
        (fun turn ht => by cases ht) (List.singleton_inj.mp hinboxes)
        (List.append_nil _).symm (by decide : Unwrapped secondReceipt) (by decide)
  have hprompt : List.Forall₂ Prompt [e₁, e₂] [firstReceipt, secondReceipt] := by
    refine .cons ⟨by rw [he₁]; rfl, ?_, by decide⟩
      (.cons ⟨by rw [he₂]; rfl, ?_, by decide⟩ .nil)
    · rw [requestId, hreceipt₁]
      decide +kernel
    · rw [requestId, hreceipt₂]
      decide +kernel
  have hstream : socket.inbox ++ arrivals ([e₁] ++ [e₂]) ++ [] =
      streamOf WireFrame.bytes [firstReceipt, secondReceipt] := by
    rw [hinbox, List.append_nil, List.nil_append]
    exact arrivals_prompt hprompt
  obtain ⟨marks, f, unread, htook, -, -, hown⟩ :=
    receipt_own .sample opened w' [e₁] e₂ (exec_run hexec) socket hsocket horderly
      [firstReceipt, secondReceipt] [] hstream 2 hreceipt₂ hcode₂
  have hid : receiptId f = some (.lit "2") := by
    rw [hown (by rw [hinbox]; exact answering_prompt hprompt) fun r hr _ => ?_]
    · decide +kernel
    · rw [List.mem_singleton.mp hr]
      exact hcode₁
  exact ⟨_, marks, f, hcalls, htook, hid⟩

/-- A broker whose only frame is the receipt 1 is answering if that was asked for before
the frame is there. -/
private theorem answering_firstReceipt {log : Log}
    (hasked : ∀ n, firstReceipt.bytes <+: arrivals (log.take n) →
      ∃ e ∈ log.take n, requestId e = some (.lit "1")) :
    Answering [] log [firstReceipt] where
  identified f hf _ := by
    rw [List.mem_singleton.mp hf]
    decide
  causal n gs hgs hbytes k := by
    rcases List.prefix_concat_iff.mp
      (show gs <+: [] ++ [firstReceipt] from hgs) with rfl | hnil
    · obtain ⟨e, he, hid⟩ := hasked n (by simpa using hbytes)
      rw [List.nil_append, List.countP_singleton]
      have hanswer : answerId firstReceipt = some (.lit "1") := by decide
      split
      · rename_i hk
        obtain rfl : CString.lit "1" = k :=
          Option.some.inj (hanswer.symm.trans (of_decide_eq_true hk))
        exact List.countP_pos_iff.mpr ⟨e, he, decide_eq_true hid⟩
      · exact Nat.zero_le _
    · rw [List.prefix_nil.mp hnil]
      exact Nat.zero_le _

/-- The receipt 1 answers the first call of a log. -/
private theorem answering_of_first {e : Event World Call Reply} {log : Log}
    (h : requestId e = some (.lit "1")) : Answering [] (e :: log) [firstReceipt] := by
  refine answering_firstReceipt fun n hbytes => ?_
  cases n with
  | zero => exact absurd (List.prefix_nil.mp hbytes) (by decide)
  | succ n => exact ⟨e, by simp, h⟩

/-- The wait for the receipt 1 times out; the receipt comes when the receipt 2 is asked
for. -/
def lateCalls : List Call :=
  [receiptSend 1 { Net.quiet [] with waits := [some .timeup] },
    receiptSend 2 (.quiet firstReceipt.bytes)]

/-- The second request succeeds on the receipt of the first. -/
theorem receipt_own_fails :
    ¬ ∀ (A : Apr) (w w' : World) (before : Log) (e : Event World Call Reply),
      Run (step A) w (before ++ [e]) w' →
      (∃ options earlier, Run (step A) (stompMessengerInit options) earlier w) →
      ∀ socket, w.messenger.connection = some socket →
        (∀ r ∈ before ++ [e], Orderly r.pre r.call) → ∀ fs future,
          socket.inbox ++ arrivals (before ++ [e]) ++ future =
              streamOf WireFrame.bytes fs →
            Answering socket.inbox (before ++ [e]) fs →
              ∀ receipt, receiptOf e.pre.messenger e.call.op = some receipt →
                e.reply.code = some .success →
                  ∃ marks f unread,
                    List.Forall₂ Took (before ++ [e]) (marks ++ [some f]) ∧
                    fs = taken marks ++ f :: unread ∧ isReceipt f = true ∧
                    receiptId f = some (aprItoa (cInt receipt.toNat)) := by
  intro h
  have hrun : (exec (step .sample) opened lateCalls).map (fun p =>
      (p.1.map (fun e => (e.reply.code, receiptOf e.pre.messenger e.call.op)),
        p.1.map fun e => e.pre.messenger.connection.map (·.inbox))) =
        some ([(some .failure, some 1), (some .success, some 2)],
          [some [], some []]) := by
    decide +kernel
  obtain ⟨⟨log, w'⟩, hexec, hpair⟩ := Option.map_eq_some_iff.mp hrun
  obtain ⟨hreplies, hinboxes⟩ := Prod.mk.inj hpair
  obtain ⟨e₁, es, rfl, he₁, hes⟩ := List.map_eq_cons_iff.mp (exec_calls hexec)
  obtain ⟨e₂, rfl, he₂⟩ := List.map_eq_singleton_iff.mp hes
  obtain ⟨hreply₁, hreplies⟩ := List.cons.inj hreplies
  obtain ⟨hcode₂, hreceipt₂⟩ := Prod.mk.inj (List.singleton_inj.mp hreplies)
  have hreceipt₁ := (Prod.mk.inj hreply₁).2
  have hinbox₂ := List.singleton_inj.mp (List.cons.inj hinboxes).2
  obtain ⟨socket, hsocket, hinbox⟩ := Option.map_eq_some_iff.mp opened_inbox
  obtain ⟨earlier, hearlier⟩ := opened_reachable
  have horderly : ∀ e ∈ [e₁] ++ [e₂], Orderly e.pre e.call := by
    intro e he
    rcases List.mem_append.mp he with he | he
    · obtain rfl := List.mem_singleton.mp he
      rw [he₁]
      exact ⟨fun header hc => (by cases hc), fun turn ht => (by cases ht),
        fun _ hok => (by cases hok)⟩
    · obtain rfl := List.mem_singleton.mp he
      rw [he₂]
      exact orderly_of_uncounted (fun header hc => by cases hc)
        (fun turn ht => by cases ht) hinbox₂ (List.append_nil _).symm
        (by decide : Unwrapped firstReceipt) (by decide)
  have hstream : socket.inbox ++ arrivals ([e₁] ++ [e₂]) ++ [] =
      streamOf WireFrame.bytes [firstReceipt] := by
    rw [hinbox]
    simp [arrivals, he₁, he₂, receiptSend, Net.quiet]
  have hanswering : Answering socket.inbox ([e₁] ++ [e₂]) [firstReceipt] := by
    rw [hinbox]
    refine answering_of_first ?_
    rw [requestId, hreceipt₁]
    decide +kernel
  obtain ⟨marks, f, unread, -, hfs, -, hid⟩ :=
    h .sample opened w' [e₁] e₂ (exec_run hexec) ⟨0, earlier, hearlier⟩ socket
      hsocket horderly
      [firstReceipt] [] hstream hanswering 2 hreceipt₂ hcode₂
  have hmem : f ∈ [firstReceipt] :=
    hfs ▸ List.mem_append_right _ List.mem_cons_self
  rw [List.mem_singleton.mp hmem] at hid
  exact absurd hid (by decide +kernel)

end LibStomp.Session.Receipts
