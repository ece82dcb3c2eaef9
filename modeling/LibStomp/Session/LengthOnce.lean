import LibStomp.Session.ControlHeaders
import LibStomp.Stream.HeaderTexts

/-!
# Header names on the wire

`stomp_write` appends a `content-length` line of its own to the lines of the
table, without looking at the table.  `stomp_receive` merges the headers of the
frame it reads into the exchange properties, and `stomp_send` copies these into
its table.  So the length of a received frame is sent along with the next
message, ahead of the length of that message.  The strings of the table are
copied as they are, and one with a newline is more than one line to a reader.

## Main results

* `send_headersOnce_iff` — a reader of a SEND frame finds distinct header names and
  the one length computed for its body if and only if no call since the last one
  that removed it has put a `content-length` into the exchange properties, and
  these are cut at their newlines into lines of distinct names.
-/

namespace LibStomp.Session.LengthOnce

open LibStomp.Model
open LibStomp.Verified.Runs
open LibStomp.Session.Steps
open LibStomp.Session.Outbox
open LibStomp.Session.Properties
open LibStomp.Session.ControlHeaders
open LibStomp.Stream.Grammar
open LibStomp.Stream.WriteFrame
open LibStomp.Stream.CleanFrames
open LibStomp.Stream.HeaderTexts

/-! ## The texts of a SEND -/

/-- The headers that a send has from its call and the endpoint. -/
def callHeaders (destination : Option CString) (header : Option SendHeader) :
    List Header :=
  (destination.map fun d => ⟨.lit "destination", d⟩).toList ++
    ((transactionAsked header).map fun i => ⟨.lit "transaction", valueText i⟩).toList ++
      ((receiptAsked header).map fun i => ⟨.lit "receipt", valueText i⟩).toList

/-- These are the names under which a send ignores the exchange properties. -/
def supplies (header : Option SendHeader) (k : CString) : Bool :=
  k = .lit "destination" ||
    (k = .lit "transaction" && (transactionAsked header).isSome) ||
    (k = .lit "receipt" && (receiptAsked header).isSome)

/-- The headers that a send is given: those of its call and the exchange properties of
other names. -/
def sendTexts (properties : Hash) (destination : Option CString)
    (header : Option SendHeader) : List Header :=
  callHeaders destination header ++
    properties.entries.filter fun h => !supplies header h.1

private theorem names_ne : CString.lit "destination" ≠ .lit "transaction" ∧
    CString.lit "destination" ≠ .lit "receipt" ∧
    CString.lit "transaction" ≠ .lit "receipt" := by decide

theorem mem_callHeaders {destination : Option CString} {header : Option SendHeader}
    {k v : CString} :
    ⟨k, v⟩ ∈ callHeaders destination header ↔
      (k = .lit "destination" ∧ destination = some v) ∨
      (k = .lit "transaction" ∧
        (transactionAsked header).map valueText = some v) ∨
      (k = .lit "receipt" ∧ (receiptAsked header).map valueText = some v) := by
  have hone : ∀ (o : Option CString) (name : CString),
      (⟨k, v⟩ : Header) ∈ (o.map fun d => (⟨name, d⟩ : Header)).toList ↔
        k = name ∧ o = some v := by
    intro o name
    cases o with
    | none => simp
    | some d => simp [eq_comm]
  have htransaction := hone ((transactionAsked header).map valueText) (.lit "transaction")
  have hreceipt := hone ((receiptAsked header).map valueText) (.lit "receipt")
  rw [Option.map_map] at htransaction hreceipt
  unfold callHeaders
  rw [List.mem_append, List.mem_append, hone, or_assoc]
  exact or_congr_right (or_congr htransaction hreceipt)

private theorem supplies_of_mem {destination : Option CString}
    {header : Option SendHeader} {h : Header}
    (hh : h ∈ callHeaders destination header) : supplies header h.1 = true := by
  rcases mem_callHeaders.mp hh with ⟨hk, -⟩ | ⟨hk, hv⟩ | ⟨hk, hv⟩
  · simp [supplies, hk]
  · obtain ⟨i, hi, -⟩ := Option.map_eq_some_iff.mp hv
    simp [supplies, hk, hi]
  · obtain ⟨i, hi, -⟩ := Option.map_eq_some_iff.mp hv
    simp [supplies, hk, hi]

/-- They have distinct names. -/
theorem nodupKeys_sendTexts (properties : Hash) (destination : Option CString)
    (header : Option SendHeader) :
    (sendTexts properties destination header).NodupKeys := by
  have hcall : (callHeaders destination header).keys.Nodup := by
    unfold callHeaders List.keys
    cases destination <;> cases transactionAsked header <;>
      cases receiptAsked header <;> simp [names_ne]
  have hkept : (List.keys (properties.entries.filter
      fun h => !supplies header h.1)).Nodup :=
    (properties.nodupKeys).sublist List.filter_sublist
  unfold sendTexts List.NodupKeys List.keys
  rw [List.map_append]
  refine hcall.append hkept fun k hk hk' => ?_
  obtain ⟨h, hh, rfl⟩ := List.mem_map.mp hk
  obtain ⟨h', hh', heq⟩ := List.mem_map.mp hk'
  have hno := (List.mem_filter.mp hh').2
  rw [heq, supplies_of_mem hh] at hno
  cases hno

/-- The table of the SEND has these headers. -/
theorem sendTexts_perm (properties : Hash) (destination : Option CString)
    (header : Option SendHeader) :
    (sendHeaders properties destination header).entries.Perm
      (sendTexts properties destination header) := by
  have hnodup := nodupKeys_sendTexts properties destination header
  have htable := (sendHeaders properties destination header).nodupKeys
  rw [List.perm_ext_iff_of_nodup htable.nodup hnodup.nodup]
  rintro ⟨k, v⟩
  have hkept : (⟨k, v⟩ : Header) ∈ (properties.entries.filter
      fun h => !supplies header h.1) ↔
        properties.lookup k = some v ∧ supplies header k = false := by
    rw [List.mem_filter, ← AList.mem_lookup_iff, Option.mem_def, Bool.not_eq_true']
  rw [← AList.mem_lookup_iff, Option.mem_def, lookup_sendHeaders, sendTexts,
    List.mem_append, mem_callHeaders, hkept]
  obtain ⟨htransaction, hreceipt, hboth⟩ := names_ne
  clear hnodup htable hkept
  unfold supplies
  cases receiptAsked header <;> cases transactionAsked header <;> grind

/-- The texts of a send are cut into header lines of distinct names, and none but the
property of that name into one with a length. -/
def SendsDistinct (m : Messenger) (header : Option SendHeader) : Prop :=
  ∀ destination ∈ strippedDestination m,
    Distinct (sendTexts m.exchangeProperties destination header)

instance (m : Messenger) (header : Option SendHeader) :
    Decidable (SendsDistinct m header) :=
  inferInstanceAs (Decidable (∀ destination ∈ strippedDestination m,
    Distinct (sendTexts m.exchangeProperties destination header)))

/-- Strings that keep clear of the separators are distinct lines. -/
theorem sendsDistinct_clean {w : World} (hs : CleanSettings w)
    (header : Option SendHeader) : SendsDistinct w.messenger header := by
  intro destination hdestination
  have hclean := cleanTable_sendHeaders header hs.properties
    (strippedDestination_clean hs hdestination)
  exact (distinct_clean hclean (AList.nodupKeys _)).perm (sendTexts_perm _ _ _)

/-! ## Runs -/

/-- Since it was last removed, a call has put a `content-length` into the exchange
properties. -/
def LengthHeld (A : Apr) (log : Log) : Prop :=
  ∃ r ∈ log.rtakeWhile (fun r => !removes (.lit "content-length") r),
    Puts A (.lit "content-length") r

/-- **A reader of what is sent finds each header name once, and the length computed for
the body as its only one, exactly when the history holds no length** and the texts
of the send are distinct lines, as they are if the strings of the application keep
clear of the separators. -/
theorem send_headersOnce_iff (A : Apr) (options : UInt32) (w' : World)
    (before after : Log) (e : Event World Call Reply)
    (h : Run (step A) (stompMessengerInit options) (before ++ e :: after) w')
    (header : Option SendHeader) (message : Message)
    (hsend : e.call.op = .send header message) :
    ∃ frame bs, sendFrame e.pre.messenger header message = some frame ∧
      Added e bs ∧ bs <+: encode e.call.net.order frame ∧
      (HeadersOnce e.call.net.order frame ↔
        ¬ LengthHeld A before ∧ SendsDistinct e.pre.messenger header) ∧
      ((∀ r ∈ before, CleanCall A r.call) → SendsDistinct e.pre.messenger header) := by
  obtain ⟨w, hbefore, hafter⟩ := h.split
  obtain ⟨pre, ⟨op, net⟩, reply, post⟩ := e
  obtain rfl : op = .send header message := hsend
  cases hafter with
  | cons head rest =>
      obtain ⟨q, hrequest, hframe⟩ := request_of_send head
      obtain ⟨bs, hadded, hprefix, -⟩ :=
        added_of_request (e := ⟨w, ⟨.send header message, net⟩, reply, post⟩)
          head hrequest
      obtain ⟨destination, hdestination, hq⟩ := Option.bind_eq_some_iff.mp hframe
      have hperm := sendTexts_perm w.messenger.exchangeProperties destination header
      have hlength : .lit "content-length" ∈
          (sendTexts w.messenger.exchangeProperties destination header).keys ↔
            LengthHeld A before := by
        have hkeys := (hperm.map Sigma.fst).mem_iff (a := .lit "content-length")
        exact hkeys.symm.trans (length_mem_sendHeaders.trans
          (mem_exchangeProperties_iff hbefore (.lit "content-length")))
      have hdistinct : SendsDistinct w.messenger header ↔
          Distinct (sendTexts w.messenger.exchangeProperties destination header) := by
        refine ⟨fun h => h destination hdestination, fun h d hd => ?_⟩
        obtain rfl := Option.some.inj (hd.symm.trans hdestination)
        exact h
      refine ⟨q.frame, bs, hframe, hadded, hprefix, ?_, fun hclean =>
        sendsDistinct_clean (cleanSettings_run hbefore hclean) header⟩
      have hcommand : lf ∉ (CString.lit "SEND").bytes := by decide
      rw [hdistinct, ← hlength, ← Option.some.inj hq]
      exact headersOnce_iff net.order rfl hperm hcommand

/-- A message of one octet is received. -/
def lengthReceived : Call :=
  ⟨.receive stompMessageCreate,
    .quiet (ascii "MESSAGE\ncontent-length:1\n\nx" ++ [nul, lf])⟩

/-- A message of two octets is sent. -/
def plainSend : Call :=
  ⟨.send none (stompMessageFormat stompMessageCreate (ascii "ok") 2), .quiet []⟩

def clearCall : Call := ⟨.exchangeClear, .quiet []⟩

/-- A property is added that a reader takes for two. -/
def twoLinesCall : Call :=
  ⟨.exchangeAdd (.lit "a") (some (.lit "1\nb:2")), .quiet []⟩

/-- The headers of the received message are cleared before another one is sent. -/
def clearedCalls : List Call :=
  ((opening ++ [lengthReceived]) ++ [clearCall, twoLinesCall]) ++ [plainSend]

/-- The texts of the call, if it is a send, are distinct lines. -/
private def sendsDistinct (e : Event World Call Reply) : Bool :=
  match e.call.op with
  | .send header _ => decide (SendsDistinct e.pre.messenger header)
  | _ => false

/-- Nothing that is done after the properties were cleared puts a length there. -/
private theorem not_lengthHeld {A : Apr} {log : Log}
    (hcalls : log.map Event.call =
      (opening ++ [lengthReceived]) ++ [clearCall, twoLinesCall]) :
    ¬ LengthHeld A log := by
  obtain ⟨log₀, es, rfl, -, hes⟩ := List.map_eq_append_iff.mp hcalls
  obtain ⟨cleared, es, rfl, hcleared, hes⟩ := List.map_eq_cons_iff.mp hes
  obtain ⟨added, rfl, hadded⟩ := List.map_eq_singleton_iff.mp hes
  rintro ⟨r, hr, hputs⟩
  have hremoves : removes (.lit "content-length") cleared = true := by
    rw [removes, hcleared]
    rfl
  have hsince : (log₀ ++ [cleared, added]).rtakeWhile
      (fun r => !removes (.lit "content-length") r) = [added] := by
    have hkeeps : removes (.lit "content-length") added = false := by
      rw [removes, hadded]
      rfl
    rw [List.append_cons, List.rtakeWhile_concat_pos _ _ _ (by simp [hkeeps]),
      List.rtakeWhile_concat_neg _ _ _ (by simp [hremoves]), List.nil_append]
  rw [hsince, List.mem_singleton] at hr
  subst hr
  rcases hputs with ⟨value, hop⟩ | hreceived
  · rw [hadded] at hop
    cases hop
  · obtain ⟨message, hop⟩ := receive_of_mem_receivedHeaders hreceived
    rw [hadded] at hop
    cases hop

theorem send_headersOnce_clearedCalls :
    ∃ (before : Log) (frame : Frame),
      before.map Event.call = (opening ++ [lengthReceived]) ++ [clearCall, twoLinesCall] ∧
      HeadersOnce plainSend.net.order frame := by
  have hrun : (exec (step .sample) (stompMessengerInit 0) clearedCalls).map (fun p =>
      p.1.map sendsDistinct) =
        some [false, false, false, false, false, true] := by
    decide +kernel
  obtain ⟨⟨log, w'⟩, hexec, hdistinct⟩ := Option.map_eq_some_iff.mp hrun
  obtain ⟨before, es, rfl, hbefore, hes⟩ :=
    List.map_eq_append_iff.mp (exec_calls hexec)
  obtain ⟨e, rfl, he⟩ := List.map_eq_singleton_iff.mp hes
  obtain ⟨frame, _, -, -, -, hiff, -⟩ :=
    send_headersOnce_iff .sample 0 w' before [] e (exec_run hexec) none _
      (congrArg Call.op he)
  rw [he] at hiff
  refine ⟨before, frame, hbefore, hiff.mpr ⟨not_lengthHeld hbefore, ?_⟩⟩
  have hlast : sendsDistinct e = true := by
    have hmem := congrArg List.getLast? hdistinct
    simpa using hmem
  rw [sendsDistinct, he] at hlast
  exact of_decide_eq_true hlast

/-- A message is received, and another one is sent. -/
def echoCalls : List Call := (opening ++ [lengthReceived]) ++ [plainSend]

/-- The call adds a `content-length` to the exchange properties. -/
def addsLength (e : Event World Call Reply) : Bool :=
  match e.call.op with
  | .exchangeAdd name _ => name = .lit "content-length"
  | _ => false

/-- How many length lines the frame of a send has. -/
private def lengthCount (e : Event World Call Reply) : Option Nat :=
  match e.call.op with
  | .send header message =>
      (sendFrame e.pre.messenger header message).bind fun frame =>
        (wireLines (encode e.call.net.order frame)).map fun ls =>
          (named (.lit "content-length") ls).length
  | _ => none

private theorem of_lengthCount {e : Event World Call Reply} {n : Nat}
    (h : lengthCount e = some n) :
    ∃ header message frame ls, e.call.op = .send header message ∧
      sendFrame e.pre.messenger header message = some frame ∧
      wireLines (encode e.call.net.order frame) = some ls ∧
        (named (.lit "content-length") ls).length = n := by
  unfold lengthCount at h
  split at h
  · rename_i header message hop
    obtain ⟨frame, hframe, hlines⟩ := Option.bind_eq_some_iff.mp h
    obtain ⟨ls, hls, hcount⟩ := Option.map_eq_some_iff.mp hlines
    exact ⟨header, message, frame, ls, hop, hframe, hls, hcount⟩
  · cases h

/-- The SEND frame has the length of the received message and its own. -/
private theorem echoCalls_run :
    ∃ (log : Log) (w' : World), Run (step .sample) (stompMessengerInit 0) log w' ∧
      log.map addsLength = [false, false, false, false] ∧
      log.map lengthCount = [none, none, none, some 2] := by
  have hrun : (exec (step .sample) (stompMessengerInit 0) echoCalls).map (fun p =>
      (p.1.map addsLength, p.1.map lengthCount)) =
        some ([false, false, false, false], [none, none, none, some 2]) := by
    decide +kernel
  obtain ⟨⟨log, w'⟩, hexec, hpair⟩ := Option.map_eq_some_iff.mp hrun
  obtain ⟨hadds, hcounts⟩ := Prod.mk.inj hpair
  exact ⟨log, w', exec_run hexec, hadds, hcounts⟩

/-- In that session the SEND frame has two length lines. -/
theorem send_headersOnce_fails :
    ¬ ∀ (A : Apr) (options : UInt32) (w' : World) (log : Log),
      Run (step A) (stompMessengerInit options) log w' →
        (∀ e ∈ log, addsLength e = false) →
        ∀ e ∈ log, ∀ header message frame, e.call.op = .send header message →
          sendFrame e.pre.messenger header message = some frame →
            HeadersOnce e.call.net.order frame := by
  intro h
  obtain ⟨log, w', hrun, hadds, hcounts⟩ := echoCalls_run
  have hmem : some 2 ∈ log.map lengthCount := by simp [hcounts]
  obtain ⟨e, he, hcount⟩ := List.mem_map.mp hmem
  obtain ⟨header, message, frame, ls, hop, hframe, hls, htwo⟩ :=
    of_lengthCount hcount
  have hnone : ∀ e ∈ log, addsLength e = false := by
    intro e he
    have hm := List.mem_map_of_mem (f := addsLength) he
    simpa [hadds] using hm
  obtain ⟨ls', hreads, -, hone⟩ :=
    h .sample 0 w' log hrun hnone e he header message frame hop hframe
  obtain rfl := Option.some.inj (hls.symm.trans hreads.lines)
  rw [hone] at htwo
  cases htwo

end LibStomp.Session.LengthOnce
