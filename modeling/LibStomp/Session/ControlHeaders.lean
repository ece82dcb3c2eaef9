import LibStomp.Session.LastWriter
import LibStomp.Session.Outbox

/-!
# Where the control headers of a SEND come from

`stomp_send` puts `receipt` and `transaction` on top of a copy of the exchange
properties, and only if its call asks for them.  The exchange properties hold
every header of every frame that `stomp_receive` has read, so what a peer once
sent under these names goes out again with the next message.

## Main results

* `send_controlHeaders` — a SEND has such a header if its call asks for it or the
  exchange properties hold one; the call's value goes first.
-/

namespace LibStomp.Session.ControlHeaders

open LibStomp.Model
open LibStomp.Verified.Runs
open LibStomp.Session.Steps
open LibStomp.Session.Outbox
open LibStomp.Session.Properties
open LibStomp.Session.LastWriter
open LibStomp.Stream.Grammar
open LibStomp.Stream.WriteFrame
open LibStomp.Stream.CleanFrames

/-! ## What a call asks for -/

def receiptAsked (header : Option SendHeader) : Option Int :=
  header.bind fun h => if 0 < h.receipt then some h.receipt.toNat else none

def transactionAsked (header : Option SendHeader) : Option Int :=
  header.bind fun h =>
    if -1 < h.transactionId then some h.transactionId.toInt else none

theorem receiptAsked_nonneg {header : Option SendHeader} {i : Int}
    (h : receiptAsked header = some i) : 0 ≤ i := by
  unfold receiptAsked at h
  obtain ⟨s, -, hif⟩ := Option.bind_eq_some_iff.mp h
  split at hif
  · obtain rfl := Option.some.inj hif
    exact Int.natCast_nonneg _
  · cases hif

theorem transactionAsked_nonneg {header : Option SendHeader} {i : Int}
    (h : transactionAsked header = some i) : 0 ≤ i := by
  unfold transactionAsked at h
  obtain ⟨s, -, hif⟩ := Option.bind_eq_some_iff.mp h
  split at hif
  · rename_i hlt
    obtain rfl := Option.some.inj hif
    have := Int64.lt_iff_toInt_lt.mp hlt
    simp at this
    omega
  · cases hif

/-- The text `apr_itoa` makes of a value that is passed as an `int`. -/
def valueText (i : Int) : CString := aprItoa (cInt i)

private theorem lookup_receiptAsked (t : Hash) (header : SendHeader) (k : CString) :
    (stompWriteReceipt t header.receipt).lookup k =
      if k = .lit "receipt" then
        ((receiptAsked (some header)).map valueText).or (t.lookup k)
      else t.lookup k := by
  by_cases hk : k = .lit "receipt"
  · subst hk
    unfold stompWriteReceipt receiptAsked
    rw [if_pos rfl, Option.bind_some]
    by_cases hpos : 0 < header.receipt
    · rw [if_pos hpos, if_pos hpos, lookup_aprHashSet, if_pos rfl]
      rfl
    · rw [if_neg hpos, if_neg hpos, Option.map_none, Option.none_or]
  · rw [if_neg hk, lookup_stompWriteReceipt _ _ (Ne.symm hk)]

private theorem lookup_transactionAsked (t : Hash) (header : SendHeader)
    (k : CString) :
    (stompWriteTransactionId t header.transactionId).lookup k =
      if k = .lit "transaction" then
        ((transactionAsked (some header)).map valueText).or (t.lookup k)
      else t.lookup k := by
  by_cases hk : k = .lit "transaction"
  · subst hk
    unfold stompWriteTransactionId transactionAsked
    rw [if_pos rfl, Option.bind_some]
    by_cases hasked : -1 < header.transactionId
    · rw [if_pos hasked, if_pos hasked, lookup_aprHashSet, if_pos rfl]
      rfl
    · rw [if_neg hasked, if_neg hasked, Option.map_none, Option.none_or]
  · rw [if_neg hk, lookup_stompWriteTransactionId _ _ (Ne.symm hk)]

/-- What a send writes under a name is in its call, or else in the exchange
properties. -/
theorem lookup_sendHeaders (properties : Hash) (destination : Option CString)
    (header : Option SendHeader) (k : CString) :
    (sendHeaders properties destination header).lookup k =
      if k = .lit "receipt" then
        ((receiptAsked header).map valueText).or (properties.lookup k)
      else if k = .lit "transaction" then
        ((transactionAsked header).map valueText).or (properties.lookup k)
      else if k = .lit "destination" then destination
      else properties.lookup k := by
  have hdestination : (aprHashSet properties (.lit "destination") destination).lookup
      k = if k = .lit "destination" then destination else properties.lookup k := by
    rw [lookup_aprHashSet]
    simp only [eq_comm]
  have hreceipt : k = .lit "receipt" → k ≠ .lit "destination" := by
    rintro rfl
    decide
  have htransaction : k = .lit "transaction" →
      k ≠ .lit "receipt" ∧ k ≠ .lit "destination" := by
    rintro rfl
    decide
  unfold sendHeaders
  cases header with
  | none =>
      rw [hdestination]
      simp only [receiptAsked, transactionAsked, Option.bind_none, Option.map_none,
        Option.none_or]
      grind
  | some header =>
      show (stompWriteReceipt _ header.receipt).lookup k = _
      rw [lookup_receiptAsked, lookup_transactionAsked, hdestination]
      grind

/-! ## Headers of a frame -/

/-- `stomp_write` writes the header `k` of the frame with the value `v`. -/
def Carries (O : HashOrder) (frame : Frame) (k v : CString) : Prop :=
  (⟨k, v⟩ : Header) ∈ writtenHeaders O frame

/-- A reader of the grammar finds the header `k` with the value `v`. -/
def WireCarries (bs : Bytes) (k v : CString) : Prop :=
  ∃ ls, wireLines bs = some ls ∧ ∃ l ∈ ls, nameOf l = k ∧ valueOf l = v

theorem carries_iff (O : HashOrder) {frame : Frame} {headers : Hash}
    (h : frame.headers = some headers) {k : CString}
    (hk : k ≠ .lit "content-length") (v : CString) :
    Carries O frame k v ↔ headers.lookup k = some v := by
  have hne : (⟨k, v⟩ : Header) ≠ lengthHeader frame :=
    fun heq => hk (congrArg Sigma.fst heq)
  rw [Carries, writtenHeaders, h, List.mem_append, List.mem_singleton,
    or_iff_left hne, (O.perm headers).mem_iff, ← AList.mem_lookup_iff,
    Option.mem_def]

/-- A reader of a clean frame finds the headers that were written. -/
theorem wireCarries_iff {frame : Frame} {headers : Hash}
    (c : CleanFrame frame headers) (O : HashOrder) (k v : CString) :
    WireCarries (encode O frame) k v ↔ Carries O frame k v := by
  have hlines : wireLines (encode O frame) = some (headerLines O frame) :=
    wireLines_frameBytes _ ⟨c.command_line, frame.command.nulFree⟩
      (c.lines_header O)
  constructor
  · rintro ⟨ls, hls, l, hl, rfl, rfl⟩
    obtain rfl := Option.some.inj (hlines.symm.trans hls)
    rw [← map_headerLine_written] at hl
    obtain ⟨h, hh, rfl⟩ := List.mem_map.mp hl
    have hname := (c.written_clean O hh).1
    rw [Carries, nameOf_headerLine hname, valueOf_headerLine hname]
    exact hh
  · intro hh
    have hname := (c.written_clean O hh).1
    refine ⟨_, hlines, headerLine ⟨k, v⟩, ?_, nameOf_headerLine hname,
      valueOf_headerLine hname⟩
    rw [← map_headerLine_written]
    exact List.mem_map_of_mem hh

/-! ## Runs -/

/-- The header `k` of a frame is the one its call has asked for, or else the one the
exchange properties hold. -/
structure FromCall (O : HashOrder) (frame : Frame) (k : CString)
    (asked : Option Int) (held : Option CString) : Prop where
  present : (∃ v, Carries O frame k v) ↔ asked ≠ none ∨ held ≠ none
  own : ∀ i, asked = some i → i < 2 ^ 31 →
    ∀ v, Carries O frame k v ↔ v = aprItoa i
  durable : asked = none → ∀ v, Carries O frame k v ↔ held = some v

private theorem fromCall_of_lookup (O : HashOrder) {frame : Frame}
    {headers : Hash} (h : frame.headers = some headers) {k : CString}
    (hk : k ≠ .lit "content-length") {asked : Option Int} {held : Option CString}
    (hpos : ∀ i, asked = some i → 0 ≤ i)
    (hlookup : headers.lookup k = (asked.map valueText).or held) :
    FromCall O frame k asked held := by
  have hcarries := fun v => carries_iff O h hk v
  constructor
  · simp only [hcarries, hlookup]
    cases asked with
    | none => simp [Option.ne_none_iff_exists']
    | some i => simp
  · intro i hi hlt v
    have hnat : cInt i = i := by
      obtain ⟨n, rfl⟩ := Int.eq_ofNat_of_zero_le (hpos i hi)
      exact cInt_eq_of_lt (by omega)
    rw [hcarries, hlookup, hi, Option.map_some, Option.some_or, valueText, hnat,
      Option.some.injEq, eq_comm]
  · intro hnone v
    rw [hcarries, hlookup, hnone, Option.map_none, Option.none_or]

/-- The application adds neither of the two properties. -/
def AddsNone (e : Event World Call Reply) : Prop :=
  ∀ name value, e.call.op = .exchangeAdd name (some value) →
    name ≠ .lit "receipt" ∧ name ≠ .lit "transaction"

/-- What the exchange properties hold under a name that the application does not
add has come with a frame. -/
theorem received_of_lastValue {A : Apr} {log : Log} {k v : CString}
    (hadds : ∀ e ∈ log, ∀ value, e.call.op ≠ .exchangeAdd k (some value))
    (h : lastValue A k log = some v) :
    ∃ r ∈ log, (receivedHeaders A r).lookup k = some v := by
  obtain ⟨r, hr, hwritten⟩ := mem_of_lastWritten (Option.join_eq_some_iff.mp h)
  refine ⟨r, hr, ?_⟩
  unfold writtenBy at hwritten
  split at hwritten
  · rename_i name value hop
    split at hwritten
    · rename_i hk
      obtain rfl := Option.some.inj hwritten
      subst hk
      exact absurd hop (hadds r hr v)
    · cases hwritten
  · cases hwritten
  · obtain ⟨u, hu, huv⟩ := Option.map_eq_some_iff.mp hwritten
    obtain rfl := Option.some.inj huv
    exact hu
  · cases hwritten

/-- **A SEND has a control header if its call asks for it, or if a frame that was
received before has left one**, which an application that adds none of them can
only clear away.  A reader finds the same headers if the strings of the
application keep clear of the separators. -/
theorem send_controlHeaders (A : Apr) (options : UInt32) (w' : World)
    (before after : Log) (e : Event World Call Reply)
    (h : Run (step A) (stompMessengerInit options) (before ++ e :: after) w')
    (header : Option SendHeader) (message : Message)
    (hsend : e.call.op = .send header message)
    (hadds : ∀ r ∈ before, AddsNone r) :
    ∃ frame bs, sendFrame e.pre.messenger header message = some frame ∧
      Added e bs ∧ bs <+: encode e.call.net.order frame ∧
      FromCall e.call.net.order frame (.lit "receipt") (receiptAsked header)
        (lastValue A (.lit "receipt") before) ∧
      FromCall e.call.net.order frame (.lit "transaction")
        (transactionAsked header) (lastValue A (.lit "transaction") before) ∧
      (∀ k ∈ [CString.lit "receipt", .lit "transaction"], ∀ v,
        lastValue A k before = some v →
          ∃ r ∈ before, (receivedHeaders A r).lookup k = some v) ∧
      ((∀ r ∈ before, CleanCall A r.call) → ∀ k v,
        WireCarries (encode e.call.net.order frame) k v ↔
          Carries e.call.net.order frame k v) := by
  obtain ⟨w, hbefore, hafter⟩ := h.split
  obtain ⟨pre, ⟨op, net⟩, reply, post⟩ := e
  obtain rfl : op = .send header message := hsend
  cases hafter with
  | cons head rest =>
      obtain ⟨q, hrequest, hframe⟩ := request_of_send head
      obtain ⟨bs, hadded, hprefix, -⟩ :=
        added_of_request (e := ⟨w, ⟨.send header message, net⟩, reply, post⟩)
          head hrequest
      obtain ⟨destination, -, hq⟩ := Option.bind_eq_some_iff.mp hframe
      have hheaders : q.frame.headers = some
          (sendHeaders w.messenger.exchangeProperties destination header) := by
        rw [← Option.some.inj hq]
      have hheld : ∀ k, w.messenger.exchangeProperties.lookup k =
          lastValue A k before :=
        exchangeGet_value hbefore
      refine ⟨q.frame, bs, hframe, hadded, hprefix, ?_, ?_, ?_, fun hclean => ?_⟩
      · apply fromCall_of_lookup net.order hheaders (by decide)
        · exact fun i hi => receiptAsked_nonneg hi
        · rw [lookup_sendHeaders, if_pos rfl, hheld]
      · apply fromCall_of_lookup net.order hheaders (by decide)
        · exact fun i hi => transactionAsked_nonneg hi
        · rw [lookup_sendHeaders, if_neg (by decide), if_pos rfl, hheld]
      · intro k hk v hv
        refine received_of_lastValue (fun r hr value hop => ?_) hv
        obtain ⟨hreceipt, htransaction⟩ := hadds r hr _ _ hop
        simp only [List.mem_cons, List.not_mem_nil, or_false] at hk
        rcases hk with hk | hk
        · exact hreceipt hk
        · exact htransaction hk
      · obtain ⟨_, -, -, hc⟩ :=
          cleanFrame_sendFrame (cleanSettings_run hbefore hclean) hframe
        exact wireCarries_iff hc net.order

/-- A message is received with a `receipt` of its own, and another one is sent. -/
def relayCalls : List Call :=
  (opening ++
    [⟨.receive stompMessageCreate,
      .quiet (ascii "MESSAGE\nreceipt:9\n\nx" ++ [nul, lf])⟩]) ++
    [⟨.send none (stompMessageFormat stompMessageCreate (ascii "y") 1),
      .quiet []⟩]

private theorem addsNone_relayCalls {log : Log}
    (hcalls : log.map Event.call = relayCalls) : ∀ r ∈ log, AddsNone r := by
  intro r hr name value hop
  have hcall : r.call ∈ relayCalls := hcalls ▸ List.mem_map_of_mem hr
  simp only [relayCalls, opening, List.mem_append, List.mem_cons,
    List.not_mem_nil, or_false] at hcall
  rcases hcall with ((hc | hc) | hc) | hc <;> (rw [hc] at hop; cases hop)

/-- The call is a send without a header, and its frame has the receipt 9. -/
def sendsReceipt (e : Event World Call Reply) : Bool :=
  match e.call.op with
  | .send none message =>
      match sendFrame e.pre.messenger none message with
      | some frame => decide ((⟨.lit "receipt", .lit "9"⟩ : Header) ∈
          writtenHeaders e.call.net.order frame)
      | none => false
  | _ => false

private theorem relayCalls_run :
    ∃ (log : Log) (w' : World), Run (step .sample) (stompMessengerInit 0) log w' ∧
      log.map Event.call = relayCalls ∧
        log.map sendsReceipt = [false, false, false, true] := by
  have hrun : (exec (step .sample) (stompMessengerInit 0) relayCalls).map
      (fun p => p.1.map sendsReceipt) =
        some [false, false, false, true] := by
    decide +kernel
  obtain ⟨⟨log, w'⟩, hexec, hsends⟩ := Option.map_eq_some_iff.mp hrun
  exact ⟨log, w', exec_run hexec, exec_calls hexec, hsends⟩

theorem send_controlHeaders_relayCalls :
    ∃ (before : Log) (frame : Frame) (O : HashOrder), before.length = 3 ∧
      FromCall O frame (.lit "receipt") none
        (lastValue .sample (.lit "receipt") before) := by
  obtain ⟨log, w', hrun, hcalls, -⟩ := relayCalls_run
  have hadds := addsNone_relayCalls hcalls
  obtain ⟨before, es, rfl, hbefore, hes⟩ := List.map_eq_append_iff.mp hcalls
  obtain ⟨e, rfl, he⟩ := List.map_eq_singleton_iff.mp hes
  obtain ⟨frame, _, -, -, -, hreceipt, -⟩ :=
    send_controlHeaders .sample 0 w' before [] e hrun none _
      (congrArg Call.op he) fun r hr => hadds r (List.mem_append_left _ hr)
  refine ⟨before, frame, _, ?_, hreceipt⟩
  rw [← List.length_map (f := Event.call), hbefore]
  rfl

/-- The SEND has the receipt of the message that was received. -/
theorem send_controlHeaders_fails :
    ¬ ∀ (A : Apr) (options : UInt32) (w' : World) (log : Log),
      Run (step A) (stompMessengerInit options) log w' →
        (∀ r ∈ log, AddsNone r) →
        ∀ e ∈ log, ∀ header message frame, e.call.op = .send header message →
          sendFrame e.pre.messenger header message = some frame →
            (∀ v, Carries e.call.net.order frame (.lit "receipt") v ↔
              (receiptAsked header).map valueText = some v) ∧
            ∀ v, Carries e.call.net.order frame (.lit "transaction") v ↔
              (transactionAsked header).map valueText = some v := by
  intro h
  obtain ⟨log, w', hrun, hcalls, hsends⟩ := relayCalls_run
  have hmem : true ∈ log.map sendsReceipt := by simp [hsends]
  obtain ⟨e, he, hsend⟩ := List.mem_map.mp hmem
  unfold sendsReceipt at hsend
  split at hsend
  · rename_i message hop
    split at hsend
    · rename_i frame hframe
      obtain ⟨hreceipt, -⟩ := h .sample 0 w' log hrun (addsNone_relayCalls hcalls)
        e he none message frame hop hframe
      have hnine : (⟨.lit "receipt", .lit "9"⟩ : Header) ∈
          writtenHeaders e.call.net.order frame := of_decide_eq_true hsend
      cases (hreceipt (.lit "9")).mp hnine
    · cases hsend
  · cases hsend

end LibStomp.Session.ControlHeaders
