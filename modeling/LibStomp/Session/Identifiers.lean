import LibStomp.Session.ControlHeaders

/-!
# Identifiers in headers

Receipts are unsigned 32-bit numbers, messages and transactions have signed 64-bit
ones, subscriptions unsigned 16-bit ones.  All of them become header texts by
`apr_itoa`, which takes an `int`: what does not fit is narrowed first, and so gets
the text of another number.

## Main results

* `putsDecimal_iff` — an identifier is written as its decimal text if and only if
  it is below `2 ^ 31`.
-/

namespace LibStomp.Session.Identifiers

open LibStomp.Model
open LibStomp.Session.Steps
open LibStomp.Session.LastWriter
open LibStomp.Session.ControlHeaders

/-! ## The identifiers of a call -/

/-- An identifier and the name of its header. -/
abbrev Identifier := CString × Nat

def receiptIds (receipt : UInt32) : List Identifier :=
  if 0 < receipt then [(.lit "receipt", receipt.toNat)] else []

def messageIds (messageId : Int64) : List Identifier :=
  if -1 < messageId then [(.lit "id", messageId.toInt.toNat)] else []

def transactionIds (transactionId : Int64) : List Identifier :=
  if -1 < transactionId then [(.lit "transaction", transactionId.toInt.toNat)] else []

/-- The identifiers a call asks to be written. -/
def identifiers : Op → List Identifier
  | .disconnect (some header) => receiptIds header.receipt
  | .subscribe (some header) | .unsubscribe (some header) =>
      (.lit "id", header.id.toNat) :: receiptIds header.receipt
  | .ack (some header) | .nack (some header) =>
      messageIds header.messageId ++
        (transactionIds header.transactionId ++ receiptIds header.receipt)
  | .begin (some header) | .commit (some header) | .abort (some header) =>
      transactionIds header.transactionId ++ receiptIds header.receipt
  | .send (some header) _ =>
      transactionIds header.transactionId ++ receiptIds header.receipt
  | _ => []

/-! ## Their texts -/

/-- The text of the header `name` of a frame. -/
def textOf (frame : Frame) (name : CString) : Option CString :=
  frame.headers.bind fun headers => headers.lookup name

/-- The frame has the decimal text of the identifier. -/
def PutsDecimal (frame : Frame) (i : Identifier) : Prop :=
  ∃ text, textOf frame i.1 = some text ∧ text.bytes = decimal i.2

/-- A value above `-1` is a natural number. -/
private theorem toInt_of_asked {i : Int64} (h : -1 < i) :
    (i.toInt.toNat : Int) = i.toInt := by
  have hlt := Int64.lt_iff_toInt_lt.mp h
  simp at hlt
  omega

/-- Only what is asked for is there. -/
private theorem mem_ite_singleton {p : Prop} [Decidable p] {i j : Identifier}
    (h : i ∈ if p then [j] else []) : p ∧ i = j := by
  split at h
  · rename_i hp
    exact ⟨hp, List.mem_singleton.mp h⟩
  · cases h

theorem lookup_receiptIds {receipt : UInt32} {i : Identifier}
    (h : i ∈ receiptIds receipt) (t : Hash) :
    (stompWriteReceipt t receipt).lookup i.1 = some (valueText i.2) := by
  obtain ⟨hasked, rfl⟩ := mem_ite_singleton h
  rw [stompWriteReceipt, if_pos hasked, lookup_aprHashSet, if_pos rfl, valueText]

theorem lookup_messageIds {messageId : Int64} {i : Identifier}
    (h : i ∈ messageIds messageId) (t : Hash) :
    (stompWriteMessageId t messageId).lookup i.1 = some (valueText i.2) := by
  obtain ⟨hasked, rfl⟩ := mem_ite_singleton h
  rw [stompWriteMessageId, if_pos hasked, lookup_aprHashSet, if_pos rfl, valueText,
    toInt_of_asked hasked]

theorem lookup_transactionIds {transactionId : Int64} {i : Identifier}
    (h : i ∈ transactionIds transactionId) (t : Hash) :
    (stompWriteTransactionId t transactionId).lookup i.1 =
      some (valueText i.2) := by
  obtain ⟨hasked, rfl⟩ := mem_ite_singleton h
  rw [stompWriteTransactionId, if_pos hasked, lookup_aprHashSet, if_pos rfl, valueText,
    toInt_of_asked hasked]

/-- Only the name of a transaction, if it is asked for. -/
theorem name_of_transactionIds {transactionId : Int64} {i : Identifier}
    (h : i ∈ transactionIds transactionId) : i.1 = .lit "transaction" := by
  rw [(mem_ite_singleton h).2]

theorem name_of_messageIds {messageId : Int64} {i : Identifier}
    (h : i ∈ messageIds messageId) : i.1 = .lit "id" := by
  rw [(mem_ite_singleton h).2]

/-- The end of most tables: the transaction, then the receipt. -/
private theorem lookup_transactionReceipt {transactionId : Int64} {receipt : UInt32}
    {i : Identifier}
    (h : i ∈ transactionIds transactionId ++ receiptIds receipt) (t : Hash) :
    (stompWriteReceipt (stompWriteTransactionId t transactionId) receipt).lookup
      i.1 = some (valueText i.2) := by
  rcases List.mem_append.mp h with h | h
  · have hname : .lit "receipt" ≠ i.1 := by
      rw [name_of_transactionIds h]
      decide
    rw [lookup_stompWriteReceipt _ _ hname, lookup_transactionIds h]
  · exact lookup_receiptIds h _

private theorem lookup_subscription {subscription : UInt16} {receipt : UInt32}
    {i : Identifier}
    (h : i ∈ ((.lit "id", subscription.toNat) : Identifier) :: receiptIds receipt)
    (t : Hash) :
    (stompWriteReceipt
      (aprHashSet t (.lit "id") (some (aprItoa subscription.toNat))) receipt).lookup
      i.1 = some (valueText i.2) := by
  rcases List.mem_cons.mp h with rfl | h
  · have hlt : subscription.toNat < 2 ^ 31 :=
      Nat.lt_trans subscription.toNat_lt (by decide)
    have hname : CString.lit "receipt" ≠ .lit "id" := by decide
    rw [lookup_stompWriteReceipt _ _ hname, lookup_aprHashSet, if_pos rfl,
      valueText, cInt_eq_of_lt hlt]
  · exact lookup_receiptIds h _

private theorem textOf_ackFrame {command : CString} {header : AckHeader}
    {i : Identifier}
    (h : i ∈ messageIds header.messageId ++
      (transactionIds header.transactionId ++ receiptIds header.receipt)) :
    textOf (ackFrame command (some header)) i.1 = some (valueText i.2) := by
  show (stompWriteReceipt (stompWriteTransactionId
    (stompWriteMessageId ∅ header.messageId) header.transactionId)
    header.receipt).lookup i.1 = _
  rcases List.mem_append.mp h with h | h
  · have hname := name_of_messageIds h
    rw [lookup_stompWriteReceipt _ _ (by rw [hname]; decide),
      lookup_stompWriteTransactionId _ _ (by rw [hname]; decide),
      lookup_messageIds h]
  · exact lookup_transactionReceipt h _

/-- **Whatever identifier a call asks for, its header has the text of the value
narrowed to `int`.** -/
theorem textOf_request {m : Messenger} {op : Op} {q : Request}
    (hq : request m op = some q) {i : Identifier} (hid : i ∈ identifiers op) :
    textOf q.frame i.1 = some (valueText i.2) := by
  cases op with
  | disconnect header =>
      obtain rfl := Option.some.inj hq
      cases header with
      | none => cases hid
      | some header => exact lookup_receiptIds hid _
  | subscribe header =>
      cases header with
      | none => cases hq
      | some header =>
          obtain ⟨frame, hframe, rfl⟩ := Option.map_eq_some_iff.mp hq
          obtain ⟨_, -, hcontrol⟩ := Option.bind_eq_some_iff.mp hframe
          obtain rfl := Option.some.inj hcontrol
          exact lookup_subscription hid _
  | unsubscribe header =>
      cases header with
      | none => cases hq
      | some header =>
          obtain ⟨frame, hframe, rfl⟩ := Option.map_eq_some_iff.mp hq
          obtain ⟨_, -, hcontrol⟩ := Option.bind_eq_some_iff.mp hframe
          obtain rfl := Option.some.inj hcontrol
          exact lookup_subscription hid _
  | ack header =>
      obtain rfl := Option.some.inj hq
      cases header with
      | none => cases hid
      | some header => exact textOf_ackFrame hid
  | nack header =>
      obtain rfl := Option.some.inj hq
      cases header with
      | none => cases hid
      | some header => exact textOf_ackFrame hid
  | begin header =>
      obtain rfl := Option.some.inj hq
      cases header with
      | none => cases hid
      | some header => exact lookup_transactionReceipt hid _
  | commit header =>
      obtain rfl := Option.some.inj hq
      cases header with
      | none => cases hid
      | some header => exact lookup_transactionReceipt hid _
  | abort header =>
      obtain rfl := Option.some.inj hq
      cases header with
      | none => cases hid
      | some header => exact lookup_transactionReceipt hid _
  | send header message =>
      obtain ⟨frame, hframe, rfl⟩ := Option.map_eq_some_iff.mp hq
      obtain ⟨_, -, hsend⟩ := Option.bind_eq_some_iff.mp hframe
      obtain rfl := Option.some.inj hsend
      cases header with
      | none => cases hid
      | some header => exact lookup_transactionReceipt hid _
  | _ => cases hq

/-- Narrowing keeps the text of the numbers below `2 ^ 31`. -/
theorem bytes_valueText_iff {n : Nat} :
    (valueText n).bytes = decimal n ↔ n < 2 ^ 31 := by
  rw [valueText, bytes_aprItoa_eq_iff]
  constructor
  · intro h
    have hlt := cInt_lt n
    omega
  · exact cInt_eq_of_lt

private theorem putsDecimal_iff_lt {m : Messenger} {op : Op} {q : Request}
    (hq : request m op = some q) {i : Identifier} (hid : i ∈ identifiers op) :
    PutsDecimal q.frame i ↔ i.2 < 2 ^ 31 := by
  rw [PutsDecimal, textOf_request hq hid, ← bytes_valueText_iff]
  constructor
  · rintro ⟨text, htext, hdecimal⟩
    rwa [Option.some.inj htext]
  · intro h
    exact ⟨_, rfl, h⟩

/-- **An identifier survives its encoding if and only if it is below `2 ^ 31`**, and
two that do not differ in their texts are the same. -/
theorem putsDecimal_iff (m : Messenger) (op : Op) (q : Request)
    (hq : request m op = some q) (i : Identifier) (hid : i ∈ identifiers op) :
    (PutsDecimal q.frame i ↔ i.2 < 2 ^ 31) ∧
      ∀ m' op' q' i', request m' op' = some q' → i' ∈ identifiers op' →
        i.2 < 2 ^ 31 → i'.2 < 2 ^ 31 →
          textOf q.frame i.1 = textOf q'.frame i'.1 → i.2 = i'.2 := by
  refine ⟨putsDecimal_iff_lt hq hid, ?_⟩
  intro m' op' q' i' hq' hid' hlt hlt' hsame
  rw [textOf_request hq hid, textOf_request hq' hid'] at hsame
  have hbytes := congrArg CString.bytes (Option.some.inj hsame)
  rw [bytes_valueText_iff.mpr hlt, bytes_valueText_iff.mpr hlt'] at hbytes
  exact decimal_injective hbytes

/-- The acknowledgement of a message within a transaction. -/
def ackCall : Op := .ack (some ⟨5, 2147483647, 12⟩)

theorem putsDecimal_ackCall :
    ∃ q, request (stompMessengerInit 0).messenger ackCall = some q ∧
      PutsDecimal q.frame (.lit "id", 2147483647) := by
  obtain ⟨q, hq⟩ : ∃ q, request (stompMessengerInit 0).messenger ackCall = some q :=
    ⟨_, rfl⟩
  exact ⟨q, hq, (putsDecimal_iff _ ackCall q hq (.lit "id", 2147483647)
    (by decide)).1.mpr (by decide)⟩

/-- The begin of a transaction whose identifier is `2 ^ 32 + 1`. -/
def beginCall : Op := .begin (some ⟨4294967297, 0⟩)

/-- It has the text `1`. -/
theorem putsDecimal_fails :
    ¬ ∀ (m : Messenger) (op : Op) (q : Request), request m op = some q →
      ∀ i ∈ identifiers op, PutsDecimal q.frame i := by
  intro h
  obtain ⟨q, hq⟩ : ∃ q, request (stompMessengerInit 0).messenger beginCall = some q :=
    ⟨_, rfl⟩
  have hmem : (.lit "transaction", 4294967297) ∈ identifiers beginCall := by decide
  have hlt := (putsDecimal_iff_lt hq hmem).mp (h _ beginCall q hq _ hmem)
  exact absurd hlt (by decide)

end LibStomp.Session.Identifiers
