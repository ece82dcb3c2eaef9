import LibStomp.Session.Properties

/-!
# Exchange properties as a map whose last writer wins

`stomp_exchange_get` sees one name of a table that `stomp_exchange_add` changes
in place, `stomp_receive` replaces by a merged one and `stomp_exchange_clear`
empties.  Over any run the name has the value its last writer gave it, and no
other operation writes.

## Main results

* `exchangeGet_lastWritten` — the value of a property after a run, from the log
  alone.
-/

namespace LibStomp.Session.LastWriter

open LibStomp.Model
open LibStomp.Verified.Runs
open LibStomp.Session.Steps
open LibStomp.Session.Properties

/-! ## Lookups -/

theorem lookup_aprHashSet (t : Hash) (k name : CString)
    (value : Option CString) :
    (aprHashSet t name value).lookup k =
      if name = k then value else t.lookup k := by
  by_cases hk : name = k
  · subst hk
    cases value with
    | none => rw [aprHashSet, AList.lookup_erase, if_pos rfl]
    | some v => rw [aprHashSet, AList.lookup_insert, if_pos rfl]
  · cases value with
    | none => rw [aprHashSet, AList.lookup_erase_ne (Ne.symm hk), if_neg hk]
    | some v => rw [aprHashSet, AList.lookup_insert_ne (Ne.symm hk), if_neg hk]

theorem lookup_aprHashOverlay (t u : Hash) (k : CString) :
    (aprHashOverlay t u).lookup k = (t.lookup k).or (u.lookup k) := by
  by_cases hk : k ∈ t
  · obtain ⟨v, hv⟩ := Option.isSome_iff_exists.mp (AList.lookup_isSome.mpr hk)
    rw [aprHashOverlay, AList.lookup_union_left hk, hv, Option.some_or]
  · rw [aprHashOverlay, AList.lookup_union_right hk,
      AList.lookup_eq_none.mpr hk, Option.none_or]

theorem lookup_stompWriteReceipt (t : Hash) (receipt : UInt32) {k : CString}
    (hk : .lit "receipt" ≠ k) :
    (stompWriteReceipt t receipt).lookup k = t.lookup k := by
  unfold stompWriteReceipt
  split
  · rw [lookup_aprHashSet, if_neg hk]
  · rfl

theorem lookup_stompWriteTransactionId (t : Hash) (transactionId : Int64)
    {k : CString} (hk : .lit "transaction" ≠ k) :
    (stompWriteTransactionId t transactionId).lookup k = t.lookup k := by
  unfold stompWriteTransactionId
  split
  · rw [lookup_aprHashSet, if_neg hk]
  · rfl

/-! ## One call -/

/-- What a call makes of the property `k`: its new value, which may be none, or
nothing if the call leaves the property alone. -/
def writtenBy (A : Apr) (k : CString) (e : Event World Call Reply) :
    Option (Option CString) :=
  match e.call.op with
  | .exchangeAdd name value => if name = k then some value else none
  | .exchangeClear => some none
  | .receive _ => ((receivedHeaders A e).lookup k).map some
  | _ => none

/-- The value a run leaves of the property `k`. -/
def lastValue (A : Apr) (k : CString) (log : Log) : Option CString :=
  (lastWritten (writtenBy A k) log).join

/-- The operations that write exchange properties. -/
def writesProperties : Op → Bool
  | .exchangeAdd _ _ => true
  | .exchangeClear => true
  | .receive _ => true
  | _ => false

/-- A call writes the property or leaves it alone. -/
theorem lookup_nextProperties (A : Apr) (k : CString)
    (e : Event World Call Reply) :
    (nextProperties A e).lookup k = (writtenBy A k e).getD
      (e.pre.messenger.exchangeProperties.lookup k) := by
  unfold nextProperties writtenBy
  cases e.call.op with
  | exchangeAdd name value =>
      simp only []
      rw [lookup_aprHashSet]
      by_cases hk : name = k
      · simp [hk]
      · simp [hk]
  | exchangeClear => rfl
  | receive message =>
      simp only []
      rw [lookup_aprHashOverlay]
      cases (receivedHeaders A e).lookup k <;> rfl
  | _ => rfl

/-- The other operations keep all properties. -/
theorem keepsProperties {A : Apr} {e : Event World Call Reply}
    (h : step A e.pre e.call = some (e.reply, e.post))
    (hop : writesProperties e.call.op = false) :
    e.post.messenger.exchangeProperties =
      e.pre.messenger.exchangeProperties := by
  rw [(settings_step h).1]
  unfold nextProperties
  cases hcase : e.call.op <;> first | rfl | (rw [hcase] at hop; cases hop)

/-! ## Runs -/

theorem exchangeGet_value {A : Apr} {options : UInt32} {w : World} {log : Log}
    (h : Run (step A) (stompMessengerInit options) log w) (k : CString) :
    stompExchangeGet k w = lastValue A k log := by
  have hstep : ∀ e ∈ log, step A e.pre e.call = some (e.reply, e.post) →
      stompExchangeGet k e.post =
        (writtenBy A k e).getD (stompExchangeGet k e.pre) := by
    intro e _ hstep
    rw [stompExchangeGet, (settings_step hstep).1, lookup_nextProperties]
    rfl
  have hinit : stompExchangeGet k (stompMessengerInit options) = none :=
    AList.lookup_empty k
  rw [h.lastWritten_eq hstep, lastValue, hinit]
  cases lastWritten (writtenBy A k) log <;> rfl

/-- **A property has the value its last writer gave it**: the last
`stomp_exchange_add` of the name or frame that `stomp_receive` read with such a
header, if no `stomp_exchange_clear` came after it.  No other operation changes
any property. -/
theorem exchangeGet_lastWritten (A : Apr) (options : UInt32) (w : World)
    (log : Log) (h : Run (step A) (stompMessengerInit options) log w) :
    (∀ k, stompExchangeGet k w = lastValue A k log) ∧
      ∀ e ∈ log, writesProperties e.call.op = false →
        ∀ k, stompExchangeGet k e.post = stompExchangeGet k e.pre := by
  refine ⟨exchangeGet_value h, fun e he hop k => ?_⟩
  rw [stompExchangeGet, keepsProperties (h.step_of_mem he) hop]
  rfl

/-- A property is added, a frame with that header is received, and a message is sent
with a receipt. -/
def overwriteCalls : List Call :=
  opening ++
    [⟨.exchangeAdd (.lit "a") (some (.lit "1")), .quiet []⟩,
      ⟨.receive stompMessageCreate,
        .quiet (ascii "MESSAGE\na:2\n\nx" ++ [nul, lf])⟩,
      ⟨.send (some ⟨-1, 1⟩) (stompMessageFormat stompMessageCreate (ascii "y") 1),
        .quiet (ascii "RECEIPT\na:3\n\n" ++ [nul, lf])⟩]

theorem exchangeGet_overwriteCalls :
    ∃ (log : Log) (w : World), log.map Event.call = overwriteCalls ∧
      stompExchangeGet (.lit "a") w = lastValue .sample (.lit "a") log ∧
        stompExchangeGet (.lit "a") w = some (.lit "2") := by
  have hrun : (exec (step .sample) (stompMessengerInit 0) overwriteCalls).map
      (fun p => stompExchangeGet (.lit "a") p.2) = some (some (.lit "2")) := by
    decide +kernel
  obtain ⟨⟨log, w⟩, hexec, hvalue⟩ := Option.map_eq_some_iff.mp hrun
  exact ⟨log, w, exec_calls hexec,
    (exchangeGet_lastWritten .sample 0 w log (exec_run hexec)).1 _, hvalue⟩

end LibStomp.Session.LastWriter
