import LibStomp.Session.Steps
import LibStomp.Stream.ReadTables

/-!
# The exchange properties over a run

The exchange properties outlive the calls: `stomp_exchange_add` sets an entry,
`stomp_receive` merges the headers of the frame it reads, `stomp_exchange_clear`
empties the table, and `stomp_send` copies it into the frame it writes.  All
other operations leave it alone.

## Main results

* `settings_step` — the exchange properties and the endpoint after a call.
* `mem_exchangeProperties_iff` — a name is in the table exactly when a call since
  the last one that removed it has put it there.
* `cleanSettings_run` — if the strings of the application keep clear of the
  separators, so do all strings of a SEND frame.
-/

namespace LibStomp.Session.Properties

open LibStomp.Model
open LibStomp.Verified.Runs
open LibStomp.Session.Steps
open LibStomp.Stream.WriteFrame
open LibStomp.Stream.CleanFrames
open LibStomp.Stream.ReadTables

/-! ## Settings -/

/-- The parts of the messenger that outlive the calls are the same. -/
structure SameSettings (w w' : World) : Prop where
  exchangeProperties : w'.messenger.exchangeProperties =
    w.messenger.exchangeProperties
  uri : w'.messenger.uri = w.messenger.uri

section SameSettings

variable {A : Apr} {net : Net} {endline : UInt8} {w w' : World} {socket : Socket}

theorem ReadStep.settings {reading : Reading}
    (h : ReadStep A endline w socket reading w') :
    SameSettings w w' := by
  cases h <;> exact ⟨rfl, rfl⟩

theorem Waited.settings {code : StatusCode}
    (h : Waited A endline w socket code w') :
    SameSettings w w' := by
  cases h with
  | confirmed hread => exact ReadStep.settings hread
  | refused hread =>
      have hs := ReadStep.settings hread
      exact ⟨hs.exchangeProperties, hs.uri⟩

theorem Transacted.settings {q : Request} {code : StatusCode}
    (h : Transacted A net w q socket code w') : SameSettings w w' := by
  cases h with
  | unwritten => exact ⟨rfl, rfl⟩
  | written => exact ⟨rfl, rfl⟩
  | waited _ _ hwaited =>
      have hs := Waited.settings hwaited
      exact ⟨hs.exchangeProperties, hs.uri⟩

theorem Connected.settings {header : Option ConnectionHeader} {code : StatusCode}
    (h : Connected A net w header code w') : SameSettings w w' := by
  cases h with
  | unreachable => exact ⟨rfl, rfl⟩
  | unwritten => exact ⟨rfl, rfl⟩
  | refused _ _ _ hread =>
      have hs := ReadStep.settings hread
      exact ⟨hs.exchangeProperties, hs.uri⟩
  | confirmed _ _ hread =>
      have hs := ReadStep.settings hread
      exact ⟨hs.exchangeProperties, hs.uri⟩

end SameSettings

/-! ## One call -/

/-- The header table of a frame, if one was read. -/
def tableOf : Reading → Hash
  | .frame frame => frame.headers.getD ∅
  | _ => ∅

/-- The headers that a call of `stomp_receive` reads off the connection. -/
def receivedHeaders (A : Apr) (e : Event World Call Reply) : Hash :=
  match e.call.op, (e.pre.load e.call.net).readFrame A e.call.net.endline with
  | .receive _, some (reading, _) => tableOf reading
  | _, _ => ∅

/-- The exchange properties after a call. -/
def nextProperties (A : Apr) (e : Event World Call Reply) : Hash :=
  match e.call.op with
  | .exchangeAdd name value =>
      aprHashSet e.pre.messenger.exchangeProperties name value
  | .exchangeClear => ∅
  | .receive _ =>
      aprHashOverlay (receivedHeaders A e) e.pre.messenger.exchangeProperties
  | _ => e.pre.messenger.exchangeProperties

/-- The endpoint after a call. -/
def nextUri (A : Apr) (e : Event World Call Reply) : Option Uri :=
  match e.call.op with
  | .setEndpoint uri => some (A.uriParse uri).2
  | _ => e.pre.messenger.uri

private theorem receive_settings {A : Apr} {net : Net} {w w' : World}
    {message message' : Message} {code : StatusCode}
    (h : stompReceive A net message w = some (code, message', w')) :
    ∃ reading w₁, w.readFrame A net.endline = some (reading, w₁) ∧
      w'.messenger.exchangeProperties =
        aprHashOverlay (tableOf reading) w.messenger.exchangeProperties ∧
      w'.messenger.uri = w.messenger.uri := by
  unfold stompReceive at h
  obtain ⟨⟨reading, w₁⟩, hread, hrest⟩ := Option.bind_eq_some_iff.mp h
  obtain ⟨socket, -, hstep⟩ := readStep_of_readFrame hread
  obtain ⟨hprops, huri⟩ := ReadStep.settings hstep
  refine ⟨reading, w₁, hread, ?_⟩
  have hempty : aprHashOverlay ∅ w.messenger.exchangeProperties =
      w.messenger.exchangeProperties := AList.empty_union
  cases reading with
  | notReady =>
      obtain ⟨-, hpair⟩ := Prod.mk.inj (Option.some.inj hrest)
      obtain ⟨-, rfl⟩ := Prod.mk.inj hpair
      exact ⟨hprops.trans hempty.symm, huri⟩
  | failed rc =>
      have hw :
          w'.messenger.exchangeProperties = w₁.messenger.exchangeProperties ∧
          w'.messenger.uri = w₁.messenger.uri := by
        cases rc <;> (
          obtain ⟨-, hpair⟩ := Prod.mk.inj (Option.some.inj hrest)
          obtain ⟨-, rfl⟩ := Prod.mk.inj hpair
          exact ⟨rfl, rfl⟩)
      exact ⟨(hw.1.trans hprops).trans hempty.symm, hw.2.trans huri⟩
  | frame frame =>
      have hw : w' = merge frame w₁ := by
        simp only [] at hrest
        split at hrest
        · obtain ⟨-, hpair⟩ := Prod.mk.inj (Option.some.inj hrest)
          exact (Prod.mk.inj hpair).2.symm
        · obtain ⟨-, hpair⟩ := Prod.mk.inj (Option.some.inj hrest)
          exact (Prod.mk.inj hpair).2.symm
      subst hw
      exact ⟨congrArg (aprHashOverlay (tableOf (.frame frame))) hprops, huri⟩

/-- **What a call leaves of the exchange properties and the endpoint.** -/
theorem settings_step {A : Apr} {e : Event World Call Reply}
    (h : step A e.pre e.call = some (e.reply, e.post)) :
    e.post.messenger.exchangeProperties = nextProperties A e ∧
      e.post.messenger.uri = nextUri A e := by
  obtain ⟨pre, ⟨op, net⟩, reply, post⟩ := e
  have hstepped : Stepped A net pre op reply post := stepped_of_step h
  cases hstepped with
  | request hrequest hrun =>
      obtain ⟨socket, -, htransacted⟩ := transacted_of_transact hrun
      obtain ⟨hprops, huri⟩ := Transacted.settings htransacted
      -- every operation with a request keeps both
      cases op <;> first | exact ⟨hprops, huri⟩ | cases hrequest
  | connect hrun =>
      obtain ⟨hprops, huri⟩ := Connected.settings (connected_of_connect hrun)
      exact ⟨hprops, huri⟩
  | receive hrun =>
      obtain ⟨reading, w₁, hread, hprops, huri⟩ := receive_settings hrun
      refine ⟨?_, huri⟩
      simp only [nextProperties, receivedHeaders, hread]
      exact hprops
  | setEndpoint hrun =>
      obtain ⟨st, rfl, -⟩ := setEndpoint_cases hrun
      exact ⟨rfl, rfl⟩
  | noHeader => exact ⟨rfl, rfl⟩
  | exchangeAdd => exact ⟨rfl, rfl⟩
  | exchangeClear => exact ⟨rfl, rfl⟩

/-! ## Names in the table -/

/-- The call puts the name into the exchange properties. -/
def Puts (A : Apr) (k : CString) (e : Event World Call Reply) : Prop :=
  (∃ value, e.call.op = .exchangeAdd k (some value)) ∨ k ∈ receivedHeaders A e

/-- The call removes the name from the exchange properties. -/
def removes (k : CString) (e : Event World Call Reply) : Bool :=
  match e.call.op with
  | .exchangeAdd name none => name = k
  | .exchangeClear => true
  | _ => false

private theorem mem_aprHashSet {k name : CString} {value : Option CString}
    {t : Hash} :
    k ∈ aprHashSet t name value ↔
      ¬ (name = k ∧ value = none) ∧
        ((∃ v, name = k ∧ value = some v) ∨ k ∈ t) := by
  cases value with
  | none =>
      rw [aprHashSet, AList.mem_erase]
      simp [eq_comm]
  | some v =>
      rw [aprHashSet, AList.mem_insert]
      simp [eq_comm]

/-- Only `stomp_receive` reads headers. -/
theorem receive_of_mem_receivedHeaders {A : Apr} {k : CString}
    {e : Event World Call Reply}
    (h : k ∈ receivedHeaders A e) : ∃ message, e.call.op = .receive message := by
  unfold receivedHeaders at h
  split at h
  · rename_i message _ _ hop _
    exact ⟨message, hop⟩
  · exact absurd h (AList.notMem_empty k)

/-- What is in the table after a call. -/
theorem mem_nextProperties {A : Apr} {k : CString}
    {e : Event World Call Reply} :
    k ∈ nextProperties A e ↔
      removes k e = false ∧
        (Puts A k e ∨ k ∈ e.pre.messenger.exchangeProperties) := by
  obtain ⟨pre, ⟨op, net⟩, reply, post⟩ := e
  have hnone : ∀ op', (∀ message, op' ≠ .receive message) →
      k ∉ receivedHeaders A ⟨pre, ⟨op', net⟩, reply, post⟩ := by
    intro op' hop hm
    obtain ⟨message, hreceive⟩ := receive_of_mem_receivedHeaders hm
    exact hop message hreceive
  cases op with
  | receive message =>
      show k ∈ aprHashOverlay _ _ ↔ _
      rw [aprHashOverlay, AList.mem_union]
      simp [removes, Puts]
  | exchangeAdd name value =>
      have hno := hnone (.exchangeAdd name value) fun _ hop => nomatch hop
      show k ∈ aprHashSet _ name value ↔ _
      rw [mem_aprHashSet]
      cases value with
      | none => simp [removes, Puts, hno]
      | some v => simp [removes, Puts, hno, eq_comm]
  | exchangeClear =>
      show k ∈ (∅ : Hash) ↔ _
      simp [removes, AList.notMem_empty]
  | _ =>
      show k ∈ pre.messenger.exchangeProperties ↔ _
      simp [removes, Puts, hnone]

/-- **A name is in the exchange properties exactly when it was put there since it
was last removed.** -/
theorem mem_exchangeProperties_iff {A : Apr} {options : UInt32} {w : World}
    {log : Log}
    (h : Run (step A) (stompMessengerInit options) log w) (k : CString) :
    k ∈ w.messenger.exchangeProperties ↔
      ∃ e ∈ log.rtakeWhile (fun e => !removes k e), Puts A k e := by
  have hlatch : ∀ e ∈ log, step A e.pre e.call = some (e.reply, e.post) →
      (k ∈ e.post.messenger.exchangeProperties ↔
        removes k e = false ∧
          (Puts A k e ∨ k ∈ e.pre.messenger.exchangeProperties)) := by
    intro e _ hstep
    rw [(settings_step hstep).1, mem_nextProperties]
  exact h.latched_iff (P := fun w => k ∈ w.messenger.exchangeProperties) hlatch
    (AList.notMem_empty k)

/-! ## Strings clear of the separators -/

/-- The strings of the call keep clear of the separators. -/
def CleanCall (A : Apr) (c : Call) : Prop :=
  match c.op with
  | .setEndpoint uri =>
      ∀ path, (A.uriParse uri).2.path = some path → lf ∉ path.bytes
  | .exchangeAdd name value => ∀ v, value = some v → CleanHeader ⟨name, v⟩
  | _ => True

theorem cleanCall_opening : ∀ c ∈ opening, CleanCall .sample c := by
  intro c hc
  rcases List.mem_cons.mp hc with rfl | hc
  · rintro path hpath
    obtain rfl : CString.lit "/queue/test" = path := Option.some.inj hpath
    decide
  · obtain rfl := List.mem_singleton.mp hc
    trivial

/-- The strings a SEND frame is made of keep clear of the separators. -/
structure CleanSettings (w : World) : Prop where
  properties : CleanTable w.messenger.exchangeProperties
  path : ∀ uri path, w.messenger.uri = some uri → uri.path = some path →
    lf ∉ path.bytes

theorem cleanTable_receivedHeaders (A : Apr) (e : Event World Call Reply) :
    CleanTable (receivedHeaders A e) := by
  unfold receivedHeaders
  split
  · rename_i reading w₁ _ hread
    obtain ⟨socket, -, hstep⟩ := readStep_of_readFrame hread
    cases hstep with
    | notReady => exact cleanTable_empty
    | failed => exact cleanTable_empty
    | frame _ hok =>
        obtain ⟨headers, hheaders, hclean⟩ := stompRead_cleanTable A hok
        rw [tableOf, hheaders]
        exact hclean
  · exact cleanTable_empty

/-- Clean strings leave the exchange properties clean. -/
theorem cleanTable_step {A : Apr} {e : Event World Call Reply}
    (h : step A e.pre e.call = some (e.reply, e.post))
    (hpre : CleanTable e.pre.messenger.exchangeProperties)
    (hclean : CleanCall A e.call) :
    CleanTable e.post.messenger.exchangeProperties := by
  rw [(settings_step h).1]
  unfold nextProperties
  unfold CleanCall at hclean
  split
  · rename_i name value hop
    rw [hop] at hclean
    exact hpre.set hclean
  · exact cleanTable_empty
  · exact (cleanTable_receivedHeaders A e).overlay hpre
  · exact hpre

theorem cleanTable_run {A : Apr} {w w' : World} {log : Log}
    (h : Run (step A) w log w') (hpre : CleanTable w.messenger.exchangeProperties)
    (hclean : ∀ e ∈ log, CleanCall A e.call) :
    CleanTable w'.messenger.exchangeProperties := by
  have hstep : ∀ s c r s', CleanTable s.messenger.exchangeProperties → CleanCall A c →
      step A s c = some (r, s') → CleanTable s'.messenger.exchangeProperties := by
    intro s c r s' hs hc hstep
    exact cleanTable_step (e := ⟨s, c, r, s'⟩) hstep hs hc
  exact (h.invariant_of_guard hstep hpre hclean).1

theorem cleanSettings_step {A : Apr} {e : Event World Call Reply}
    (h : step A e.pre e.call = some (e.reply, e.post)) (hs : CleanSettings e.pre)
    (hclean : CleanCall A e.call) : CleanSettings e.post := by
  refine ⟨cleanTable_step h hs.properties hclean, ?_⟩
  rw [(settings_step h).2]
  unfold nextUri
  unfold CleanCall at hclean
  split
  · rename_i uri hop
    rw [hop] at hclean
    rintro _ path h hpath
    obtain rfl := Option.some.inj h
    exact hclean path hpath
  · exact hs.path

theorem CleanSettings.run {A : Apr} {w w' : World} {log : Log}
    (h : Run (step A) w log w') (hs : CleanSettings w)
    (hclean : ∀ e ∈ log, CleanCall A e.call) : CleanSettings w' := by
  have hstep : ∀ s c r s', CleanSettings s → CleanCall A c →
      step A s c = some (r, s') →
      CleanSettings s' := by
    intro s c r s' hs hc hstep
    exact cleanSettings_step (e := ⟨s, c, r, s'⟩) hstep hs hc
  exact (h.invariant_of_guard hstep hs hclean).1

theorem cleanSettings_run {A : Apr} {options : UInt32} {w : World} {log : Log}
    (h : Run (step A) (stompMessengerInit options) log w)
    (hclean : ∀ e ∈ log, CleanCall A e.call) : CleanSettings w :=
  CleanSettings.run h ⟨cleanTable_empty, fun _ _ h => nomatch h⟩ hclean

/-! ## The frame of a send -/

private theorem cleanTable_number {t : Hash} (ht : CleanTable t)
    (name : CString) (i : Int) (hname : colon ∉ name.bytes ∧ lf ∉ name.bytes) :
    CleanTable (aprHashSet t name (some (aprItoa i))) := by
  refine ht.set fun v hv => ?_
  obtain rfl := Option.some.inj hv
  exact ⟨hname.1, hname.2, lf_notMem_aprItoa i⟩

/-- The headers of the call are clean whatever they are. -/
theorem cleanTable_sendHeaders {properties : Hash} {destination : Option CString}
    (header : Option SendHeader) (hproperties : CleanTable properties)
    (hdestination : ∀ d, destination = some d → lf ∉ d.bytes) :
    CleanTable (sendHeaders properties destination header) := by
  have hset :
      CleanTable (aprHashSet properties (.lit "destination") destination) :=
    hproperties.set fun d hd =>
      ⟨(by decide : colon ∉ (CString.lit "destination").bytes),
        (by decide : lf ∉ (CString.lit "destination").bytes), hdestination d hd⟩
  unfold sendHeaders
  cases header with
  | none => exact hset
  | some header =>
      have htransaction : CleanTable (stompWriteTransactionId
          (aprHashSet properties (.lit "destination") destination)
          header.transactionId) := by
        unfold stompWriteTransactionId
        split
        · exact cleanTable_number hset _ _ (by decide)
        · exact hset
      show CleanTable (stompWriteReceipt _ header.receipt)
      unfold stompWriteReceipt
      split
      · exact cleanTable_number htransaction _ _ (by decide)
      · exact htransaction

theorem strippedDestination_clean {w : World} (hs : CleanSettings w)
    {destination : Option CString}
    (h : strippedDestination w.messenger = some destination) :
    ∀ d, destination = some d → lf ∉ d.bytes := by
  unfold strippedDestination at h
  cases huri : w.messenger.uri with
  | none => simp [huri] at h
  | some uri =>
      simp only [huri] at h
      split at h
      · cases hpath : uri.path with
        | none => simp [hpath] at h
        | some path =>
            simp only [hpath] at h
            split at h
            · cases h
            · intro d hd
              obtain rfl := Option.some.inj h
              obtain rfl := Option.some.inj hd
              exact fun hm =>
                hs.path uri path huri hpath (List.mem_of_mem_tail hm)
      · intro d hd
        obtain rfl := Option.some.inj h
        exact hs.path uri d huri hd

/-- A SEND frame of clean strings is written as a frame of the grammar. -/
theorem cleanFrame_sendFrame {w : World} (hs : CleanSettings w)
    {header : Option SendHeader}
    {message : Message} {frame : Frame}
    (h : sendFrame w.messenger header message = some frame) :
    ∃ destination, strippedDestination w.messenger = some destination ∧
      frame = ⟨.lit "SEND",
        some (sendHeaders w.messenger.exchangeProperties destination header),
          message.body, message.size⟩ ∧
      CleanFrame frame
        (sendHeaders w.messenger.exchangeProperties destination header) := by
  obtain ⟨destination, hdestination, hframe⟩ := Option.bind_eq_some_iff.mp h
  obtain rfl := Option.some.inj hframe
  exact ⟨destination, hdestination, rfl, rfl,
    (by decide : lf ∉ (CString.lit "SEND").bytes),
    cleanTable_sendHeaders header hs.properties
      (strippedDestination_clean hs hdestination)⟩

/-- The text in the object that `stomp_message_format` allocates is no longer than the
object. -/
theorem length_messageFormat (data : Bytes) (len : UInt64) :
    (CString.ofBuffer (data.take len.toNat)).strlen ≤ len.toNat :=
  calc (CString.ofBuffer (data.take len.toNat)).strlen
      ≤ (data.take len.toNat).length := (List.takeWhile_sublist _).length_le
    _ ≤ len.toNat := List.length_take_le _ _

/-- `stomp_write` finds the octets of a message that `stomp_message_format` has made. -/
theorem bodyHolds_messageFormat {frame : Frame} {message : Message} {data : Bytes}
    {len : UInt64} (hsize : (CString.ofBuffer (data.take len.toNat)).strlen + 1 < 2 ^ 31)
    (hbody : frame.body = (stompMessageFormat message data len).body)
    (hlength : frame.bodyLength = (stompMessageFormat message data len).size) :
    frame.bodyHolds = true := by
  refine bodyHolds_of_body hbody hlength (Nat.succ_pos _) hsize ?_
  have hle := length_messageFormat data len
  rw [List.length_append, List.length_replicate]
  unfold CString.strlen at hle ⊢
  omega

/-- The names a send adds to the exchange properties. -/
def SendName (header : Option SendHeader) (k : CString) : Prop :=
  k = .lit "destination" ∨
    ∃ h, header = some h ∧
      (k = .lit "transaction" ∧ -1 < h.transactionId ∨
        k = .lit "receipt" ∧ 0 < h.receipt)

/-- A send adds no other names to those of the exchange properties. -/
theorem mem_sendHeaders {properties : Hash} {destination : Option CString}
    {header : Option SendHeader} {k : CString}
    (h : k ∈ sendHeaders properties destination header) :
    k ∈ properties ∨ SendName header k := by
  have hset : ∀ {t : Hash} {name : CString} {value : Option CString},
      k ∈ aprHashSet t name value → k = name ∨ k ∈ t := by
    intro t name value hk
    obtain ⟨-, ⟨v, rfl, -⟩ | ht⟩ := mem_aprHashSet.mp hk
    · exact .inl rfl
    · exact .inr ht
  have hdestination : k ∈ aprHashSet properties (.lit "destination") destination →
      k ∈ properties ∨ SendName header k := by
    intro hk
    rcases hset hk with rfl | hk
    · exact .inr (.inl rfl)
    · exact .inl hk
  unfold sendHeaders at h
  cases header with
  | none => exact hdestination h
  | some header =>
      have htransaction : k ∈ stompWriteTransactionId
          (aprHashSet properties (.lit "destination") destination)
          header.transactionId →
          k ∈ properties ∨ SendName (some header) k := by
        intro hk
        unfold stompWriteTransactionId at hk
        split at hk
        · rename_i hid
          rcases hset hk with rfl | hk
          · exact .inr (.inr ⟨header, rfl, .inl ⟨rfl, hid⟩⟩)
          · exact hdestination hk
        · exact hdestination hk
      have hreceipt : k ∈ stompWriteReceipt (stompWriteTransactionId
          (aprHashSet properties (.lit "destination") destination)
          header.transactionId)
            header.receipt := h
      unfold stompWriteReceipt at hreceipt
      split at hreceipt
      · rename_i hpos
        rcases hset hreceipt with rfl | hk
        · exact .inr (.inr ⟨header, rfl, .inr ⟨rfl, hpos⟩⟩)
        · exact htransaction hk
      · exact htransaction hreceipt

/-- A send never touches a `content-length` of the exchange properties. -/
theorem length_mem_sendHeaders {properties : Hash} {destination : Option CString}
    {header : Option SendHeader} :
    .lit "content-length" ∈ sendHeaders properties destination header ↔
      .lit "content-length" ∈ properties := by
  have hset : ∀ {t : Hash} {name : CString} {value : Option CString},
      name ≠ .lit "content-length" →
        (.lit "content-length" ∈ aprHashSet t name value ↔
          .lit "content-length" ∈ t) := by
    intro t name value hname
    rw [mem_aprHashSet]
    simp [hname]
  have hdestination :=
    @hset properties (.lit "destination") destination (by decide)
  unfold sendHeaders
  cases header with
  | none => exact hdestination
  | some header =>
      show .lit "content-length" ∈ stompWriteReceipt (stompWriteTransactionId _
        _) _ ↔ _
      unfold stompWriteReceipt stompWriteTransactionId
      split <;> split <;>
        simp only [hset
          (show CString.lit "receipt" ≠ .lit "content-length" by decide),
          hset (show CString.lit "transaction" ≠
            .lit "content-length" by decide), hdestination]

end LibStomp.Session.Properties
