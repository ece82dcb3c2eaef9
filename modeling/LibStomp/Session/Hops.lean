import LibStomp.Session.LastWriter
import LibStomp.Session.Outbox
import LibStomp.Session.Unread
import LibStomp.Stream.Reencoding

/-!
# A text passed on from messenger to messenger

One hop is a `stomp_send`, a broker that turns the SEND frame into a MESSAGE frame
and keeps its header lines and its body, and a `stomp_receive` by the messenger
that sends the message on in the next hop.  The NUL at the end of the text is
counted in the size of the message and sent as an octet of the body; the next
message is a copy of the text, which ends at that NUL.  The headers of a frame are
merged into the exchange properties of the messenger that reads it, its
`content-length` with them, and so they are sent again.

## Main results

* `hops_keep` — text, size and the properties of the application survive any
  number of hops if no property and no destination makes a header line whose length
  is a multiple of `2 ^ 32`, and a further hop arrives whenever its send succeeds.
-/

namespace LibStomp.Session.Hops

open LibStomp.Model
open LibStomp.Verified.Runs
open LibStomp.Session.Steps
open LibStomp.Session.Outbox
open LibStomp.Session.Properties
open LibStomp.Session.LastWriter
open LibStomp.Session.Unread
open LibStomp.Stream.Grammar
open LibStomp.Stream.WriteFrame
open LibStomp.Stream.CleanFrames
open LibStomp.Stream.Reencoding

/-! ## Hops -/

/-- The header of the send and the network while it runs; then the messenger that
receives, the message object it passes and the network while that runs. -/
structure Hop where
  header : Option SendHeader
  sending : Net
  receiver : World
  message : Message
  receiving : Net

/-- A message object and the messenger that is about to send it. -/
abbrev Station := Message × World

/-- The broker's frame: the command SEND is replaced by MESSAGE. -/
def relay (bs : Bytes) : Bytes := ascii "MESSAGE" ++ bs.drop (ascii "SEND").length

/-- The bytes the peer has accepted between two states of a messenger. -/
def sentBetween (w w' : World) : Bytes :=
  match w.messenger.connection, w'.messenger.connection with
  | some socket, some socket' => socket'.outbox.drop socket.outbox.length
  | _, _ => []

/-- The network of the receiver: the broker's frame comes first, every receive
delivers all it can, and there is no timeout. -/
def Hop.delivery (hop : Hop) (bs : Bytes) : Net :=
  { hop.receiving with
    arrivals := relay bs ++ hop.receiving.arrivals
    recvs := []
    waits := [] }

/-- The send of a hop. -/
def Hop.send (hop : Hop) (message : Message) : Call :=
  ⟨.send hop.header message, hop.sending⟩

/-- The receive of a hop, when the peer of the sender has got the bytes `bs`. -/
def Hop.receive (hop : Hop) (bs : Bytes) : Call :=
  ⟨.receive hop.message, hop.delivery bs⟩

/-- One hop, with the reply of its receive.  There is none if the send fails. -/
def hopStep (A : Apr) (s : Station) (hop : Hop) : Option (Reply × Station) := do
  let (sent, w) ← step A s.2 (hop.send s.1)
  if sent.code = some .success then do
    let (received, w') ← step A hop.receiver (hop.receive (sentBetween s.2 w))
    let message ← received.message
    some (received, message, w')
  else none

/-- The strings of the receiver keep clear of the separators, and nothing is unread
on its connection. -/
structure Hop.WellFormed (hop : Hop) : Prop where
  settings : CleanSettings hop.receiver
  connected : ∃ socket, hop.receiver.messenger.connection = some socket ∧
    socket.inbox = []

/-- Neither a property that the call does not replace nor the destination makes a
header line whose length is a multiple of `2 ^ 32`. -/
structure SendFits (w : World) (header : Option SendHeader) : Prop where
  properties : ∀ h ∈ w.messenger.exchangeProperties.entries,
    ¬ SendName header h.1 → LengthFits h
  destination : ∀ d, strippedDestination w.messenger = some (some d) →
    LengthFits ⟨.lit "destination", d⟩

/-! ## The header lines of a send -/

/-- All entries but those under the names `except` make lines that fit. -/
def FitsBut (except : CString → Prop) (t : Hash) : Prop :=
  ∀ k v, t.lookup k = some v → ¬ except k → LengthFits ⟨k, v⟩

private theorem FitsBut.set {except : CString → Prop} {t : Hash}
    (h : FitsBut except t) {name : CString} {value : Option CString}
    (hvalue : ∀ v, value = some v → LengthFits ⟨name, v⟩) :
    FitsBut (fun k => except k ∧ k ≠ name) (aprHashSet t name value) := by
  intro k v hlookup hk
  rw [lookup_aprHashSet] at hlookup
  by_cases hname : name = k
  · subst hname
    rw [if_pos rfl] at hlookup
    exact hvalue v hlookup
  · rw [if_neg hname] at hlookup
    apply h k v hlookup
    intro hexcept
    exact hk ⟨hexcept, Ne.symm hname⟩

private theorem FitsBut.mono {except except' : CString → Prop} {t : Hash}
    (h : FitsBut except t) (himp : ∀ k, except k → except' k) : FitsBut except' t :=
  fun k v hlookup hk => h k v hlookup fun he => hk (himp k he)

/-- The line of a number is short. -/
private theorem lengthFits_number {name : CString} (hname : name.strlen ≤ 100)
    (i : Int) : LengthFits ⟨name, aprItoa (cInt i)⟩ := by
  have hlen := length_aprItoa_le (natAbs_cInt_le i)
  unfold LengthFits
  show (name.strlen + 1 + (aprItoa (cInt i)).strlen) % 2 ^ 32 ≠ 0
  omega

private theorem fitsBut_receipt {except : CString → Prop} {t : Hash}
    (h : FitsBut except t) (receipt : UInt32) :
    FitsBut (fun k => except k ∧ ¬ (k = .lit "receipt" ∧ 0 < receipt))
      (stompWriteReceipt t receipt) := by
  unfold stompWriteReceipt
  by_cases hpos : 0 < receipt
  · rw [if_pos hpos]
    refine (h.set fun v hv => ?_).mono fun k hk => ⟨hk.1, fun hr => hk.2 hr.1⟩
    obtain rfl := Option.some.inj hv
    exact lengthFits_number (by decide) _
  · rw [if_neg hpos]
    exact h.mono fun k hk => ⟨hk, fun hr => hpos hr.2⟩

private theorem fitsBut_transactionId {except : CString → Prop} {t : Hash}
    (h : FitsBut except t) (transactionId : Int64) :
    FitsBut (fun k => except k ∧ ¬ (k = .lit "transaction" ∧ -1 < transactionId))
      (stompWriteTransactionId t transactionId) := by
  unfold stompWriteTransactionId
  by_cases hasked : -1 < transactionId
  · rw [if_pos hasked]
    refine (h.set fun v hv => ?_).mono fun k hk => ⟨hk.1, fun hr => hk.2 hr.1⟩
    obtain rfl := Option.some.inj hv
    exact lengthFits_number (by decide) _
  · rw [if_neg hasked]
    exact h.mono fun k hk => ⟨hk, fun hr => hasked hr.2⟩

/-- Every header line of the table of a send fits. -/
theorem fits_sendHeaders {w : World} {header : Option SendHeader}
    (hfits : SendFits w header) {destination : Option CString}
    (hdestination : strippedDestination w.messenger = some destination) :
    ∀ h ∈ (sendHeaders w.messenger.exchangeProperties destination
      header).entries, LengthFits h := by
  have hproperties :
      FitsBut (SendName header) w.messenger.exchangeProperties :=
    fun k v hlookup => hfits.properties _ (AList.mem_lookup_iff.mp hlookup)
  have hset : FitsBut (fun k => SendName header k ∧ k ≠ .lit "destination")
      (aprHashSet w.messenger.exchangeProperties (.lit "destination") destination) :=
    hproperties.set fun d hd => hfits.destination d (hd ▸ hdestination)
  -- the names the call adds are all there is to except
  have hall : FitsBut (fun _ => False) (sendHeaders
      w.messenger.exchangeProperties destination header) := by
    unfold sendHeaders
    cases header with
    | none =>
        refine hset.mono ?_
        rintro k ⟨hk | ⟨_, hno, -⟩, hne⟩
        · exact hne hk
        · cases hno
    | some header =>
        refine (fitsBut_receipt (fitsBut_transactionId hset _) _).mono ?_
        rintro k ⟨⟨⟨hk | ⟨_, hsome, hk⟩, hne⟩, htransaction⟩, hreceipt⟩
        · exact hne hk
        · obtain rfl := Option.some.inj hsome
          rcases hk with hk | hk
          · exact htransaction hk
          · exact hreceipt hk
  intro h hh
  exact hall h.1 h.2 (AList.mem_lookup_iff.mpr hh) id

/-- A name that the call does not add has the value of the property. -/
theorem lookup_sendHeaders (properties : Hash) (destination : Option CString)
    (header : Option SendHeader) {k : CString} (hdestination : .lit "destination" ≠ k)
    (htransaction : .lit "transaction" ≠ k) (hreceipt : .lit "receipt" ≠ k) :
    (sendHeaders properties destination header).lookup k = properties.lookup k := by
  have hset : (aprHashSet properties (.lit "destination") destination).lookup k =
      properties.lookup k := by
    rw [lookup_aprHashSet, if_neg hdestination]
  unfold sendHeaders
  cases header with
  | none => exact hset
  | some header =>
      show (stompWriteReceipt (stompWriteTransactionId _ _) _).lookup k = _
      rw [lookup_stompWriteReceipt _ _ hreceipt,
        lookup_stompWriteTransactionId _ _ htransaction, hset]

/-! ## Messages that hold a text -/

/-- The size is that of the text with its NUL, and the body starts with both. -/
structure IsText (text : CString) (message : Message) : Prop where
  size : message.size = UInt64.ofNat (text.strlen + 1)
  body : ∃ rest, message.body = some (text.bytes ++ nul :: rest)

theorem isText_format {text : CString} (message : Message) {data : Bytes}
    {len : UInt64} (htext : CString.ofBuffer (data.take len.toNat) = text)
    (hlen : text.strlen ≤ len.toNat) :
    IsText text (stompMessageFormat message data len) := by
  obtain ⟨k, hk⟩ : ∃ k, len.toNat + 1 - text.strlen = k + 1 :=
    ⟨len.toNat - text.strlen, by omega⟩
  unfold stompMessageFormat
  rw [htext]
  refine ⟨rfl, List.replicate k nul, ?_⟩
  show some (text.bytes ++ List.replicate (len.toNat + 1 - text.strlen) nul) = _
  rw [hk, List.replicate_succ]

/-! ## One hop -/

/-- The broker's frame differs in its command only. -/
theorem relay_encode (O : HashOrder) (headers : Option Hash) (body : Option Bytes)
    (n : UInt64) :
    relay (encode O ⟨.lit "SEND", headers, body, n⟩) =
      encode O ⟨.lit "MESSAGE", headers, body, n⟩ := by
  have hsend : (CString.lit "SEND").bytes = ascii "SEND" := by decide
  have hmessage : (CString.lit "MESSAGE").bytes = ascii "MESSAGE" := by decide
  unfold relay encode frameBytes
  simp only [hsend, hmessage, List.drop_left]
  rfl

/-- A successful send has handed its whole frame over. -/
theorem sentBetween_send {A : Apr} {w w' : World} {hop : Hop} {message : Message}
    {r : Reply} (h : step A w (hop.send message) = some (r, w'))
    (hcode : r.code = some .success) :
    ∃ frame, sendFrame w.messenger hop.header message = some frame ∧
      sentBetween w w' = encode hop.sending.order frame := by
  obtain ⟨q, hrequest, hframe⟩ := request_of_send h
  obtain ⟨bs, ⟨socket, socket', hsocket, hsocket', hout⟩, -, hwhole⟩ :=
    added_of_request (e := ⟨w, hop.send message, r, w'⟩) h hrequest
  have hsocket : w.messenger.connection = some socket := hsocket
  have hsocket' : w'.messenger.connection = some socket' := hsocket'
  refine ⟨q.frame, hframe, ?_⟩
  simp only [sentBetween, hsocket, hsocket', hout, List.drop_left]
  exact hwhole (.inr hcode)

/-- A receive replies what the reading says, and merges the headers that were read. -/
theorem receive_of_reading {A : Apr} {w w₁ : World} {net : Net} (message : Message)
    {reading : Reading}
    (h : (w.load net).readFrame A net.endline = some (reading, w₁)) :
    ∃ w', step A w ⟨.receive message, net⟩ =
        some (⟨some (handover message reading).1,
          some (handover message reading).2⟩, w') ∧
      w'.messenger.exchangeProperties =
        aprHashOverlay (tableOf reading) w.messenger.exchangeProperties := by
  have hreply : ∃ w', step A w ⟨.receive message, net⟩ =
      some (⟨some (handover message reading).1,
        some (handover message reading).2⟩, w') := by
    show ∃ w', replyMessage (stompReceive A net message (w.load net)) = _
    unfold stompReceive
    rw [h, Option.bind_eq_bind, Option.bind_some]
    cases reading with
    | notReady => exact ⟨_, rfl⟩
    | failed rc => cases rc <;> exact ⟨_, rfl⟩
    | frame frame =>
        unfold handover
        by_cases hcommand : frame.command.startsWith (.lit "MESSAGE") = true
        · simp only [hcommand, if_true]
          exact ⟨_, rfl⟩
        · simp only [hcommand]
          exact ⟨_, rfl⟩
  obtain ⟨w', hstep⟩ := hreply
  have htable (r : Reply) : receivedHeaders A ⟨w, ⟨.receive message, net⟩, r, w'⟩ =
      tableOf reading := by
    unfold receivedHeaders
    simp only [h]
  have hpost := (settings_step (e := ⟨w, ⟨.receive message, net⟩, _, w'⟩) hstep).1
  rw [nextProperties, htable] at hpost
  exact ⟨w', hstep, hpost⟩

/-- A receive that reads a MESSAGE copies its body and merges its headers. -/
theorem receive_of_message {A : Apr} {w w₁ : World} {net : Net} (message : Message)
    {headers : Hash} {body : Bytes} {n : Nat}
    (h : (w.load net).readFrame A net.endline =
      some (.frame (frameOf (.lit "MESSAGE") headers body n), w₁)) :
    ∃ w', step A w ⟨.receive message, net⟩ = some (⟨some .success,
        some (stompMessageFormat message body (UInt64.ofNat n))⟩, w') ∧
      w'.messenger.exchangeProperties =
        aprHashOverlay headers w.messenger.exchangeProperties := by
  have hcommand : (CString.lit "MESSAGE").startsWith (.lit "MESSAGE") = true := by
    decide
  obtain ⟨w', hstep, hproperties⟩ := receive_of_reading message h
  rw [handover, frameOf, if_pos hcommand] at hstep
  exact ⟨w', hstep, hproperties⟩

/-- The two calls of a hop. -/
theorem hopStep_of_calls {A : Apr} {s : Station} {hop : Hop} {sent received : Reply}
    {w w' : World} {message : Message}
    (hsend : step A s.2 (hop.send s.1) = some (sent, w))
    (hcode : sent.code = some .success)
    (hreceive : step A hop.receiver (hop.receive (sentBetween s.2 w)) =
      some (received, w'))
    (hmessage : received.message = some message) :
    hopStep A s hop = some (received, message, w') := by
  unfold hopStep
  simp only [hsend, hcode, hreceive, hmessage, Option.bind_eq_bind,
    Option.bind_some, if_true]

/-- The properties a hop has to keep: all but those under the names that a send or a
frame sets. -/
def Application (k : CString) : Prop :=
  .lit "destination" ≠ k ∧ .lit "content-length" ≠ k ∧ .lit "transaction" ≠ k ∧
    .lit "receipt" ≠ k

/-- The message is the text, and the properties of `w` are those of the messenger that
holds it. -/
structure Kept (text : CString) (w : World) (s : Station) : Prop where
  text : IsText text s.1
  properties : ∀ k v, Application k → stompExchangeGet k w = some v →
    stompExchangeGet k s.2 = some v

theorem Kept.trans {text : CString} {w : World} {s s' : Station}
    (h : Kept text w s) (h' : Kept text s.2 s') : Kept text w s' where
  text := h'.text
  properties k v hk hv := h'.properties k v hk (h.properties k v hk hv)

/-- The receive of the hop has succeeded, and its message is the one that is passed on. -/
def Arrived (reply : Reply) (s : Station) : Prop :=
  reply = ⟨some .success, some s.1⟩

/-- A text with its NUL is all of the body that is sent. -/
private theorem take_terminated (text : CString) (rest : Bytes) :
    (text.bytes ++ nul :: rest).take (text.strlen + 1) = text.bytes ++ [nul] := by
  have hsplit : text.bytes ++ nul :: rest = (text.bytes ++ [nul]) ++ rest := by simp
  have hlen : text.strlen + 1 = (text.bytes ++ [nul]).length := by
    rw [List.length_append]
    rfl
  rw [hsplit, hlen, List.take_left]

/-- The frame that is read when the frame of a text is all that is unread. -/
private theorem readFrame_text (A : Apr) {text : CString}
    (hlen : text.strlen + 1 ≤ 2 ^ 31 - 1) {message : Message}
    (htext : IsText text message) {command : CString} {headers : Hash}
    (hc : CleanFrame ⟨command, some headers, message.body, message.size⟩ headers)
    (hfits : ∀ h ∈ headers.entries, LengthFits h) {O : HashOrder} {w : World}
    {socket : Socket} {t : Bytes} (net : Net)
    (hsocket : w.messenger.connection = some socket) (hinbox : socket.inbox = [])
    (harrivals : net.arrivals =
      encode O ⟨command, some headers, message.body, message.size⟩ ++ t)
    (hrecvs : net.recvs = []) (hwaits : net.waits = []) :
    ∃ w₁, (w.load net).readFrame A net.endline =
      some (.frame (frameOf command
        (table (headerLines O ⟨command, some headers, message.body, message.size⟩))
        (text.bytes ++ [nul]) (text.strlen + 1)), w₁) := by
  obtain ⟨rest, hbody⟩ := htext.body
  have hle : text.strlen + 1 ≤ (text.bytes ++ nul :: rest).length := by
    rw [List.length_append, List.length_cons]
    unfold CString.strlen
    omega
  have hcounted : CountedFrame _ headers :=
    .of_body hc hbody htext.size (by omega) (by omega) hle
  have hsent : sentBody ⟨command, some headers, message.body, message.size⟩ =
      text.bytes ++ [nul] := by
    rw [sentBody_of_body hbody htext.size (by omega) (by omega), take_terminated]
  have hlength : (text.bytes ++ [nul]).length = text.strlen + 1 := by
    rw [List.length_append]
    rfl
  have hloaded := load_connection_of_some net hsocket
  have hin :
      ((w.load net).toIo net.endline (loadSocket net socket)).socket.inbox =
        encode O ⟨command, some headers, message.body, message.size⟩ ++ t := by
    show socket.inbox ++ net.arrivals = _
    rw [hinbox, List.nil_append, harrivals]
  obtain ⟨rd, -, -, hread⟩ := hcounted.read_back A O hfits hrecvs hin
  rw [hsent, hlength] at hread
  have hreading := readFrame_ready A net.endline hloaded hwaits
  rw [hread] at hreading
  exact ⟨_, hreading⟩

section Hop

variable {A : Apr} {text : CString} (hlen : text.strlen + 1 ≤ 2 ^ 31 - 1)
variable {s : Station} {hop : Hop} (hs : CleanSettings s.2)
    (htext : IsText text s.1)
variable (hwf : hop.WellFormed) (hfits : SendFits s.2 hop.header)
include hlen hs htext hwf hfits

/-- **A text that was sent arrives**, and with it the properties of the sender. -/
private theorem receive_of_send {r : Reply} {w : World}
    (h : step A s.2 (hop.send s.1) = some (r, w))
    (hcode : r.code = some .success) :
    ∃ message w', step A hop.receiver (hop.receive (sentBetween s.2 w)) =
        some (⟨some .success, some message⟩, w') ∧
      CleanSettings w' ∧ Kept text s.2 (message, w') := by
  obtain ⟨frame, hframe, hbytes⟩ := sentBetween_send h hcode
  obtain ⟨destination, hdestination, rfl, hclean⟩ := cleanFrame_sendFrame hs hframe
  obtain ⟨headers, hheaders⟩ : ∃ headers, headers = sendHeaders
    s.2.messenger.exchangeProperties destination hop.header := ⟨_, rfl⟩
  rw [← hheaders] at hclean hbytes
  have hc : CleanFrame ⟨.lit "MESSAGE", some headers, s.1.body, s.1.size⟩ headers :=
    ⟨rfl, (by decide : lf ∉ (CString.lit "MESSAGE").bytes), hclean.headers_clean⟩
  obtain ⟨socket, hsocket, hinbox⟩ := hwf.connected
  have harrivals : (hop.delivery (sentBetween s.2 w)).arrivals =
      encode hop.sending.order ⟨.lit "MESSAGE", some headers, s.1.body, s.1.size⟩ ++
        hop.receiving.arrivals := by
    rw [hbytes, ← relay_encode]
    rfl
  obtain ⟨w₁, hreading⟩ := readFrame_text A hlen htext hc
    (hheaders ▸ fits_sendHeaders hfits hdestination)
    (hop.delivery (sentBetween s.2 w)) hsocket hinbox harrivals rfl rfl
  obtain ⟨w', hstep, hproperties⟩ := receive_of_message hop.message hreading
  have hsize : (UInt64.ofNat (text.strlen + 1)).toNat = text.strlen + 1 := by
    rw [UInt64.toNat_ofNat', Nat.mod_eq_of_lt (by omega)]
  refine ⟨_, w', hstep, ?_, isText_format hop.message ?_ (by omega),
    fun k v hk hv => ?_⟩
  · exact cleanSettings_step (e := ⟨_, _, _, w'⟩) hstep hwf.settings trivial
  · rw [hsize, take_terminated, CString.ofBuffer_bytes]
  · have hlookup : headers.lookup k = some v := by
      rw [hheaders, lookup_sendHeaders _ _ _ hk.1 hk.2.2.1 hk.2.2.2]
      exact hv
    rw [stompExchangeGet, hproperties, lookup_aprHashOverlay,
      hc.lookup_table_ne _ (Ne.symm hk.2.1), hlookup, Option.some_or]

/-- A hop whose send succeeds arrives and keeps text and properties. -/
private theorem hopStep_of_send {r : Reply} {w : World}
    (h : step A s.2 (hop.send s.1) = some (r, w))
    (hcode : r.code = some .success) :
    ∃ reply s', hopStep A s hop = some (reply, s') ∧ Arrived reply s' ∧
      CleanSettings s'.2 ∧ Kept text s.2 s' := by
  obtain ⟨message, w', hreceive, hclean, hkept⟩ :=
    receive_of_send hlen hs htext hwf hfits h hcode
  exact ⟨_, (message, w'), hopStep_of_calls h hcode hreceive rfl, rfl, hclean,
    hkept⟩

/-- Every hop there is keeps them. -/
theorem kept_of_hopStep {reply : Reply} {s' : Station}
    (h : hopStep A s hop = some (reply, s')) :
    Arrived reply s' ∧ CleanSettings s'.2 ∧ Kept text s.2 s' := by
  obtain ⟨⟨sent, w⟩, hsend, hrest⟩ := Option.bind_eq_some_iff.mp h
  by_cases hcode : sent.code = some .success
  · obtain ⟨reply', s'', hstep, hkept⟩ :=
      hopStep_of_send hlen hs htext hwf hfits hsend hcode
    obtain ⟨rfl, rfl⟩ := Prod.mk.inj (Option.some.inj (hstep.symm.trans h))
    exact hkept
  · simp only [hcode, if_false] at hrest
    cases hrest

end Hop

/-! ## Any number of hops -/

/-- **Any number of hops keeps a text, its size and the properties of the
application**, and a further hop arrives if its send succeeds. -/
theorem hops_keep (A : Apr) (text : CString) (hlen : text.strlen + 1 ≤ 2 ^ 31 - 1)
    (message : Message) (w : World) (hclean : CleanSettings w) (s : Station)
    (log : List (Event Station Hop Reply))
    (h : Run (hopStep A) (stompMessageFormat message text.bytes
      (UInt64.ofNat text.strlen), w) log s)
    (hhops : ∀ e ∈ log, e.call.WellFormed ∧ SendFits e.pre.2 e.call.header) :
    (∀ e ∈ log, Arrived e.reply e.post ∧ Kept text w e.post) ∧
      ∀ hop : Hop, hop.WellFormed → SendFits s.2 hop.header →
        ∀ r w₁, step A s.2 (hop.send s.1) = some (r, w₁) →
          r.code = some .success →
            ∃ reply s', hopStep A s hop = some (reply, s') ∧ Arrived reply s' ∧
              Kept text w s' := by
  have hsize : (UInt64.ofNat text.strlen).toNat = text.strlen := by
    rw [UInt64.toNat_ofNat', Nat.mod_eq_of_lt (by omega)]
  have htext : IsText text (stompMessageFormat message text.bytes
      (UInt64.ofNat text.strlen)) := by
    apply isText_format message _ (by omega)
    rw [hsize, CString.strlen, List.take_length]
    exact CString.ext (ofBuffer_of_nulFree text.nulFree)
  have hstep : ∀ s hop r s', CleanSettings s.2 ∧ Kept text w s →
      hop.WellFormed ∧ SendFits s.2 hop.header → hopStep A s hop = some (r, s') →
        CleanSettings s'.2 ∧ Kept text w s' := by
    intro s hop r s' hs hhop hrun
    obtain ⟨-, hclean', hkept⟩ :=
      kept_of_hopStep hlen hs.1 hs.2.text hhop.1 hhop.2 hrun
    exact ⟨hclean', hs.2.trans hkept⟩
  have hstart : CleanSettings w ∧ Kept text w (stompMessageFormat message text.bytes
      (UInt64.ofNat text.strlen), w) := ⟨hclean, htext, fun _ _ _ hv => hv⟩
  obtain ⟨hfinal, hevents⟩ := h.invariant_of_guard hstep hstart hhops
  constructor
  · intro e he
    obtain ⟨hpre, hpost⟩ := hevents e he
    obtain ⟨hreceived, -⟩ := kept_of_hopStep hlen hpre.1 hpre.2.text
      (hhops e he).1 (hhops e he).2 (h.step_of_mem he)
    exact ⟨hreceived, hpost.2⟩
  · intro hop hwf hfits r w₁ hsend hcode
    obtain ⟨reply, s', hrun, hreceived, -, hkept⟩ :=
      hopStep_of_send hlen hfinal.1 hfinal.2.text hwf hfits hsend hcode
    exact ⟨reply, s', hrun, hreceived, hfinal.2.trans hkept⟩

/-! ## Two hops -/

/-- A messenger with one property. -/
def sender (value : CString) : World :=
  stompExchangeAdd (.lit "a") (some value) opened

/-- Nothing happens on the network but the hop, and the receiver is fresh. -/
def quietHop : Hop := ⟨none, .quiet [], opened, stompMessageCreate, .quiet []⟩

theorem cleanSettings_opened : CleanSettings opened := by
  have hsome :
      (exec (step .sample) (stompMessengerInit 0) opening).isSome = true := by
    decide +kernel
  obtain ⟨⟨log, w⟩, hexec⟩ := Option.isSome_iff_exists.mp hsome
  have hopened : opened = w := by
    rw [opened, hexec]
    rfl
  rw [hopened]
  refine cleanSettings_run (exec_run hexec) fun e he => cleanCall_opening e.call ?_
  rw [← exec_calls hexec]
  exact List.mem_map_of_mem he

private theorem cleanSettings_sender {value : CString} (h : lf ∉ value.bytes) :
    CleanSettings (sender value) where
  properties := by
    refine cleanSettings_opened.properties.set fun v hv => ?_
    obtain rfl := Option.some.inj hv
    exact ⟨(by decide : colon ∉ (CString.lit "a").bytes),
      (by decide : lf ∉ (CString.lit "a").bytes), h⟩
  path := cleanSettings_opened.path

theorem wellFormed_quietHop : quietHop.WellFormed where
  settings := cleanSettings_opened
  connected := Option.map_eq_some_iff.mp opened_inbox

/-- All that the messenger would send fits. -/
def linesFit (w : World) : Bool :=
  w.messenger.exchangeProperties.entries.all (fun h => decide (LengthFits h)) &&
    match strippedDestination w.messenger with
    | some (some d) => decide (LengthFits ⟨.lit "destination", d⟩)
    | _ => true

theorem sendFits_of_linesFit {w : World} (h : linesFit w = true)
    (header : Option SendHeader) : SendFits w header := by
  obtain ⟨hproperties, hdestination⟩ := Bool.and_eq_true_iff.mp h
  constructor
  · intro p hp _
    exact of_decide_eq_true (List.all_eq_true.mp hproperties p hp)
  · intro d hd
    rw [hd] at hdestination
    exact of_decide_eq_true hdestination

theorem hops_keep_quietHops :
    ∃ log : List (Event Station Hop Reply),
      log.map Event.call = [quietHop, quietHop] ∧
        ∀ e ∈ log, Arrived e.reply e.post ∧
          Kept (.lit "hi") (sender (.lit "1")) e.post := by
  have hrun : (exec (hopStep .sample) (stompMessageFormat stompMessageCreate
      (CString.lit "hi").bytes (UInt64.ofNat (CString.lit "hi").strlen),
        sender (.lit "1")) [quietHop, quietHop]).map
          (fun p => p.1.all fun e => linesFit e.pre.2) = some true := by
    decide +kernel
  obtain ⟨⟨log, s⟩, hexec, hfits⟩ := Option.map_eq_some_iff.mp hrun
  have hcalls := exec_calls hexec
  refine ⟨log, hcalls, (hops_keep .sample (.lit "hi") (by decide)
    stompMessageCreate (sender (.lit "1")) (cleanSettings_sender (by decide)) s log
    (exec_run hexec) fun e he => ?_).1⟩
  have hcall : e.call ∈ [quietHop, quietHop] := hcalls ▸ List.mem_map_of_mem he
  have hquiet : e.call = quietHop := by simpa using hcall
  rw [hquiet]
  exact ⟨wellFormed_quietHop,
    sendFits_of_linesFit (List.all_eq_true.mp hfits e he) _⟩

/-! ## A property of `2 ^ 32` bytes -/

/-- What the receiver of a hop reads. -/
private theorem delivery_reading (A : Apr) {hop : Hop} (hwf : hop.WellFormed)
    (bs : Bytes) :
    ∃ reading w₁, (hop.receiver.load (hop.delivery bs)).readFrame A
        hop.receiving.endline = some (reading, w₁) ∧
      ∀ k v, (tableOf reading).lookup k = some v → LengthFits ⟨k, v⟩ := by
  obtain ⟨socket, hsocket, -⟩ := hwf.connected
  have hloaded := load_connection_of_some (hop.delivery bs) hsocket
  rw [readFrame_ready A hop.receiving.endline hloaded rfl]
  cases hread : stompRead A ((hop.receiver.load (hop.delivery bs)).toIo
      hop.receiving.endline (loadSocket (hop.delivery bs) socket)) with
  | error rc io => exact ⟨_, _, rfl, fun k v hlookup => nomatch hlookup⟩
  | ok frame io =>
      refine ⟨_, _, rfl, fun k v hlookup => ?_⟩
      -- each entry was read as a header line
      obtain ⟨headers, body, c⟩ := reencodable_stompRead A rfl hread
      rw [tableOf, c.headers_eq] at hlookup
      exact c.fits _ (AList.mem_lookup_iff.mp hlookup)

/-- Without errors on the network a send that asks for no receipt succeeds. -/
private theorem send_succeeds (A : Apr) {w : World} {socket : Socket}
    (hsocket : w.messenger.connection = some socket) {net : Net}
    (hsends : net.sends = []) {message : Message} {frame : Frame}
    (hframe : sendFrame w.messenger none message = some frame)
    (hsound : Sound message) :
    ∃ w', step A w ⟨.send none message, net⟩ = some (⟨some .success, none⟩, w') := by
  have hloaded := load_connection_of_some net hsocket
  have hsending :
      Sending ((w.load net).toIo net.endline (loadSocket net socket)) := by
    intro turn ht
    have ht : turn ∈ net.sends := ht
    rw [hsends] at ht
    cases ht
  obtain ⟨io, hok, -⟩ :=
    (stompWrite_writes A net.order frame).completes hsending
  have hcomposed : sendFrame (w.load net).messenger none message = some frame :=
    hframe
  show ∃ w', replyCode (stompSend A net none message (w.load net)) = _
  unfold stompSend transact
  simp only [hcomposed, Option.bind_eq_bind, Option.bind_some,
    write_of_bodyHolds (bodyHolds_sendFrame hsound hframe),
    onConnection_of_ok hloaded hok]
  exact ⟨_, rfl⟩

/-- After a successful send the receive takes place, too, but no property arrives whose
line does not fit. -/
private theorem hopStep_fits {A : Apr} {s : Station} {hop : Hop}
    (hwf : hop.WellFormed) {sent : Reply} {w : World}
    (hsend : step A s.2 (hop.send s.1) = some (sent, w))
    (hcode : sent.code = some .success) :
    ∃ reply s', hopStep A s hop = some (reply, s') ∧
      ∀ k v, stompExchangeGet k s'.2 = some v →
        LengthFits ⟨k, v⟩ ∨ stompExchangeGet k hop.receiver = some v := by
  obtain ⟨reading, w₁, hreading, hfits⟩ :=
    delivery_reading A hwf (sentBetween s.2 w)
  obtain ⟨w', hstep, hproperties⟩ := receive_of_reading hop.message hreading
  refine ⟨_, _, hopStep_of_calls hsend hcode hstep rfl, fun k v hv => ?_⟩
  rw [stompExchangeGet, hproperties, lookup_aprHashOverlay, Option.or_eq_some_iff]
    at hv
  rcases hv with hv | ⟨-, hv⟩
  · exact .inl (hfits k v hv)
  · exact .inr hv

private theorem notMem_letters {b : UInt8} (hb : b ≠ 97) (k : Nat) :
    b ∉ List.replicate k (97 : UInt8) := fun h => hb (List.eq_of_mem_replicate h)

/-- A value of `k` bytes. -/
private def longValue (k : Nat) : CString :=
  ⟨List.replicate k 97, notMem_letters (by decide) k⟩

/-- A property of `2 ^ 32` bytes does not survive one hop. -/
theorem hops_keep_fails :
    ¬ ∀ (A : Apr) (text : CString), text.strlen + 1 ≤ 2 ^ 31 - 1 →
      ∀ (message : Message) (w : World), CleanSettings w →
        ∀ (s : Station) (log : List (Event Station Hop Reply)),
          Run (hopStep A) (stompMessageFormat message text.bytes
            (UInt64.ofNat text.strlen), w) log s →
            (∀ e ∈ log, e.call.WellFormed) → ∀ e ∈ log, Kept text w e.post := by
  intro h
  obtain ⟨k, hk⟩ := exists_not_lengthFits
  have hlf : lf ∉ (longValue k).bytes := notMem_letters (by decide) k
  have hdestination : strippedDestination opened.messenger =
      some (some (.lit "queue/test")) := by
    decide +kernel
  have hempty : stompExchangeGet (.lit "a") opened = none := by
    decide +kernel
  obtain ⟨socket, hsocket, -⟩ := wellFormed_quietHop.connected
  have hsound : Sound (stompMessageFormat stompMessageCreate (CString.lit "x").bytes
      (UInt64.ofNat (CString.lit "x").strlen)) := by decide
  obtain ⟨w, hsend⟩ := send_succeeds .sample (w := sender (longValue k)) hsocket
    (Eq.refl (Net.quiet []).sends) (congrArg (Option.bind · _) hdestination)
    hsound
  obtain ⟨reply, s, hhop, harrives⟩ := hopStep_fits (s := (_, sender (longValue k)))
    wellFormed_quietHop hsend rfl
  have hkept := h .sample (.lit "x") (by decide) stompMessageCreate
    (sender (longValue k)) (cleanSettings_sender hlf) s _ (.single hhop)
    (fun e he => by rw [List.mem_singleton.mp he]; exact wellFormed_quietHop)
    _ (List.mem_singleton.mpr rfl)
  have hvalue := hkept.properties (.lit "a") (longValue k)
    (by unfold Application; decide) (AList.lookup_insert _)
  rcases harrives _ _ hvalue with hfits | hown
  · exact hk (.lit "a") _ rfl rfl hfits
  · cases hempty.symm.trans hown

end LibStomp.Session.Hops
