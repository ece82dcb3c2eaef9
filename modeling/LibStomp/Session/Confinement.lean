import LibStomp.Session.Diagnostics
import LibStomp.Session.Outbox

/-!
# What is sent on decides nothing

An application gives the library things it only passes on: exchange properties,
message bodies, a user name and a password.  They are copied into the frames of
`stomp_send` and `stomp_connect`, and received headers are merged into the
properties.  Nothing else looks at them: they decide neither what any other
operation writes, nor what is read, nor what the application is told.

## Main results

* `contents_confined` — two runs that differ in the properties they start with, in every
  `stomp_exchange_add` and `stomp_exchange_clear` they make, in the messages they send
  and in their credentials have the same replies, and all other frames are the same
  bytes.
-/

namespace LibStomp.Session.Confinement

open LibStomp.Model
open LibStomp.Verified.Runs
open LibStomp.Verified.Coupling
open LibStomp.Stream.Diagnostics
open LibStomp.Stream.WriteFrame
open LibStomp.Session.Steps
open LibStomp.Session.Diagnostics
open LibStomp.Session.Outbox

/-! ## Two runs that differ in what is sent on -/

/-- Nothing is said about the two. -/
abbrev Unrelated {α : Type} : α → α → Prop := fun _ _ => True

/-- Worlds that may differ in the exchange properties and in what was sent. -/
abbrev Apart : World → World → Prop := AlikeWorlds Unrelated Unrelated

def setsProperties : Op → Bool
  | .exchangeAdd _ _ => true
  | .exchangeClear => true
  | _ => false

def isSend : Op → Bool
  | .send _ _ => true
  | _ => false

/-- No send of the runtime fails. -/
def Unbroken (net : Net) : Prop := ∀ turn ∈ net.sends, ∃ extra, turn = .upTo extra

/-- The same operation but for what it sends on.  Frames that differ have to get out,
since a schedule may break off the longer of the two only, and messages that differ have
to have the octets they announce. -/
inductive SameButContents (net : Net) : Op → Op → Prop
  | same {op : Op} (hsend : isSend op = false) : SameButContents net op op
  | properties {op op' : Op} (hset : setsProperties op = true)
      (hset' : setsProperties op' = true) : SameButContents net op op'
  | send (hunbroken : Unbroken net) (header : Option SendHeader)
      (message message' : Message) (hsound : Sound message) (hsound' : Sound message') :
      SameButContents net (.send header message) (.send header message')
  | connect (hunbroken : Unbroken net) (header header' : Option ConnectionHeader) :
      SameButContents net (.connect header) (.connect header')

/-- The calls of the two runs. -/
structure Corresponds (c d : Call) : Prop where
  net : c.net = d.net
  op : SameButContents c.net c.op d.op

/-! ## One call -/

section OneCall

variable {A : Apr} {P : Output → Output → Prop} {w w' : World}

/-- The frame of an operation other than `stomp_send` is composed without the
properties. -/
theorem request_unsent {Q : Hash → Hash → Prop} {m m' : Messenger}
    (h : AlikeMessengers P Q m m') {op : Op} (hop : isSend op = false) :
    request m op = request m' op := by
  obtain ⟨c, properties, status, uri, options⟩ := m
  obtain ⟨c', properties', status', uri', options'⟩ := m'
  obtain rfl : uri = uri' := h.uri
  obtain rfl : options = options' := h.options
  cases op with
  | send => cases hop
  | subscribe header => cases header <;> rfl
  | unsubscribe header => cases header <;> rfl
  | _ => rfl

/-- Any operation but `stomp_send` and `stomp_connect` adds the same bytes to both
streams. -/
theorem step_unsent {B : Bytes → Bytes → Prop} (hB : Growing B)
    (hload : ∀ o o' n, P o o' → SendsAlike B (o.1, n) (o'.1, n))
    (h : AlikeWorlds P Unrelated w w') {c d : Call} (hcalls : Corresponds c d)
    (hsend : isSend c.op = false) (hconnect : ∀ header, c.op ≠ .connect header) :
    Option.Rel (SameResult (SendsAlike B) Unrelated) (step A w c) (step A w' d) := by
  obtain ⟨op, net⟩ := c
  obtain ⟨op', net'⟩ := d
  obtain ⟨hnet, hop⟩ := hcalls
  obtain rfl : net = net' := hnet
  have hop : SameButContents net op op' := hop
  have hloaded : AlikeWorlds (SendsAlike B) Unrelated (w.load net) (w'.load net) :=
    AlikeWorlds.load h hload net
  cases hop with
  | send => cases hsend
  | connect _ header => exact absurd rfl (hconnect header)
  | same =>
      cases hrequest : request w.messenger op with
      | some q =>
          have hrequest' := (request_unsent h hsend).symm.trans hrequest
          rw [step_request hrequest, step_request hrequest']
          exact rel_replyCode (AlikeWorlds.transact A A net _ _ _
            (hloaded.write
              (fun _ _ hio => staysInside_alike hB A A net.order q.frame hio)
              (couples_stompWrite hB A A net.order q.frame)))
      | none =>
          have hrequest' := (request_unsent h hsend).symm.trans hrequest
          cases hasks : asks op with
          | true =>
              rw [step_of_request_none A hasks hrequest,
                step_of_request_none A hasks hrequest']
              exact .none
          | false =>
              cases op with
              | setEndpoint uri =>
                  exact rel_replyCode (AlikeWorlds.setEndpoint hloaded rfl uri)
              | connect header => exact absurd rfl (hconnect header)
              | receive message =>
                  exact rel_replyMessage (AlikeWorlds.receive hloaded
                    (fun _ _ _ _ => trivial) A A net message)
              | exchangeAdd name value =>
                  exact .some ⟨rfl, hloaded.connection, trivial, h.code, h.uri,
                    h.options⟩
              | exchangeClear =>
                  exact .some ⟨rfl, hloaded.connection, trivial, h.code, h.uri,
                    h.options⟩
              | subscribe header =>
                  cases header with
                  | none => exact rel_replyCode (AlikeWorlds.failure hloaded _ _)
                  | some header => cases hasks
              | _ => cases hasks
  | properties hset hset' =>
      -- both calls leave everything but the properties as it was
      have hleft : ∀ {op : Op} (w : World), setsProperties op = true →
          ∃ w₁, step A w ⟨op, net⟩ = some (⟨none, none⟩, w₁) ∧
            ∃ t, w₁ = { w.load net with messenger :=
              { (w.load net).messenger with exchangeProperties := t } } := by
        intro op w hset
        cases op with
        | exchangeAdd name value => exact ⟨_, rfl, _, rfl⟩
        | exchangeClear => exact ⟨_, rfl, _, rfl⟩
        | _ => cases hset
      obtain ⟨w₁, hw₁, t, rfl⟩ := hleft w hset
      obtain ⟨w₁', hw₁', t', rfl⟩ := hleft w' hset'
      rw [hw₁, hw₁']
      exact .some ⟨rfl, hloaded.connection, trivial, h.code, h.uri, h.options⟩

/-- Connecting does not look at the properties either. -/
theorem step_connect (hP : ∀ o, P o o) (h : AlikeWorlds P Unrelated w w')
    (header : Option ConnectionHeader) (net : Net) :
    Option.Rel (SameResult P Unrelated) (step A w ⟨.connect header, net⟩)
      (step A w' ⟨.connect header, net⟩) :=
  rel_replyCode (AlikeWorlds.connect h hP A A net header)

/-- Where no send fails, two different frames both get out. -/
theorem written_unbroken (A : Apr) (h : Apart w w') {s t : Socket}
    (hs : w.messenger.connection = some s) (ht : w'.messenger.connection = some t)
    (hsends : ∀ turn ∈ s.sends, ∃ extra, turn = .upTo extra)
    (hsends' : ∀ turn ∈ t.sends, ∃ extra, turn = .upTo extra) (endline : UInt8)
    (order : HashOrder) (frame frame' : Frame) :
    Option.Rel (SameResult Unrelated Unrelated)
      (w.onConnection endline (stompWrite A order frame))
      (w'.onConnection endline (stompWrite A order frame')) := by
  have hsending : Sending (w.toIo endline s) := hsends
  have hsending' : Sending (w'.toIo endline t) := hsends'
  obtain ⟨io, hok, hacc⟩ := (stompWrite_writes A order frame).completes hsending
  obtain ⟨io', hok', hacc'⟩ := (stompWrite_writes A order frame').completes hsending'
  have hst : AlikeSockets Unrelated s t := by
    rcases AlikeWorlds.connected h with ⟨hnone, -⟩ | ⟨s', t', hs', ht', hst⟩
    · cases hnone.symm.trans hs
    · obtain rfl := Option.some.inj (hs'.symm.trans hs)
      obtain rfl := Option.some.inj (ht'.symm.trans ht)
      exact hst
  rw [onConnection_of_ok hs hok, onConnection_of_ok ht hok']
  refine .some ⟨rfl, AlikeWorlds.withIo h ⟨⟨?_, ?_, ?_, ?_, trivial⟩, ?_⟩⟩
  · exact hacc.inbox.trans (hst.inbox.trans hacc'.inbox.symm)
  · exact hacc.recvs.trans (hst.recvs.trans hacc'.recvs.symm)
  · exact hacc.waits.trans (hst.waits.trans hacc'.waits.symm)
  · obtain ⟨⟨_, _, rfl⟩, -⟩ := hacc
    obtain ⟨⟨_, _, rfl⟩, -⟩ := hacc'
    exact hst.atEnd
  · obtain ⟨⟨_, _, rfl⟩, -⟩ := hacc
    obtain ⟨⟨_, _, rfl⟩, -⟩ := hacc'
    rfl

/-- The two SEND frames may differ in any header and in the body. -/
theorem step_send (A : Apr) (h : Apart w w') {net : Net} (hunbroken : Unbroken net)
    (header : Option SendHeader) {message message' : Message} (hsound : Sound message)
    (hsound' : Sound message') :
    Option.Rel (SameResult Unrelated Unrelated) (step A w ⟨.send header message, net⟩)
      (step A w' ⟨.send header message', net⟩) := by
  have hloaded : Apart (w.load net) (w'.load net) :=
    AlikeWorlds.load h (fun _ _ _ _ => trivial) net
  refine rel_replyCode ?_
  have hdestination : strippedDestination (w.load net).messenger =
      strippedDestination (w'.load net).messenger := by
    unfold strippedDestination
    rw [hloaded.uri, hloaded.options]
  unfold stompSend sendFrame
  rw [hdestination]
  cases strippedDestination (w'.load net).messenger with
  | none => exact .none
  | some destination =>
      simp only [Option.bind_eq_bind, Option.bind_some]
      refine AlikeWorlds.transact A A net _ _ _ ?_
      have hholds : ∀ {message : Message} (headers : Option Hash), Sound message →
          (Frame.mk (.lit "SEND") headers message.body message.size).bodyHolds = true :=
        fun _ h => h
      rw [write_of_bodyHolds (hholds _ hsound), write_of_bodyHolds (hholds _ hsound')]
      -- the schedule of the call is on the socket
      have hsends : ∀ {w : World} {s : Socket},
          (w.load net).messenger.connection = some s →
            ∀ turn ∈ s.sends, ∃ extra, turn = .upTo extra := by
        intro w s hs
        obtain ⟨s₀, -, rfl⟩ := Option.map_eq_some_iff.mp ((load_connection net w) ▸ hs)
        exact hunbroken
      rcases hloaded.connected with ⟨hs, ht⟩ | ⟨s, t, hs, ht, -⟩
      · unfold World.onConnection
        rw [hs, ht]
        exact .none
      · exact written_unbroken A hloaded hs ht (hsends hs) (hsends ht) _ _ _ _

/-- The two CONNECT frames may differ in the credentials. -/
theorem step_connect_other (A : Apr) (h : Apart w w') {net : Net}
    (hunbroken : Unbroken net) (header header' : Option ConnectionHeader) :
    Option.Rel (SameResult Unrelated Unrelated) (step A w ⟨.connect header, net⟩)
      (step A w' ⟨.connect header', net⟩) := by
  refine rel_replyCode
    (AlikeWorlds.connect_of_written h A A net header header' fun hopened hs ht => ?_)
  exact written_unbroken A (AlikeWorlds.mono (fun _ _ _ => trivial) hopened) hs ht
    hunbroken hunbroken _ _ _ _

/-- **No operation tells the two runs apart.** -/
theorem step_apart (A : Apr) : LockStep Apart Corresponds (step A) (step A) := by
  intro w w' c d h hcalls
  have hplain : isSend c.op = false → (∀ header, c.op ≠ .connect header) →
      Option.Rel (SameReply Apart) (step A w c) (step A w' d) := by
    intro hsend hconnect
    have hopen : Growing (Unrelated : Bytes → Bytes → Prop) := fun _ _ _ _ => trivial
    have hstep := step_unsent (A := A) hopen (fun _ _ _ _ => ⟨trivial, rfl⟩) h hcalls
      hsend hconnect
    exact rel_mono hstep fun _ _ => SameResult.mono fun _ _ _ => trivial
  obtain ⟨op, net⟩ := c
  obtain ⟨op', net'⟩ := d
  obtain ⟨hnet, hop⟩ := hcalls
  obtain rfl : net = net' := hnet
  have hop : SameButContents net op op' := hop
  cases hop with
  | send hunbroken header message message' hsound hsound' =>
      exact step_send A h hunbroken header hsound hsound'
  | connect hunbroken header header' =>
      exact step_connect_other A h hunbroken header header'
  | properties hset =>
      refine hplain ?_ ?_
      · cases op <;> first | rfl | cases hset
      · rintro header rfl
        cases hset
  | same hsend =>
      by_cases hconnect : ∃ header, op = .connect header
      · obtain ⟨header, rfl⟩ := hconnect
        exact step_connect (fun _ => trivial) h header net
      · exact hplain hsend (fun header hop => hconnect ⟨header, hop⟩)

end OneCall

/-! ## The bytes of one call -/

/-- The bytes sent so far, if there is a connection. -/
def outboxOf (w : World) : Option Bytes := w.messenger.connection.map (·.outbox)

/-- The two calls put the same bytes on the wire: behind what was sent before, or on
a new connection. -/
inductive SameBytes (e f : Event World Call Reply) : Prop
  | appended (bs : Bytes)
      (he : outboxOf e.post = (outboxOf e.pre).map (· ++ bs))
      (hf : outboxOf f.post = (outboxOf f.pre).map (· ++ bs))
  | anew (hconnect : isConnect e = true) (h : outboxOf e.post = outboxOf f.post)

/-- The frames of the two calls have nothing to send on, or the same. -/
structure Plain (e f : Event World Call Reply) : Prop where
  send : isSend e.call.op = false
  connect : isConnect e = true → e.call = f.call

/-- What is behind the bytes sent before is the same. -/
def Behind (before before' : Bytes) (o o' : Bytes) : Prop :=
  ∃ bs, o = before ++ bs ∧ o' = before' ++ bs

theorem growing_behind (before before' : Bytes) : Growing (Behind before before') := by
  rintro _ _ more ⟨bs, rfl, rfl⟩
  exact ⟨bs ++ more, List.append_assoc _ _ _, List.append_assoc _ _ _⟩

/-- Worlds in which exactly this was sent. -/
theorem apart_exact {w w' : World} (h : Apart w w') {s t : Socket}
    (hs : w.messenger.connection = some s) (ht : w'.messenger.connection = some t) :
    AlikeWorlds (fun o o' => o.1 = s.outbox ∧ o'.1 = t.outbox) Unrelated w w' := by
  have hst : AlikeSockets Unrelated s t := by
    rcases AlikeWorlds.connected h with ⟨hnone, -⟩ | ⟨s', t', hs', ht', hst⟩
    · cases hnone.symm.trans hs
    · obtain rfl := Option.some.inj (hs'.symm.trans hs)
      obtain rfl := Option.some.inj (ht'.symm.trans ht)
      exact hst
  refine ⟨?_, trivial, h.code, h.uri, h.options⟩
  rw [hs, ht]
  exact .some ⟨hst.inbox, hst.recvs, hst.waits, hst.atEnd, rfl, rfl⟩

theorem isConnect_of_setsProperties {e : Event World Call Reply}
    (h : setsProperties e.call.op = true) : isConnect e = false := by
  unfold isConnect
  split
  · rename_i header hop
    rw [hop] at h
    cases h
  · rfl

theorem isConnect_eq {e f : Event World Call Reply} (h : Corresponds e.call f.call) :
    isConnect f = isConnect e := by
  have hop := h.op
  generalize he : e.call.op = op, hf : f.call.op = op' at hop
  cases hop with
  | same => rw [isConnect, isConnect, he, hf]
  | properties hset hset' =>
      rw [isConnect_of_setsProperties (hf ▸ hset'),
        isConnect_of_setsProperties (he ▸ hset)]
  | send => rw [isConnect, isConnect, he, hf]
  | connect => rw [isConnect, isConnect, he, hf]

section Bytes

variable {A : Apr} {e f : Event World Call Reply}
variable (he : step A e.pre e.call = some (e.reply, e.post))
variable (hf : step A f.pre f.call = some (f.reply, f.post))
variable (h : Apart e.pre f.pre) (hcalls : Corresponds e.call f.call)
include he hf h hcalls

omit h hcalls in
theorem alike_of_step {P Q : Output → Output → Prop}
    {R : Hash → Hash → Prop}
    (hstep : AlikeWorlds P R e.pre f.pre →
      Option.Rel (SameResult Q R) (step A e.pre e.call) (step A f.pre f.call))
    (hpre : AlikeWorlds P R e.pre f.pre) : AlikeWorlds Q R e.post f.post := by
  have hrel := hstep hpre
  rw [he, hf] at hrel
  cases hrel with
  | some hpq => exact hpq.2

/-- On an old connection. -/
theorem sameBytes_unsent (hsend : isSend e.call.op = false)
    (hconnect : ∀ header, e.call.op ≠ .connect header) : SameBytes e f := by
  have hno : isConnect e = false := by
    unfold isConnect
    split
    · rename_i header hop
      exact absurd hop (hconnect header)
    · rfl
  have hno' : isConnect f = false := (isConnect_eq hcalls).trans hno
  rcases AlikeWorlds.connected h with ⟨hs, ht⟩ | ⟨s, t, hs, ht, -⟩
  · have hpost := (unconnected_step he hs hno).1
    have hpost' := (unconnected_step hf ht hno').1
    exact .appended [] (by rw [outboxOf, outboxOf, hpost, hs]; rfl)
      (by rw [outboxOf, outboxOf, hpost', ht]; rfl)
  · have hafter : AlikeWorlds (SendsAlike (Behind s.outbox t.outbox)) Unrelated
        e.post f.post := by
      refine alike_of_step he hf (fun hpre => ?_) (apart_exact h hs ht)
      refine step_unsent (growing_behind _ _) ?_ hpre hcalls hsend hconnect
      rintro o o' n ⟨ho, ho'⟩
      exact ⟨⟨[], by rw [ho, List.append_nil], by rw [ho', List.append_nil]⟩, rfl⟩
    obtain ⟨s', hs', -⟩ := outbox_step he hs hno
    rcases AlikeWorlds.connected hafter with ⟨hnone, -⟩ | ⟨u, v, hu, hv, huv⟩
    · cases hnone.symm.trans hs'
    · obtain ⟨bs, hbs, hbs'⟩ := huv.output.1
      refine .appended bs ?_ ?_
      · rw [outboxOf, outboxOf, hu, hs]
        exact congrArg some hbs
      · rw [outboxOf, outboxOf, hv, ht]
        exact congrArg some hbs'

omit hcalls in
/-- On a new connection, or on none if it could not be made. -/
theorem sameBytes_connect {header : Option ConnectionHeader}
    (hop : e.call.op = .connect header) (hcall : e.call = f.call) : SameBytes e f := by
  have hconnect : isConnect e = true := by
    unfold isConnect
    rw [hop]
  have hstep : ∀ {P : Output → Output → Prop}, (∀ o, P o o) →
      AlikeWorlds P Unrelated e.pre f.pre →
        Option.Rel (SameResult P Unrelated) (step A e.pre e.call)
          (step A f.pre f.call) := by
    intro P hP hpre
    have hthis : e.call = ⟨.connect header, e.call.net⟩ := by rw [← hop]
    rw [← hcall, hthis]
    exact step_connect hP hpre header e.call.net
  have hsame : ∀ {w w' : World}, AlikeWorlds Eq Unrelated w w' →
      outboxOf w = outboxOf w' := by
    intro w w' hww
    unfold outboxOf
    rcases AlikeWorlds.connected hww with ⟨hs, ht⟩ | ⟨s, t, hs, ht, hst⟩
    · rw [hs, ht]
    · rw [hs, ht]
      exact congrArg some (Prod.mk.inj hst.output).1
  rcases AlikeWorlds.connected h with ⟨hs, ht⟩ | ⟨s, t, hs, ht, hst⟩
  · have hpre : AlikeWorlds Eq Unrelated e.pre f.pre := by
      refine ⟨?_, trivial, h.code, h.uri, h.options⟩
      rw [hs, ht]
      exact .none
    exact .anew hconnect (hsame (alike_of_step he hf (hstep fun _ => rfl) hpre))
  · -- either both keep the old connection or both have the new one
    let kept : Output → Output → Prop := fun o o' =>
      (o.1 = s.outbox ∧ o'.1 = t.outbox) ∨ o = o'
    have hpre : AlikeWorlds kept Unrelated e.pre f.pre :=
      AlikeWorlds.mono (fun _ _ ho => .inl ho) (apart_exact h hs ht)
    have hafter : AlikeWorlds kept Unrelated e.post f.post :=
      alike_of_step he hf (hstep fun _ => .inr rfl) hpre
    rcases AlikeWorlds.connected hafter with ⟨hu, hv⟩ | ⟨u, v, hu, hv, huv⟩
    · exact .anew hconnect (by rw [outboxOf, outboxOf, hu, hv])
    · rcases huv.output with ⟨ho, ho'⟩ | ho
      · refine .appended [] ?_ ?_
        · rw [outboxOf, outboxOf, hu, hs, Option.map_some, Option.map_some,
            Option.map_some, List.append_nil]
          exact congrArg some ho
        · rw [outboxOf, outboxOf, hv, ht, Option.map_some, Option.map_some,
            Option.map_some, List.append_nil]
          exact congrArg some ho'
      · refine .anew hconnect ?_
        rw [outboxOf, outboxOf, hu, hv]
        exact congrArg some (Prod.mk.inj ho).1

/-- Whatever is neither a SEND frame nor one of two CONNECT frames that differ is written
alike. -/
theorem sameBytes_of_step (hplain : Plain e f) : SameBytes e f := by
  obtain ⟨hsend, hcall⟩ := hplain
  by_cases hconnect : ∃ header, e.call.op = .connect header
  · obtain ⟨header, hop⟩ := hconnect
    refine sameBytes_connect he hf h hop (hcall ?_)
    unfold isConnect
    rw [hop]
  · exact sameBytes_unsent he hf h hcalls hsend
      (fun header hop => hconnect ⟨header, hop⟩)

end Bytes

/-! ## The main result -/

/-- Two runs with the same replies, in which every call whose frame has nothing to send
on writes the same. -/
structure Confined (p q : Log × World) : Prop where
  run : SameRun Apart Corresponds p q
  bytes : List.Forall₂ (fun e f => Plain e f → SameBytes e f) p.1 q.1

/-- The same messenger with other exchange properties. -/
def withProperties (w : World) (properties : Hash) : World :=
  { w with messenger := { w.messenger with exchangeProperties := properties } }

/-- **What is sent on decides nothing.**  Start from other properties, replace every
`stomp_exchange_add` and `stomp_exchange_clear` of a run by any other one, and give
its sends other messages and its connects other credentials: the run is defined if
the first is, every call gives the same reply (the bodies received included), and
whatever is neither a SEND frame nor a CONNECT frame with other credentials is the same
bytes on the wire. -/
theorem contents_confined (A : Apr) (w : World) (properties : Hash)
    {calls calls' : List Call} (hcalls : List.Forall₂ Corresponds calls calls') :
    Option.Rel Confined (exec (step A) w calls)
      (exec (step A) (withProperties w properties) calls') := by
  have hstart : Apart w (withProperties w properties) := by
    have hsame : AlikeMessengers Unrelated Unrelated w.messenger w.messenger :=
      alikeMessengers_refl (fun _ => trivial) (fun _ => trivial) w.messenger
    exact ⟨hsame.connection, trivial, rfl, rfl, rfl⟩
  have hruns := exec_lockStep (step_apart A) hcalls hstart
  cases hp : exec (step A) w calls with
  | none =>
      rw [hp] at hruns
      cases hq : exec (step A) (withProperties w properties) calls' with
      | none => exact .none
      | some q => rw [hq] at hruns; cases hruns
  | some p =>
      rw [hp] at hruns
      obtain ⟨q, hq, hrun⟩ := eq_some_of_rel hruns
      rw [hq]
      refine .some ⟨hrun, ?_⟩
      obtain ⟨hlength, hzip⟩ := List.forall₂_iff_zip.mp hrun.log
      refine List.forall₂_iff_zip.mpr ⟨hlength, fun {e f} hmem hplain => ?_⟩
      have hevent := hzip hmem
      obtain ⟨he, hf⟩ := List.of_mem_zip hmem
      exact sameBytes_of_step ((exec_run hp).step_of_mem he)
        ((exec_run hq).step_of_mem hf) hevent.pre hevent.call hplain

/-- A session with these credentials, one call that sets properties, and this message. -/
def sessionWith (header : Option ConnectionHeader) (op : Op) (message : Message) :
    List Call :=
  [⟨.setEndpoint (.lit "stomp://localhost:61613/queue/test"), .quiet []⟩,
    ⟨.connect header, .quiet (ascii "CONNECTED\n\n" ++ [nul, lf])⟩,
    ⟨op, .quiet []⟩, ⟨.subscribe (some ⟨0, 7⟩), .quiet []⟩,
    ⟨.send none message, .quiet []⟩]

def withoutLogin : List Call :=
  sessionWith none (.exchangeAdd (.lit "a") (some (.lit "1")))
    ⟨3, some (ascii "hi" ++ [nul])⟩

def withLogin : List Call :=
  sessionWith (some ⟨some ⟨some (.lit "user"), some (.lit "secret")⟩⟩) .exchangeClear
    ⟨6, some (ascii "hello" ++ [nul])⟩

theorem contents_confined_login : ∃ p q,
    exec (step Apr.sample) (stompMessengerInit 0) withoutLogin = some p ∧
      exec (step Apr.sample) (withProperties (stompMessengerInit 0) ∅) withLogin =
        some q ∧ Confined p q := by
  have hquiet : ∀ bs, Unbroken (.quiet bs) := fun _ _ hturn =>
    absurd hturn List.not_mem_nil
  have hcalls : List.Forall₂ Corresponds withoutLogin withLogin :=
    .cons ⟨rfl, .same rfl⟩ <| .cons ⟨rfl, .connect (hquiet _) _ _⟩ <|
      .cons ⟨rfl, .properties rfl rfl⟩ <| .cons ⟨rfl, .same rfl⟩ <|
      .cons ⟨rfl, .send (hquiet _) _ _ _ (by decide) (by decide)⟩ .nil
  have hdefined : (exec (step Apr.sample) (stompMessengerInit 0)
      withoutLogin).isSome = true := by
    decide +kernel
  obtain ⟨p, hp⟩ := Option.isSome_iff_exists.mp hdefined
  have hruns := contents_confined Apr.sample (stompMessengerInit 0) ∅ hcalls
  rw [hp] at hruns
  obtain ⟨q, hq, hconfined⟩ := eq_some_of_rel hruns
  exact ⟨p, q, hp, hq, hconfined⟩

end LibStomp.Session.Confinement
