import LibStomp.Session.Steps
import LibStomp.Stream.Diagnostics

/-!
# Error texts do not steer a session

Three records keep the text of the last error: `messenger->status` and the static
records of `stomp_io.c` and `stomp_engine.c`.  The operations write them, copy
them into each other and never look at them to decide what to do.  Nor do they
look at the number of the socket they are connected by.

## Main results

* `step_alike` — messengers that differ in these things only are told apart by no
  operation, even if the two runtimes have different texts for their errors.
* `diagnostics_inert` — with other texts and other records at its start a run has
  the same replies and leaves the messenger, its connection included, alike.
-/

namespace LibStomp.Session.Diagnostics

open LibStomp.Model
open LibStomp.Verified.Runs
open LibStomp.Verified.Coupling
open LibStomp.Stream.Diagnostics
open LibStomp.Session.Steps

/-! ## Messengers that are alike -/

/-- Messengers that differ at most in the text of their status, in the number of their
socket, and in what `P` and `Q` leave open of what they have sent and of their
exchange properties. -/
structure AlikeMessengers (P : Output → Output → Prop) (Q : Hash → Hash → Prop)
    (m m' : Messenger) : Prop where
  connection : Option.Rel (AlikeSockets P) m.connection m'.connection
  exchangeProperties : Q m.exchangeProperties m'.exchangeProperties
  code : m.status.code = m'.status.code
  uri : m.uri = m'.uri
  options : m.options = m'.options

/-- The static records do not matter. -/
def AlikeWorlds (P : Output → Output → Prop) (Q : Hash → Hash → Prop)
    (w w' : World) : Prop :=
  AlikeMessengers P Q w.messenger w'.messenger

variable {P : Output → Output → Prop} {Q : Hash → Hash → Prop}

/-- The same was sent, and the coming sends go the same. -/
abbrev Same : Output → Output → Prop := SendsAlike Eq

theorem same_refl (o : Output) : Same o o := ⟨rfl, rfl⟩

theorem eq_of_same {o o' : Output} (h : Same o o') : o = o' := Prod.ext h.1 h.2

theorem AlikeSockets.mono {P' : Output → Output → Prop} (hP : ∀ o o', P o o' → P' o o')
    {s t : Socket} (h : AlikeSockets P s t) : AlikeSockets P' s t :=
  ⟨h.inbox, h.recvs, h.waits, h.atEnd, hP _ _ h.output⟩

theorem AlikeWorlds.mono {P' : Output → Output → Prop}
    (hP : ∀ o o', P o o' → P' o o') {w w' : World} (h : AlikeWorlds P Q w w') :
    AlikeWorlds P' Q w w' where
  connection := by
    have hconnection := h.connection
    generalize w.messenger.connection = c at hconnection ⊢
    generalize w'.messenger.connection = c' at hconnection ⊢
    cases hconnection with
    | none => exact .none
    | some hs => exact .some (AlikeSockets.mono hP hs)
  exchangeProperties := h.exchangeProperties
  code := h.code
  uri := h.uri
  options := h.options

theorem alikeSockets_refl (hP : ∀ o, P o o) (s : Socket) : AlikeSockets P s s :=
  ⟨rfl, rfl, rfl, rfl, hP _⟩

theorem alikeMessengers_refl (hP : ∀ o, P o o) (hQ : ∀ t, Q t t) (m : Messenger) :
    AlikeMessengers P Q m m where
  connection := by
    cases m.connection with
    | none => exact .none
    | some s => exact .some (alikeSockets_refl hP s)
  exchangeProperties := hQ _
  code := rfl
  uri := rfl
  options := rfl

/-- Results of an operation that cannot be told apart. -/
abbrev SameResult (P : Output → Output → Prop) (Q : Hash → Hash → Prop) {α : Type} :
    α × World → α × World → Prop :=
  SameReply (AlikeWorlds P Q)

theorem SameResult.mono {P' : Output → Output → Prop} (hP : ∀ o o', P o o' → P' o o')
    {α : Type} {p q : α × World} (h : SameResult P Q p q) : SameResult P' Q p q :=
  ⟨h.1, AlikeWorlds.mono hP h.2⟩

section Alike

variable {w w' : World} (h : AlikeWorlds P Q w w')
include h

theorem AlikeWorlds.setStatus (code : StatusCode) (text text' : CString) :
    AlikeWorlds P Q (w.setStatus code text) (w'.setStatus code text') :=
  ⟨h.connection, h.exchangeProperties, rfl, h.uri, h.options⟩

theorem AlikeWorlds.failure (text text' : CString) :
    Option.Rel (SameResult P Q) (w.failure text) (w'.failure text') :=
  .some ⟨rfl, h.setStatus .failure text text'⟩

theorem AlikeWorlds.success :
    Option.Rel (SameResult P Q) (some (StatusCode.success, w))
      (some (.success, w')) :=
  .some ⟨rfl, h⟩

theorem AlikeWorlds.withIo {io io' : Io} (hio : Alike P io io') :
    AlikeWorlds P Q (w.withIo io) (w'.withIo io') :=
  ⟨.some hio.socket, h.exchangeProperties, h.code, h.uri, h.options⟩

/-- Both have a connection or neither has. -/
theorem AlikeWorlds.connected :
    (w.messenger.connection = none ∧ w'.messenger.connection = none) ∨
      ∃ s t, w.messenger.connection = some s ∧ w'.messenger.connection = some t ∧
        AlikeSockets P s t := by
  have hconnection := h.connection
  generalize w.messenger.connection = c at hconnection ⊢
  generalize w'.messenger.connection = c' at hconnection ⊢
  cases hconnection with
  | none => exact .inl ⟨rfl, rfl⟩
  | some hs => exact .inr ⟨_, _, rfl, rfl, hs⟩

theorem AlikeWorlds.onConnection {α : Type} {x y : IoM α} (endline : UInt8)
    (hx : Couples (Alike P) x y) :
    Option.Rel (SameResult P Q) (w.onConnection endline x)
      (w'.onConnection endline y) := by
  rcases h.connected with ⟨hs, ht⟩ | ⟨s, t, hs, ht, hst⟩
  · unfold World.onConnection
    rw [hs, ht]
    exact .none
  · have hresult := hx (w.toIo endline s) (w'.toIo endline t) ⟨hst, rfl⟩
    cases hxs : x (w.toIo endline s) with
    | ok a io =>
        rw [onConnection_of_ok hs hxs]
        cases hyt : y (w'.toIo endline t) with
        | error rc io' => rw [hxs, hyt] at hresult; cases hresult
        | ok b io' =>
            rw [hxs, hyt] at hresult
            rw [onConnection_of_ok ht hyt]
            cases hresult with
            | ok _ hio => exact .some ⟨rfl, h.withIo hio⟩
    | error rc io =>
        rw [onConnection_of_error hs hxs]
        cases hyt : y (w'.toIo endline t) with
        | ok b io' => rw [hxs, hyt] at hresult; cases hresult
        | error rc' io' =>
            rw [hxs, hyt] at hresult
            rw [onConnection_of_error ht hyt]
            cases hresult with
            | error _ hio => exact .some ⟨rfl, h.withIo hio⟩

/-- Writes of frames that stay inside their bodies alike. -/
theorem AlikeWorlds.write {A A' : Apr} {net : Net} {frame frame' : Frame}
    (hinside : ∀ io io', Alike P io io' →
      staysInside A net.order frame io = staysInside A' net.order frame' io')
    (hx : Couples (Alike P) (stompWrite A net.order frame)
      (stompWrite A' net.order frame')) :
    Option.Rel (SameResult P Q) (w.write A net frame) (w'.write A' net frame') := by
  have hrun := h.onConnection net.endline hx
  unfold World.write
  rcases h.connected with ⟨hs, ht⟩ | ⟨s, t, hs, ht, hst⟩
  · rw [hs, ht]
    exact .none
  · rw [hs, ht]
    simp only [Option.bind_eq_bind, Option.bind_some]
    rw [hinside (w.toIo net.endline s) (w'.toIo net.endline t) ⟨hst, rfl⟩]
    split
    · exact hrun
    · exact .none

theorem AlikeWorlds.canRead (endline : UInt8) :
    Option.Rel (SameResult P Q) (w.canRead endline) (w'.canRead endline) := by
  unfold World.canRead
  rcases h.connected with ⟨hs, ht⟩ | ⟨s, t, hs, ht, hst⟩
  · rw [hs, ht]
    exact .none
  · rw [hs, ht]
    have hio : Alike P (w.toIo endline s) (w'.toIo endline t) := ⟨hst, rfl⟩
    obtain ⟨hready, hafter⟩ := alike_stompIoCanRead hio
    exact .some ⟨hready, h.withIo hafter⟩

theorem AlikeWorlds.readFrame (A A' : Apr) (endline : UInt8) :
    Option.Rel (SameResult P Q) (w.readFrame A endline)
      (w'.readFrame A' endline) := by
  unfold World.readFrame
  refine rel_bind (h.canRead endline) ?_
  rintro ⟨ready, w₁⟩ ⟨ready', w₁'⟩ ⟨hready, h₁⟩
  obtain rfl : ready = ready' := hready
  cases ready with
  | false => exact .some ⟨rfl, h₁⟩
  | true =>
      refine rel_bind (AlikeWorlds.onConnection h₁ endline (couples_stompRead A A')) ?_
      rintro ⟨stat, w₂⟩ ⟨stat', w₂'⟩ ⟨hstat, h₂⟩
      obtain rfl : stat = stat' := hstat
      cases stat with
      | error rc => exact .some ⟨rfl, h₂⟩
      | ok frame => exact .some ⟨rfl, h₂⟩

theorem AlikeWorlds.processReceipt (A A' : Apr) (net : Net) :
    Option.Rel (SameResult P Q) (stompProcessReceipt A net w)
      (stompProcessReceipt A' net w') := by
  unfold stompProcessReceipt
  refine rel_bind (h.readFrame A A' net.endline) ?_
  rintro ⟨reading, w₁⟩ ⟨reading', w₁'⟩ ⟨hreading, h₁⟩
  obtain rfl : reading = reading' := hreading
  cases reading with
  | notReady => exact AlikeWorlds.failure h₁ _ _
  | failed rc => exact AlikeWorlds.failure h₁ _ _
  | frame frame =>
      show Option.Rel (SameResult P Q) (ite _ _ _) (ite _ _ _)
      split
      · cases invalidReply frame with
        | none => exact .none
        | some text => exact AlikeWorlds.failure h₁ _ _
      · exact AlikeWorlds.success h₁

theorem AlikeWorlds.setEndpoint {A A' : Apr} (hA : A.uriParse = A'.uriParse)
    (uri : CString) :
    Option.Rel (SameResult P Q) (stompSetEndpoint A uri w)
      (stompSetEndpoint A' uri w') := by
  have hset : ∀ parsed, AlikeWorlds P Q
      { w with messenger := { w.messenger with uri := some parsed } }
      { w' with messenger := { w'.messenger with uri := some parsed } } :=
    fun _ => ⟨h.connection, h.exchangeProperties, h.code, rfl, h.options⟩
  unfold stompSetEndpoint
  rw [hA]
  rcases A'.uriParse uri with ⟨stat, parsed⟩
  simp only []
  split
  · exact AlikeWorlds.failure (hset parsed) _ _
  cases parsed.path with
  | none => exact AlikeWorlds.failure (hset parsed) _ _
  | some path =>
      simp only []
      split
      · exact AlikeWorlds.failure (hset parsed) _ _
      · exact AlikeWorlds.success (hset parsed)

end Alike

/-! ## Writing operations -/

/-- After writes that end alike the rest of a writing operation does. -/
theorem AlikeWorlds.transact {w w' : World} (A A' : Apr) (net : Net)
    (text text' : World → CString) {frame frame' : Frame} (receipt : Option UInt32)
    (hwrite : Option.Rel (SameResult P Q)
      (w.write A net frame) (w'.write A' net frame')) :
    Option.Rel (SameResult P Q) (transact A net text frame receipt w)
      (transact A' net text' frame' receipt w') := by
  unfold Model.transact
  refine rel_bind hwrite ?_
  rintro ⟨stat, w₁⟩ ⟨stat', w₁'⟩ ⟨hstat, h₁⟩
  obtain rfl : stat = stat' := hstat
  cases stat with
  | error rc => exact AlikeWorlds.failure h₁ _ _
  | ok _ =>
      cases receipt with
      | none => exact AlikeWorlds.success h₁
      | some receipt =>
          show Option.Rel (SameResult P Q) (ite _ _ _) (ite _ _ _)
          split
          · exact AlikeWorlds.processReceipt h₁ A A' net
          · exact AlikeWorlds.success h₁

/-- The schedule of a call is the same for both. -/
theorem AlikeWorlds.load {w w' : World} (h : AlikeWorlds P Q w w')
    {P' : Output → Output → Prop} (hP : ∀ o o' n, P o o' → P' (o.1, n) (o'.1, n))
    (net : Net) : AlikeWorlds P' Q (w.load net) (w'.load net) where
  connection := by
    refine rel_map h.connection fun s t hs => ?_
    exact ⟨congrArg (· ++ net.arrivals) hs.inbox, rfl, rfl, rfl,
      hP _ _ net.sends hs.output⟩
  exchangeProperties := h.exchangeProperties
  code := h.code
  uri := h.uri
  options := h.options

/-! ## Connecting -/

/-- Two connects of the engine that end alike.  Their descriptors may differ. -/
inductive SameConnect : EStateM.Result AprError Engine Nat →
    EStateM.Result AprError Engine Nat → Prop
  | ok (d d' : Nat) (e e' : Engine) : SameConnect (.ok d e) (.ok d' e')
  | error (rc : AprError) (e e' : Engine) : SameConnect (.error rc e) (.error rc e')

theorem engineCall_same {outcome : Option AprError} {text text' : AprError → CString}
    {k k' : Unit → EngineM Nat} {e e' : Engine}
    (h : SameConnect (k () e) (k' () e')) :
    SameConnect ((engineCall outcome text >>= k) e)
      ((engineCall outcome text' >>= k') e') := by
  cases outcome with
  | none => exact h
  | some rc => exact .error rc _ _

/-- Only what the runtime answers decides how a connect of the engine ends. -/
theorem engineConnect_same (A A' : Apr) (plan : ConnectPlan)
    (hostname : Option CString) (e e' : Engine) :
    SameConnect (stompEngineConnect A plan hostname e)
      (stompEngineConnect A' plan hostname e') := by
  unfold stompEngineConnect
  refine engineCall_same (engineCall_same ?_)
  refine engineCall_same (engineCall_same ?_)
  refine engineCall_same (engineCall_same ?_)
  exact engineCall_same (.ok _ _ _ _)

/-- Both new connections are as the network makes them; what becomes of the two writes
is left open. -/
theorem AlikeWorlds.connect_of_written {w w' : World} (h : AlikeWorlds P Q w w')
    (A A' : Apr) (net : Net) (header header' : Option ConnectionHeader)
    (hwritten : ∀ {w w' : World} {d d' : Nat}, AlikeWorlds Same Q w w' →
      w.messenger.connection = some (net.socket d) →
      w'.messenger.connection = some (net.socket d') →
      Option.Rel (SameResult P Q)
        (w.onConnection net.endline (stompWrite A net.order (connectFrame header)))
        (w'.onConnection net.endline
          (stompWrite A' net.order (connectFrame header')))) :
    Option.Rel (SameResult P Q) (stompConnect A net header w)
      (stompConnect A' net header' w') := by
  unfold stompConnect
  rw [h.uri]
  cases w'.messenger.uri with
  | none => exact .none
  | some uri =>
      have hengine :=
        engineConnect_same A A' net.plan uri.hostname w.engine w'.engine
      simp only [Option.bind_eq_bind, Option.bind_some]
      generalize stompEngineConnect A net.plan uri.hostname w.engine = p at hengine ⊢
      generalize stompEngineConnect A' net.plan uri.hostname w'.engine = q
        at hengine ⊢
      cases hengine with
      | error rc e e' =>
          have hfailed : AlikeWorlds P Q { w with engine := e }
              { w' with engine := e' } := h
          exact AlikeWorlds.failure hfailed _ _
      | ok d d' e e' =>
          have hopened : AlikeWorlds Same Q
              { w with
                engine := e
                messenger :=
                  { w.messenger with connection := some (net.socket d) } }
              { w' with
                engine := e'
                messenger :=
                  { w'.messenger with connection := some (net.socket d') } } :=
            ⟨.some ⟨rfl, rfl, rfl, rfl, same_refl _⟩, h.exchangeProperties, h.code, h.uri,
              h.options⟩
          have hrun := hwritten hopened rfl rfl
          rw [← write_of_bodyHolds rfl, ← write_of_bodyHolds rfl] at hrun
          refine rel_bind hrun ?_
          rintro ⟨stat, w₁⟩ ⟨stat', w₁'⟩ ⟨hstat, h₁⟩
          obtain rfl : stat = stat' := hstat
          cases stat with
          | error rc => exact AlikeWorlds.failure h₁ _ _
          | ok _ =>
              refine rel_bind (AlikeWorlds.readFrame h₁ A A' net.endline) ?_
              rintro ⟨reading, w₂⟩ ⟨reading', w₂'⟩ ⟨hreading, h₂⟩
              obtain rfl : reading = reading' := hreading
              cases reading with
              | notReady => exact AlikeWorlds.failure h₂ _ _
              | failed rc => exact AlikeWorlds.failure h₂ _ _
              | frame frame =>
                  show Option.Rel (SameResult P Q) (ite _ _ _) (ite _ _ _)
                  split
                  · exact AlikeWorlds.failure h₂ _ _
                  · exact AlikeWorlds.success h₂

/-- With the same header both write the same. -/
theorem AlikeWorlds.connect {w w' : World} (h : AlikeWorlds P Q w w')
    (hP : ∀ o, P o o) (A A' : Apr) (net : Net) (header : Option ConnectionHeader) :
    Option.Rel (SameResult P Q) (stompConnect A net header w)
      (stompConnect A' net header w') := by
  refine AlikeWorlds.connect_of_written h A A' net header header fun hopened _ _ => ?_
  exact rel_mono (AlikeWorlds.onConnection hopened net.endline
    (couples_stompWrite growing_eq A A' net.order _))
    fun _ _ => SameResult.mono fun o _ ho => eq_of_same ho ▸ hP o

/-! ## Receiving -/

theorem AlikeWorlds.receive {w w' : World} (h : AlikeWorlds P Q w w')
    (hQ : ∀ t s s', Q s s' → Q (aprHashOverlay t s) (aprHashOverlay t s'))
    (A A' : Apr) (net : Net) (message : Message) :
    Option.Rel (fun p q => p.1 = q.1 ∧ p.2.1 = q.2.1 ∧ AlikeWorlds P Q p.2.2 q.2.2)
      (stompReceive A net message w) (stompReceive A' net message w') := by
  unfold stompReceive
  refine rel_bind (h.readFrame A A' net.endline) ?_
  rintro ⟨reading, w₁⟩ ⟨reading', w₁'⟩ ⟨hreading, h₁⟩
  obtain rfl : reading = reading' := hreading
  cases reading with
  | notReady => exact .some ⟨rfl, rfl, AlikeWorlds.setStatus h₁ _ _ _⟩
  | failed rc =>
      cases rc <;>
        first
        | exact .some ⟨rfl, rfl, h₁⟩
        | exact .some ⟨rfl, rfl, AlikeWorlds.setStatus h₁ _ _ _⟩
  | frame frame =>
      have hmerged : AlikeWorlds P Q (merge frame w₁) (merge frame w₁') :=
        ⟨h₁.connection, hQ _ _ _ h₁.exchangeProperties, h₁.code, h₁.uri, h₁.options⟩
      show Option.Rel _ (ite _ _ _) (ite _ _ _)
      split
      · exact .some ⟨rfl, rfl, hmerged⟩
      · exact .some ⟨rfl, rfl, hmerged⟩

/-! ## All operations -/

/-- The operation is one that composes a frame and writes it on the connection. -/
def asks : Op → Bool
  | .connect _ => false
  | .receive _ => false
  | .setEndpoint _ => false
  | .exchangeAdd _ _ => false
  | .exchangeClear => false
  | .subscribe none => false
  | _ => true

/-- Without a frame such an operation has no behaviour. -/
theorem step_of_request_none (A : Apr) {w : World} {op : Op} (hasks : asks op = true)
    (h : request w.messenger op = none) (net : Net) : step A w ⟨op, net⟩ = none := by
  cases op with
  | subscribe header =>
      cases header with
      | none => cases hasks
      | some header =>
          have hframe : subscribeFrame w.messenger header = none :=
            Option.map_eq_none_iff.mp h
          show replyCode ((subscribeFrame w.messenger header).bind _) = none
          rw [hframe]
          rfl
  | unsubscribe header =>
      cases header with
      | none => rfl
      | some header =>
          have hframe : unsubscribeFrame w.messenger header = none :=
            Option.map_eq_none_iff.mp h
          show replyCode ((unsubscribeFrame w.messenger header).bind _) = none
          rw [hframe]
          rfl
  | send header message =>
      have hframe : sendFrame w.messenger header message = none :=
        Option.map_eq_none_iff.mp h
      show replyCode ((sendFrame w.messenger header message).bind _) = none
      rw [hframe]
      rfl
  | connect => cases hasks
  | receive => cases hasks
  | setEndpoint => cases hasks
  | exchangeAdd => cases hasks
  | exchangeClear => cases hasks
  | _ => cases h

theorem rel_replyCode {x y : Option (StatusCode × World)}
    (h : Option.Rel (SameResult P Q) x y) :
    Option.Rel (SameResult P Q) (replyCode x) (replyCode y) := by
  refine rel_map h ?_
  rintro ⟨code, w⟩ ⟨code', w'⟩ ⟨hcode, hw⟩
  obtain rfl : code = code' := hcode
  exact ⟨rfl, hw⟩

theorem rel_replyMessage {x y : Option (StatusCode × Message × World)}
    (h : Option.Rel
      (fun p q => p.1 = q.1 ∧ p.2.1 = q.2.1 ∧ AlikeWorlds P Q p.2.2 q.2.2) x y) :
    Option.Rel (SameResult P Q) (replyMessage x) (replyMessage y) := by
  refine rel_map h ?_
  rintro ⟨code, message, w⟩ ⟨code', message', w'⟩ ⟨hcode, hmessage, hw⟩
  obtain rfl : code = code' := hcode
  obtain rfl : message = message' := hmessage
  exact ⟨rfl, hw⟩

/-- The frame of a request is composed from what alike messengers have in common. -/
theorem request_alike {m m' : Messenger} (h : AlikeMessengers P Eq m m') (op : Op) :
    request m op = request m' op := by
  obtain ⟨c, properties, status, uri, options⟩ := m
  obtain ⟨c', properties', status', uri', options'⟩ := m'
  obtain rfl : properties = properties' := h.exchangeProperties
  obtain rfl : uri = uri' := h.uri
  obtain rfl : options = options' := h.options
  rfl

/-- **No operation looks at an error text.** -/
theorem step_alike {A A' : Apr} (hA : A.uriParse = A'.uriParse) :
    LockStep (AlikeWorlds Same Eq) Eq (step A) (step A') := by
  rintro w w' ⟨op, net⟩ _ h rfl
  have hloaded : AlikeWorlds Same Eq (w.load net) (w'.load net) :=
    AlikeWorlds.load h (fun _ _ _ ho => ⟨ho.1, rfl⟩) net
  cases hrequest : request w.messenger op with
  | some q =>
      have hrequest' := (request_alike h op).symm.trans hrequest
      rw [step_request hrequest, step_request hrequest']
      exact rel_replyCode (AlikeWorlds.transact A A' net _ _ _
        (hloaded.write
          (fun _ _ hio => staysInside_alike growing_eq A A' net.order q.frame hio)
          (couples_stompWrite growing_eq A A' net.order q.frame)))
  | none =>
      have hrequest' := (request_alike h op).symm.trans hrequest
      cases hasks : asks op with
      | true =>
          rw [step_of_request_none A hasks hrequest,
            step_of_request_none A' hasks hrequest']
          exact .none
      | false =>
          cases op with
          | setEndpoint uri =>
              exact rel_replyCode (AlikeWorlds.setEndpoint hloaded hA uri)
          | connect header =>
              exact rel_replyCode
                (AlikeWorlds.connect h same_refl A A' net header)
          | receive message =>
              exact rel_replyMessage (AlikeWorlds.receive hloaded
                (fun _ _ _ hs => hs ▸ rfl) A A' net message)
          | exchangeAdd name value =>
              exact .some ⟨rfl, hloaded.connection,
                congrArg (aprHashSet · name value) h.exchangeProperties, h.code,
                h.uri, h.options⟩
          | exchangeClear =>
              exact .some ⟨rfl, hloaded.connection, rfl, h.code, h.uri, h.options⟩
          | subscribe header =>
              cases header with
              | none => exact rel_replyCode (AlikeWorlds.failure hloaded _ _)
              | some header => cases hasks
          | _ => cases hasks

/-! ## The main result -/

/-- A world with other texts in its records. -/
def withRecords (w : World) (message : Option CString) (ioError : Status)
    (engine : Engine) : World where
  messenger := { w.messenger with status := ⟨w.messenger.status.code, message⟩ }
  ioError := ioError
  engine := engine

/-- **Error records and error texts are write-only.**  A run that starts with other
records, over a runtime that has other texts for its errors, is defined when this
one is, gives the same replies call by call, and leaves a messenger that is
alike: the same bytes sent and unread, the same properties, endpoint, options and
status code. -/
theorem diagnostics_inert (A : Apr) (texts : AprError → CString) (w : World)
    (message : Option CString) (ioError : Status) (engine : Engine)
    (calls : List Call) :
    Option.Rel (SameRun (AlikeWorlds Same Eq) Eq) (exec (step A) w calls)
      (exec (step { A with strerror := texts })
        (withRecords w message ioError engine) calls) := by
  have hstart : AlikeWorlds Same Eq w (withRecords w message ioError engine) := by
    have hsame := alikeMessengers_refl (P := Same) (Q := Eq)
      same_refl (fun _ => rfl) w.messenger
    exact ⟨hsame.connection, rfl, rfl, rfl, rfl⟩
  have hstep : LockStep (AlikeWorlds Same Eq) Eq (step A)
      (step { A with strerror := texts }) := step_alike rfl
  exact exec_lockStep hstep (List.forall₂_same.mpr fun _ _ => rfl) hstart

end LibStomp.Session.Diagnostics
