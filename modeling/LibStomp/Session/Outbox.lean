import LibStomp.Session.Steps
import LibStomp.Stream.Receiving

/-!
# What a run puts on the wire

Every writing operation adds one piece to the bytes the peer has accepted: the
encoding of its frame, or a proper prefix of it when a send fails.  A failed
write leaves no trace in the messenger, so the next writing operation starts its
frame right behind the incomplete one.

## Main results

* `outbox_run` — over one connection the accepted bytes are the pieces of the
  writing operations in call order; if only the last of them is incomplete, they
  are complete frames with at most one incomplete frame at the end.
-/

namespace LibStomp.Session.Outbox

open LibStomp.Model
open LibStomp.Verified.Runs
open LibStomp.Session.Steps
open LibStomp.Stream.WriteFrame
open LibStomp.Stream.Receiving

/-! ## Pieces -/

/-- The frame an operation composes, if it is a writing operation. -/
def composed (m : Messenger) : Op → Option Frame
  | .connect header => some (connectFrame header)
  | op => (request m op).map (·.frame)

theorem composed_of_request {m : Messenger} {op : Op} {q : Request}
    (h : request m op = some q) : composed m op = some q.frame := by
  cases op with
  | connect header => cases h
  | _ => exact congrArg (Option.map (·.frame)) h

/-- The event is a call of a writing operation. -/
def writes (e : Event World Call Reply) : Bool :=
  (composed e.pre.messenger e.call.op).isSome

def isConnect (e : Event World Call Reply) : Bool :=
  match e.call.op with
  | .connect _ => true
  | _ => false

/-- What a call adds to the stream: its frame, or a proper prefix of it, and then it
fails. -/
inductive PieceOf (e : Event World Call Reply) : Bytes × Bool → Prop
  | whole {frame : Frame}
      (hframe : composed e.pre.messenger e.call.op = some frame) :
      PieceOf e (encode e.call.net.order frame, true)
  | cut {frame : Frame} {sent more : Bytes}
      (hframe : composed e.pre.messenger e.call.op = some frame)
      (hsplit : encode e.call.net.order frame = sent ++ more) (hmore : more ≠ [])
      (hfail : e.reply.code = some .failure) :
      PieceOf e (sent, false)

theorem PieceOf.writes {e : Event World Call Reply} {p : Bytes × Bool}
    (h : PieceOf e p) :
    writes e = true := by
  unfold Outbox.writes
  cases h with
  | whole hframe => rw [hframe]; rfl
  | cut hframe => rw [hframe]; rfl

/-- The encoding of the frame of a writing call. -/
def encodingOf (e : Event World Call Reply) : Bytes :=
  match composed e.pre.messenger e.call.op with
  | some frame => encode e.call.net.order frame
  | none => []

theorem PieceOf.prefix_encodingOf {e : Event World Call Reply} {p : Bytes × Bool}
    (h : PieceOf e p) :
    p.1 <+: encodingOf e ∧ (p.2 = true → p.1 = encodingOf e) := by
  unfold encodingOf
  cases h with
  | whole hframe =>
      rw [hframe]
      exact ⟨List.prefix_refl _, fun _ => rfl⟩
  | cut hframe hsplit =>
      simp only [hframe, hsplit]
      exact ⟨List.prefix_append _ _, fun hno => by cases hno⟩

/-- `out` is the complete frames of the writing calls of the log in call order, of
which at most the last one is incomplete. -/
def FramesThenTail (log : Log) (out : Bytes) : Prop :=
  ∃ done tail, out = (done.map encodingOf).flatten ++ tail ∧
    (log.filter writes = done ∧ tail = [] ∨
      ∃ e, log.filter writes = done ++ [e] ∧ tail <+: encodingOf e)

/-! ## One call -/

theorem ReadStep.socket {A : Apr} {endline : UInt8} {w w' : World}
    {socket : Socket}
    {reading : Reading} (h : ReadStep A endline w socket reading w') :
    ∃ socket', w'.messenger.connection = some socket' ∧
      socket'.outbox = socket.outbox := by
  cases h with
  | notReady hwait => exact ⟨_, rfl, (drained_stompIoCanRead hwait).outbox⟩
  | failed hwait hread =>
      exact ⟨_, rfl, ((drained_stompIoCanRead hwait).trans
        ((stompRead_receives A).error hread)).outbox⟩
  | frame hwait hread =>
      exact ⟨_, rfl, ((drained_stompIoCanRead hwait).trans
        ((stompRead_receives A).ok hread)).outbox⟩

theorem Waited.socket {A : Apr} {endline : UInt8} {w w' : World} {socket : Socket}
    {code : StatusCode} (h : Waited A endline w socket code w') :
    ∃ socket', w'.messenger.connection = some socket' ∧
      socket'.outbox = socket.outbox := by
  obtain ⟨reading, w₁, hread, hconnection, -⟩ := Waited.reading h
  rw [hconnection]
  exact ReadStep.socket hread

theorem Received.socket {A : Apr} {endline : UInt8} {w w' : World}
    {socket : Socket} {message message' : Message} {code : StatusCode}
    (h : Received A endline w socket message code message' w') :
    ∃ socket', w'.messenger.connection = some socket' ∧
      socket'.outbox = socket.outbox := by
  obtain ⟨reading, w₁, hread, hconnection, -⟩ := Received.reading h
  rw [hconnection]
  exact ReadStep.socket hread

section OneCall

variable {A : Apr} {e : Event World Call Reply}
variable (h : step A e.pre e.call = some (e.reply, e.post))
include h

/-- On a connection a call adds its piece, or nothing. -/
theorem outbox_step {socket : Socket}
    (hsocket : e.pre.messenger.connection = some socket)
    (hconnect : isConnect e = false) :
    ∃ socket', e.post.messenger.connection = some socket' ∧
      ((writes e = false ∧ socket'.outbox = socket.outbox) ∨
        ∃ p, PieceOf e p ∧ socket'.outbox = socket.outbox ++ p.1) := by
  have hloaded := load_connection_of_some e.call.net hsocket
  obtain ⟨pre, ⟨op, net⟩, reply, post⟩ := e
  have hstepped : Stepped A net pre op reply post := stepped_of_step h
  cases hstepped with
  | request hrequest hrun =>
      have hframe := composed_of_request hrequest
      obtain ⟨socket₁, hsocket₁, htransacted⟩ := transacted_of_transact hrun
      obtain rfl := Option.some.inj (hloaded.symm.trans hsocket₁)
      cases htransacted with
      | unwritten hsplit hmore hacc =>
          exact ⟨_, rfl, .inr ⟨_, .cut hframe hsplit hmore rfl, hacc.outbox⟩⟩
      | written hacc => exact ⟨_, rfl, .inr ⟨_, .whole hframe, hacc.outbox⟩⟩
      | waited hacc _ hwaited =>
          obtain ⟨socket', hsocket', hout⟩ := Waited.socket hwaited
          exact ⟨socket', hsocket',
            .inr ⟨_, .whole hframe, hout.trans hacc.outbox⟩⟩
  | connect => cases hconnect
  | receive hrun =>
      obtain ⟨socket₁, hsocket₁, hreceived⟩ := received_of_receive hrun
      obtain rfl := Option.some.inj (hloaded.symm.trans hsocket₁)
      obtain ⟨socket', hsocket', hout⟩ := Received.socket hreceived
      exact ⟨socket', hsocket', .inl ⟨rfl, hout⟩⟩
  | setEndpoint hrun =>
      obtain ⟨st, rfl, -⟩ := setEndpoint_cases hrun
      exact ⟨_, hloaded, .inl ⟨rfl, rfl⟩⟩
  | noHeader => exact ⟨_, hloaded, .inl ⟨rfl, rfl⟩⟩
  | exchangeAdd => exact ⟨_, hloaded, .inl ⟨rfl, rfl⟩⟩
  | exchangeClear => exact ⟨_, hloaded, .inl ⟨rfl, rfl⟩⟩

/-- What a call has added to the bytes the peer has accepted. -/
def Added (e : Event World Call Reply) (bs : Bytes) : Prop :=
  ∃ socket socket', e.pre.messenger.connection = some socket ∧
    e.post.messenger.connection = some socket' ∧
      socket'.outbox = socket.outbox ++ bs

/-- A request adds its frame, or a part of it if a send fails; then the request fails,
too. -/
theorem added_of_request {q : Request}
    (hrequest : request e.pre.messenger e.call.op = some q) :
    ∃ bs, Added e bs ∧ bs <+: encode e.call.net.order q.frame ∧
      ((∀ turn ∈ e.call.net.sends, ∃ extra, turn = .upTo extra) ∨
          e.reply.code = some .success →
        bs = encode e.call.net.order q.frame) := by
  obtain ⟨pre, ⟨op, net⟩, reply, post⟩ := e
  have hreply :
      replyCode (transact A net q.note q.frame q.receipt (pre.load net)) =
      some (reply, post) := (step_request hrequest).symm.trans h
  obtain ⟨code, hrun, rfl⟩ := replyCode_eq_some hreply
  obtain ⟨socket₁, hsocket₁, htransacted⟩ := transacted_of_transact hrun
  obtain ⟨socket, hsocket, rfl⟩ :=
    Option.map_eq_some_iff.mp ((load_connection net pre) ▸ hsocket₁)
  cases htransacted with
  | unwritten hsplit _ hacc hfails =>
      refine ⟨_, ⟨socket, _, hsocket, rfl, hacc.outbox⟩, ⟨_, hsplit.symm⟩,
        fun hsent => ?_⟩
      rcases hsent with hsends | hsuccess
      · exact absurd hsends hfails
      · cases hsuccess
  | written hacc =>
      exact ⟨_, ⟨socket, _, hsocket, rfl, hacc.outbox⟩, List.prefix_refl _,
        fun _ => rfl⟩
  | waited hacc _ hwaited =>
      obtain ⟨socket', hsocket', hout⟩ := Waited.socket hwaited
      exact ⟨_, ⟨socket, socket', hsocket, hsocket', hout.trans hacc.outbox⟩,
        List.prefix_refl _, fun _ => rfl⟩

/-- Without a connection only `stomp_connect` gets as far as writing. -/
theorem unconnected_step (hnone : e.pre.messenger.connection = none)
    (hconnect : isConnect e = false) :
    e.post.messenger.connection = none ∧ writes e = false := by
  have hloaded : (e.pre.load e.call.net).messenger.connection = none := by
    rw [load_connection, hnone]
    rfl
  obtain ⟨pre, ⟨op, net⟩, reply, post⟩ := e
  have hstepped : Stepped A net pre op reply post := stepped_of_step h
  cases hstepped with
  | request hrequest hrun =>
      obtain ⟨socket, hsocket, -⟩ := transacted_of_transact hrun
      cases hloaded.symm.trans hsocket
  | connect => cases hconnect
  | receive hrun =>
      obtain ⟨socket, hsocket, -⟩ := received_of_receive hrun
      cases hloaded.symm.trans hsocket
  | setEndpoint hrun =>
      obtain ⟨st, rfl, -⟩ := setEndpoint_cases hrun
      exact ⟨hloaded, rfl⟩
  | noHeader => exact ⟨hloaded, rfl⟩
  | exchangeAdd => exact ⟨hloaded, rfl⟩
  | exchangeClear => exact ⟨hloaded, rfl⟩

/-- The first thing on a new connection is the CONNECT frame, or a part of it. -/
theorem connect_step (hnone : e.pre.messenger.connection = none)
    (hconnect : isConnect e = true) :
    e.post.messenger.connection = none ∨
      ∃ socket p, e.post.messenger.connection = some socket ∧ PieceOf e p ∧
        socket.outbox = p.1 := by
  obtain ⟨pre, ⟨op, net⟩, reply, post⟩ := e
  have hstepped : Stepped A net pre op reply post := stepped_of_step h
  cases hstepped with
  | @connect header _ _ hrun =>
      have hframe : composed pre.messenger (.connect header) =
          some (connectFrame header) := rfl
      cases connected_of_connect hrun with
      | unreachable => exact .inl hnone
      | unwritten _ hfresh hsplit hmore hacc =>
          refine .inr ⟨_, _, rfl, .cut hframe hsplit hmore rfl, ?_⟩
          rw [hacc.outbox, hfresh, List.nil_append]
      | refused _ hfresh hacc hread =>
          obtain ⟨socket', hsocket', hout⟩ := ReadStep.socket hread
          refine .inr ⟨socket', _, hsocket', .whole hframe, ?_⟩
          rw [hout, hacc.outbox, hfresh, List.nil_append]
      | confirmed hfresh hacc hread =>
          obtain ⟨socket', hsocket', hout⟩ := ReadStep.socket hread
          refine .inr ⟨socket', _, hsocket', .whole hframe, ?_⟩
          rw [hout, hacc.outbox, hfresh, List.nil_append]
  | request hrequest =>
      cases op with
      | connect header => cases hrequest
      | _ => cases hconnect
  | receive => cases hconnect
  | setEndpoint => cases hconnect
  | noHeader => cases hconnect
  | exchangeAdd => cases hconnect
  | exchangeClear => cases hconnect

end OneCall

/-! ## Runs -/

/-- The pieces of the writing calls of a log, in call order. -/
def Pieces (log : Log) (pieces : List (Bytes × Bool)) : Prop :=
  List.Forall₂ PieceOf (log.filter writes) pieces

theorem pieces_skip {e : Event World Call Reply} {log : Log}
    {pieces : List (Bytes × Bool)}
    (he : writes e = false) (h : Pieces log pieces) :
    Pieces (e :: log) pieces := by
  rwa [Pieces, List.filter_cons_of_neg (by simp [he])]

theorem pieces_cons {e : Event World Call Reply} {log : Log} {p : Bytes × Bool}
    {pieces : List (Bytes × Bool)} (hp : PieceOf e p) (h : Pieces log pieces) :
    Pieces (e :: log) (p :: pieces) := by
  rw [Pieces, List.filter_cons_of_pos hp.writes]
  exact .cons hp h

section Runs

variable {A : Apr} {w w' : World} {log : Log} (h : Run (step A) w log w')
include h

theorem outbox_connected {socket : Socket}
    (hsocket : w.messenger.connection = some socket)
    (hno : ∀ e ∈ log, isConnect e = false) :
    ∃ socket' pieces, w'.messenger.connection = some socket' ∧ Pieces log pieces ∧
      socket'.outbox = socket.outbox ++ (pieces.map Prod.fst).flatten := by
  induction h generalizing socket with
  | nil w => exact ⟨socket, [], hsocket, .nil, by simp⟩
  | @cons w₀ w₁ w₂ c r log head rest ih =>
      obtain ⟨socket₁, hsocket₁, hpiece⟩ :=
        outbox_step (e := ⟨w₀, c, r, w₁⟩) head hsocket (hno _ (by simp))
      obtain ⟨socket', pieces, hsocket', hpieces, hout⟩ :=
        ih hsocket₁ fun e he => hno e (by simp [he])
      rcases hpiece with ⟨hwrites, hsame⟩ | ⟨p, hp, happend⟩
      · exact ⟨socket', pieces, hsocket',
          pieces_skip hwrites hpieces, by rw [hout, hsame]⟩
      · refine ⟨socket', p :: pieces, hsocket', pieces_cons hp hpieces, ?_⟩
        rw [hout, happend, List.map_cons, List.flatten_cons, List.append_assoc]

/-- Without `stomp_connect` a messenger stays unconnected. -/
theorem unconnected_run (hnone : w.messenger.connection = none)
    (hno : ∀ e ∈ log, isConnect e = false) : w'.messenger.connection = none := by
  induction h with
  | nil w => exact hnone
  | @cons w₀ w₁ w₂ c r log head rest ih =>
      exact ih
        (unconnected_step (e := ⟨w₀, c, r, w₁⟩) head hnone (hno _ (by simp))).1
        fun e he => hno e (by simp [he])

theorem outbox_unconnected (hnone : w.messenger.connection = none)
    (hone : (log.filter isConnect).length ≤ 1) {socket : Socket}
    (hsocket : w'.messenger.connection = some socket) :
    ∃ pieces, Pieces log pieces ∧
      socket.outbox = (pieces.map Prod.fst).flatten := by
  induction h with
  | nil w => cases hnone.symm.trans hsocket
  | @cons w₀ w₁ w₂ c r log head rest ih =>
      cases hconnect : isConnect (⟨w₀, c, r, w₁⟩ : Event World Call Reply) with
      | false =>
          obtain ⟨hnone₁, hwrites⟩ :=
            unconnected_step (e := ⟨w₀, c, r, w₁⟩) head hnone hconnect
          rw [List.filter_cons_of_neg (by simp [hconnect])] at hone
          obtain ⟨pieces, hpieces, hout⟩ := ih hnone₁ hone hsocket
          exact ⟨pieces, pieces_skip hwrites hpieces, hout⟩
      | true =>
          have hno : ∀ e ∈ log, isConnect e = false := by
            rw [List.filter_cons_of_pos hconnect, List.length_cons] at hone
            intro e he
            by_contra hc
            have hmem : e ∈ log.filter isConnect :=
              List.mem_filter.mpr ⟨he, by simpa using hc⟩
            have hpos := List.length_pos_of_mem hmem
            omega
          rcases connect_step (e := ⟨w₀, c, r, w₁⟩) head hnone hconnect with
            hnone₁ | ⟨socket₁, p, hsocket₁, hp, hout₁⟩
          · cases (unconnected_run rest hnone₁ hno).symm.trans hsocket
          · obtain ⟨socket', pieces, hsocket', hpieces, hout⟩ :=
              outbox_connected rest hsocket₁ hno
            obtain rfl := Option.some.inj (hsocket'.symm.trans hsocket)
            refine ⟨p :: pieces, pieces_cons hp hpieces, ?_⟩
            rw [hout, hout₁, List.map_cons, List.flatten_cons]

end Runs

/-! ## The main result -/

private theorem flatten_of_whole {es : Log} {pieces : List (Bytes × Bool)}
    (h : List.Forall₂ PieceOf es pieces) (hwhole : ∀ p ∈ pieces, p.2 = true) :
    (pieces.map Prod.fst).flatten = (es.map encodingOf).flatten := by
  induction h with
  | nil => rfl
  | @cons e p es pieces hp _ ih =>
      have hrest := ih fun q hq => hwhole q (by simp [hq])
      rw [List.map_cons, List.map_cons, List.flatten_cons, List.flatten_cons,
        hrest, hp.prefix_encodingOf.2 (hwhole p (by simp))]

private theorem framesThenTail_of_pieces {log : Log}
    {pieces : List (Bytes × Bool)}
    (h : Pieces log pieces) (hwhole : ∀ p ∈ pieces.dropLast, p.2 = true) :
    FramesThenTail log (pieces.map Prod.fst).flatten := by
  rcases List.eq_nil_or_concat' pieces with rfl | ⟨init, last, rfl⟩
  · exact ⟨[], [], rfl, .inl ⟨List.forall₂_nil_right_iff.mp h, rfl⟩⟩
  · rw [List.dropLast_concat] at hwhole
    have hinit := List.forall₂_take_append _ _ _ h
    have hlast := List.forall₂_drop_append _ _ _ h
    obtain ⟨e, es, he, hnil, hdrop⟩ := List.forall₂_cons_right_iff.mp hlast
    obtain rfl := List.forall₂_nil_right_iff.mp hnil
    refine ⟨(log.filter writes).take init.length, last.1, ?_, .inr ⟨e, ?_, ?_⟩⟩
    · rw [← flatten_of_whole hinit hwhole]
      simp
    · rw [← hdrop, List.take_append_drop]
    · exact he.prefix_encodingOf.1

/-- **The stream of a connection is the pieces of its writing operations in call
order.**  If no writing operation follows one whose write failed, these are
complete frames, at most the last of which is incomplete. -/
theorem outbox_run (A : Apr) (w w' : World) (log : Log)
    (h : Run (step A) w log w')
    (hnew : w.messenger.connection = none)
    (hone : (log.filter isConnect).length ≤ 1)
    (socket : Socket) (hsocket : w'.messenger.connection = some socket) :
    ∃ pieces, Pieces log pieces ∧ socket.outbox = (pieces.map Prod.fst).flatten ∧
      ((∀ p ∈ pieces.dropLast, p.2 = true) →
        FramesThenTail log socket.outbox) := by
  obtain ⟨pieces, hpieces, hout⟩ := outbox_unconnected h hnew hone hsocket
  refine ⟨pieces, hpieces, hout, fun hwhole => ?_⟩
  rw [hout]
  exact framesThenTail_of_pieces hpieces hwhole

/-- A session whose first SEND is cut after two bytes; the application goes on. -/
def cutCalls : List Call :=
  opening ++ [⟨.send none (stompMessageFormat stompMessageCreate (ascii "x") 1),
      { Net.quiet [] with sends := [.upTo 1, .fail .timeup] }⟩,
    ⟨.disconnect none, .quiet []⟩]

/-- The frames of the session have 48, 50 and 32 bytes, but the peer gets only 82:
two bytes of the SEND frame, and the DISCONNECT frame right behind them. -/
private theorem cutCalls_run :
    ∃ (log : Log) (w' : World) (socket : Socket),
      Run (step .sample) (stompMessengerInit 0) log w' ∧
        w'.messenger.connection = some socket ∧
          (log.filter isConnect).length = 1 ∧
        socket.outbox.length = 82 ∧
        (log.filter writes).map (fun e => (encodingOf e).length) =
          [48, 50, 32] := by
  have hrun : (exec (step .sample) (stompMessengerInit 0) cutCalls).map (fun p =>
      (p.2.messenger.connection.map (·.outbox.length),
        (p.1.filter isConnect).length,
        (p.1.filter writes).map fun e => (encodingOf e).length)) =
        some (some 82, 1, [48, 50, 32]) := by
    decide +kernel
  obtain ⟨⟨log, w'⟩, hexec, hpair⟩ := Option.map_eq_some_iff.mp hrun
  obtain ⟨hsocket, hrest⟩ := Prod.mk.inj hpair
  obtain ⟨hlength, hencodings⟩ := Prod.mk.inj hrest
  obtain ⟨socket, hsocket, hout⟩ := Option.map_eq_some_iff.mp hsocket
  exact ⟨log, w', socket, exec_run hexec, hsocket, hlength, hout, hencodings⟩

theorem outbox_cutCalls :
    ∃ (log : Log) (socket : Socket) (pieces : List (Bytes × Bool)),
      socket.outbox.length = 82 ∧
      Pieces log pieces ∧ socket.outbox = (pieces.map Prod.fst).flatten ∧
        ((∀ p ∈ pieces.dropLast, p.2 = true) →
          FramesThenTail log socket.outbox) := by
  obtain ⟨log, w', socket, hrun, hsocket, hone, hlength, -⟩ := cutCalls_run
  obtain ⟨pieces, hpieces⟩ :=
    outbox_run .sample _ w' log hrun rfl (by omega) socket hsocket
  exact ⟨log, socket, pieces, hlength, hpieces⟩

/-- The incomplete SEND frame of the session is not the last thing on the stream. -/
theorem outbox_run_fails :
    ¬ ∀ (A : Apr) (w w' : World) (log : Log), Run (step A) w log w' →
      w.messenger.connection = none → (log.filter isConnect).length ≤ 1 →
        ∀ socket, w'.messenger.connection = some socket →
          FramesThenTail log socket.outbox := by
  intro h
  obtain ⟨log, w', socket, hrun, hsocket, hone, hlength, hencodings⟩ :=
    cutCalls_run
  obtain ⟨done, tail, hout, hlog⟩ :=
    h .sample _ w' log hrun rfl (by omega) socket hsocket
  have hcount := congrArg List.length hout
  rw [hlength, List.length_append, List.length_flatten, List.map_map] at hcount
  rcases hlog with ⟨hdone, rfl⟩ | ⟨e, hdone, -⟩
  · rw [hdone] at hencodings
    rw [show (List.length ∘ encodingOf) = fun e => (encodingOf e).length from rfl,
      hencodings] at hcount
    simp at hcount
  · have hsplit : [48, 50, 32] = [48, 50] ++ [32] := rfl
    rw [hdone, List.map_append, List.map_singleton, hsplit] at hencodings
    have hinit := (List.append_inj' hencodings rfl).1
    rw [show (List.length ∘ encodingOf) = fun e => (encodingOf e).length from rfl,
      hinit] at hcount
    simp at hcount
    omega

end LibStomp.Session.Outbox
