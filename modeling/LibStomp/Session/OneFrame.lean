import LibStomp.Session.Outbox
import LibStomp.Session.Properties

/-!
# What a send puts on the wire is one frame

`stomp_exchange_add` takes any strings, and `stomp_write` copies them raw between
colons and newlines.  If the strings of the application keep clear of these, a
send is read as one SEND frame whose header names the application, a received
frame or the send itself has supplied.

## Main results

* `send_oneFrame` — the bytes of a send in a run with clean strings are one frame
  with no other header names.
-/

namespace LibStomp.Session.OneFrame

open LibStomp.Model
open LibStomp.Verified.Runs
open LibStomp.Session.Steps
open LibStomp.Session.Outbox
open LibStomp.Session.Properties
open LibStomp.Stream.Grammar
open LibStomp.Stream.WriteFrame
open LibStomp.Stream.CleanFrames

/-- The header names a send may have: the length, the names of the call, and those
put into the exchange properties before. -/
def Supplied (A : Apr) (before : Log) (header : Option SendHeader)
    (k : CString) : Prop :=
  k = .lit "content-length" ∨ SendName header k ∨ ∃ r ∈ before, Puts A k r

/-- What the call has added to the stream is read as one SEND frame, which consumes
all of it and has only header names that were supplied. -/
def ReadsOneFrame (A : Apr) (before : Log) (header : Option SendHeader)
    (e : Event World Call Reply) : Prop :=
  ∃ out, Added e out ∧ ∀ rd : Io, rd.socket.recvs = [] → rd.socket.inbox = out →
    ∃ frame rd', stompRead A rd = .ok frame rd' ∧ rd'.socket.inbox = [] ∧
      frame.command = .lit "SEND" ∧
        ∃ headers, frame.headers = some headers ∧
          ∀ k ∈ headers, Supplied A before header k

/-- No header line the send composes has a length that is a multiple of `2 ^ 32`. -/
def LinesFit (e : Event World Call Reply) : Prop :=
  ∀ q, request e.pre.messenger e.call.op = some q →
    ∀ l ∈ headerLines e.call.net.order q.frame, wraps l = false

/-! ## Messages of the library -/

/-- The size of the object `stomp_message_format` allocates covers the length it
records. -/
theorem counted_messageFormat {frame : Frame} {headers : Hash}
    (c : CleanFrame frame headers)
    {message : Message} {data : Bytes} {len : UInt64}
    (hsize : (CString.ofBuffer (data.take len.toNat)).strlen + 1 < 2 ^ 31)
    (hbody : frame.body = (stompMessageFormat message data len).body)
    (hlength : frame.bodyLength = (stompMessageFormat message data len).size) :
    CountedFrame frame headers := by
  have hle := length_messageFormat data len
  refine .of_body c hbody hlength (Nat.succ_pos _) hsize ?_
  rw [List.length_append, List.length_replicate]
  unfold CString.strlen at hle ⊢
  omega

/-! ## Sends -/

/-- **What a send puts on the wire is one frame**, if the strings of the application
keep clear of the separators. -/
theorem send_oneFrame (A : Apr) (options : UInt32) (w' : World)
    (before after : Log) (e : Event World Call Reply)
    (h : Run (step A) (stompMessengerInit options) (before ++ e :: after) w')
    (hclean : ∀ r ∈ before, CleanCall A r.call) (header : Option SendHeader)
    (message : Message) (data : Bytes) (len : UInt64)
    (hsend : e.call.op = .send header (stompMessageFormat message data len))
    (hsize : (CString.ofBuffer (data.take len.toNat)).strlen + 1 < 2 ^ 31)
    (hfits : LinesFit e)
    (hsends : ∀ turn ∈ e.call.net.sends, ∃ extra, turn = .upTo extra) :
    ReadsOneFrame A before header e := by
  obtain ⟨w, hbefore, hafter⟩ := h.split
  obtain ⟨pre, ⟨op, net⟩, reply, post⟩ := e
  obtain rfl : op = .send header (stompMessageFormat message data len) := hsend
  cases hafter with
  | cons head rest =>
      obtain ⟨q, hrequest, hframe⟩ := request_of_send head
      obtain ⟨destination, -, hq, hc⟩ :=
        cleanFrame_sendFrame (cleanSettings_run hbefore hclean) hframe
      have hcounted := counted_messageFormat hc hsize (by rw [hq]) (by rw [hq])
      obtain ⟨bs, hadded, -, hwhole⟩ :=
        added_of_request (e := ⟨w, ⟨_, net⟩, reply, post⟩) head hrequest
      obtain rfl := hwhole (.inl hsends)
      refine ⟨_, hadded, fun rd hrecvs hin => ?_⟩
      have hlines := (hc.unwrapped_iff net.order).mp (hfits q hrequest)
      obtain ⟨rd', hrest, -, hread⟩ :=
        hcounted.read_back A net.order hlines hrecvs
          (hin.trans (List.append_nil _).symm)
      refine ⟨_, rd', hread, hrest, by rw [hq]; rfl, _, rfl, fun k hk => ?_⟩
      rcases hc.mem_table net.order hk with hk | rfl
      · rcases mem_sendHeaders hk with hk | hk
        · obtain ⟨r, hr, hputs⟩ := (mem_exchangeProperties_iff hbefore k).mp hk
          exact .inr (.inr ⟨r, (List.rtakeWhile_suffix _ _).mem hr, hputs⟩)
        · exact .inr (.inl hk)
      · exact .inl rfl

/-- A message of one octet is sent. -/
def sendX : Call :=
  ⟨.send none (stompMessageFormat stompMessageCreate (ascii "x") 1), .quiet []⟩

def addCall (name value : String) : Call :=
  ⟨.exchangeAdd (.lit name) (some (.lit value)), .quiet []⟩

/-- The application adds one property and sends a message. -/
def propertyCalls (name value : String) : List Call :=
  (opening ++ [addCall name value]) ++ [sendX]

/-- The lines of all requests fit. -/
private def linesFit (e : Event World Call Reply) : Bool :=
  ((request e.pre.messenger e.call.op).map fun q =>
    (headerLines e.call.net.order q.frame).all (!wraps ·)).getD true

private theorem linesFit_iff {e : Event World Call Reply}
    (h : linesFit e = true) : LinesFit e := by
  intro q hq l hl
  rw [linesFit, hq] at h
  simpa using List.all_eq_true.mp h l hl

private theorem propertyCalls_split {name value : String} {log : Log} {w' : World}
    (h : exec (step .sample) (stompMessengerInit 0) (propertyCalls name value) =
      some (log, w')) :
    ∃ before e, log = before ++ [e] ∧
      before.map Event.call = opening ++ [addCall name value] ∧
      e.call = sendX := by
  obtain ⟨before, es, rfl, hbefore, hes⟩ :=
    List.map_eq_append_iff.mp (exec_calls h)
  obtain ⟨e, rfl, he⟩ := List.map_eq_singleton_iff.mp hes
  exact ⟨before, e, rfl, hbefore, he⟩

/-- Before its send the session puts one name into the exchange properties. -/
private theorem name_of_puts {name value : String} {before : Log}
    (hbefore : before.map Event.call = opening ++ [addCall name value])
    {r : Event World Call Reply} (hr : r ∈ before) {k : CString}
    (h : Puts .sample k r) :
    k = .lit name := by
  have hcall : r.call ∈ opening ++ [addCall name value] :=
    hbefore ▸ List.mem_map_of_mem hr
  have hop : (∀ message, r.call.op ≠ .receive message) ∧
      ∀ value', r.call.op = .exchangeAdd k value' → k = .lit name := by
    rcases List.mem_append.mp hcall with hc | hc
    · rcases List.mem_cons.mp hc with hc | hc
      · rw [hc]
        constructor <;> (intro _ hm; cases hm)
      · rw [List.mem_singleton.mp hc]
        constructor <;> (intro _ hm; cases hm)
    · rw [List.mem_singleton.mp hc]
      refine ⟨fun _ hm => ?_, fun _ hm => (Op.exchangeAdd.inj hm).1.symm⟩
      cases hm
  rcases h with ⟨value', hadd⟩ | hreceived
  · exact hop.2 _ hadd
  · obtain ⟨message, hreceive⟩ := receive_of_mem_receivedHeaders hreceived
    exact absurd hreceive (hop.1 message)

theorem send_oneFrame_property :
    ∃ (before : Log) (e : Event World Call Reply), e.call = sendX ∧
      before.map Event.call = opening ++ [addCall "a" "1"] ∧
      ReadsOneFrame .sample before none e := by
  have hrun :
      (exec (step .sample) (stompMessengerInit 0) (propertyCalls "a" "1")).map
        (fun p => p.1.all linesFit) = some true := by
    decide +kernel
  obtain ⟨⟨log, w'⟩, hexec, hfits⟩ := Option.map_eq_some_iff.mp hrun
  obtain ⟨before, e, rfl, hbefore, he⟩ := propertyCalls_split hexec
  have hclean : ∀ r ∈ before, CleanCall .sample r.call := by
    intro r hr
    have hcall : r.call ∈ opening ++ [addCall "a" "1"] :=
      hbefore ▸ List.mem_map_of_mem hr
    rcases List.mem_append.mp hcall with hc | hc
    · exact cleanCall_opening r.call hc
    · rw [List.mem_singleton.mp hc]
      intro v hv
      obtain rfl : CString.lit "1" = v := Option.some.inj hv
      decide
  have hlines : LinesFit e := linesFit_iff (List.all_eq_true.mp hfits e (by simp))
  have hsends : ∀ turn ∈ e.call.net.sends, ∃ extra, turn = .upTo extra := by
    rw [he]
    intro turn ht
    cases ht
  exact ⟨before, e, he, hbefore,
    send_oneFrame .sample 0 w' before [] e (exec_run hexec) hclean none
    stompMessageCreate (ascii "x") 1 (congrArg Call.op he) (by decide) hlines
    hsends⟩

/-- The header names a reader finds in what a call has added to the stream. -/
private def addedNames (e : Event World Call Reply) : Option (List CString) := do
  let before ← e.pre.messenger.connection
  let after ← e.post.messenger.connection
  match stompRead .sample (Io.fresh (after.outbox.drop before.outbox.length)) with
  | .ok frame _ => frame.headers.map AList.keys
  | .error _ _ => none

private theorem of_addedNames {e : Event World Call Reply} {names : List CString}
    {header : Option SendHeader} {before : Log} (h : addedNames e = some names)
    (hone : ReadsOneFrame .sample before header e) :
    ∀ k ∈ names, Supplied .sample before header k := by
  obtain ⟨out, ⟨socket, socket', hsocket, hsocket', hout⟩, hread⟩ := hone
  obtain ⟨frame, rd', hok, -, -, headers, hheaders, hsupplied⟩ :=
    hread (Io.fresh out) rfl rfl
  have hdrop : socket'.outbox.drop socket.outbox.length = out := by
    rw [hout, List.drop_left]
  simp only [addedNames, hsocket, hsocket', Option.bind_eq_bind,
    Option.bind_some, hdrop, hok, hheaders, Option.map_some,
    Option.some.injEq] at h
  subst h
  exact fun k hk => hsupplied k (AList.mem_keys.mpr hk)

/-- A newline in a value: the reader finds a header `evil` that nobody has supplied. -/
theorem send_oneFrame_fails :
    ¬ ∀ (A : Apr) (options : UInt32) (w' : World) (before after : Log)
      (e : Event World Call Reply),
      Run (step A) (stompMessengerInit options) (before ++ e :: after) w' →
        ∀ header message data len,
          e.call.op = .send header (stompMessageFormat message data len) →
          (∀ turn ∈ e.call.net.sends, ∃ extra, turn = .upTo extra) →
            ReadsOneFrame A before header e := by
  intro h
  have hrun : (exec (step .sample) (stompMessengerInit 0)
      (propertyCalls "a" "1\nevil:2")).map (fun p =>
        p.1.getLast?.map fun e => (addedNames e).map fun names =>
          decide (.lit "evil" ∈ names)) =
        some (some (some true)) := by
    decide +kernel
  obtain ⟨⟨log, w'⟩, hexec, hlast⟩ := Option.map_eq_some_iff.mp hrun
  obtain ⟨before, e, rfl, hbefore, he⟩ := propertyCalls_split hexec
  simp only [List.getLast?_concat, Option.map_some, Option.some.injEq] at hlast
  obtain ⟨names, hnames, hevil⟩ := Option.map_eq_some_iff.mp hlast
  have hone : ReadsOneFrame .sample before none e :=
    h .sample 0 w' before [] e (exec_run hexec) none stompMessageCreate
      (ascii "x") 1 (congrArg Call.op he) (by rw [he]; intro turn ht; cases ht)
  rcases of_addedNames hnames hone _ (of_decide_eq_true hevil) with
    hlength | (hdestination | ⟨_, hno, -⟩) | ⟨r, hr, hputs⟩
  · exact absurd hlength (by decide)
  · exact absurd hdestination (by decide)
  · cases hno
  · exact absurd (name_of_puts hbefore hr hputs) (by decide)

end LibStomp.Session.OneFrame
