import LibStomp.Session.ControlHeaders
import LibStomp.Stream.HeaderTexts

/-!
# The destination of an operation

`stomp_subscribe`, `stomp_unsubscribe` and `stomp_send` compute the destination
from the path of the endpoint each for itself.  Two of them leave out the
leading slash if the messenger has `STOMP_OPT_STRIP_ROOT`, one does not.  The
endpoint they look at is the one `stomp_set_endpoint` has parsed last, whether or
not it has accepted it.  A reader of the frame may find another destination, or a
shorter one, where the strings of the table have newlines.

## Main results

* `sameDestination_iff` — after an accepted endpoint a reader finds one destination
  in the frames of the three if and only if the messenger does not strip the root
  and no string forges a line of the destination.
* `followsAccepted_iff` — the destination is always the one of the endpoint
  accepted last if and only if no endpoint is refused, unless it is the one in
  use, stripping leaves something of each accepted path, and no string forges a
  line of the destination.
-/

namespace LibStomp.Session.Destinations

open LibStomp.Model
open LibStomp.Verified.Lines
open LibStomp.Verified.Runs
open LibStomp.Session.Steps
open LibStomp.Session.Outbox
open LibStomp.Session.Properties
open LibStomp.Session.LastWriter
open LibStomp.Session.ControlHeaders
open LibStomp.Stream.Grammar
open LibStomp.Stream.WriteFrame
open LibStomp.Stream.CleanFrames
open LibStomp.Stream.HeaderTexts

/-! ## Frames on the wire -/

private theorem cleanName_destination : CleanName (.lit "destination") := by decide

/-- A reader of the frame finds one destination, `d`, in whatever order the table is
written. -/
def ReadsDestination (frame : Frame) (d : CString) : Prop :=
  ∀ O, ReadsOnce O frame (.lit "destination") d

/-- The call composes a frame with this one destination, and what it adds to the stream
is that frame or a part of it. -/
def WritesDestination (A : Apr) (w : World) (op : Op) (d : CString) : Prop :=
  ∃ q, request w.messenger op = some q ∧ ReadsDestination q.frame d ∧
    ∀ net reply post, step A w ⟨op, net⟩ = some (reply, post) →
      ∃ bs, Added ⟨w, ⟨op, net⟩, reply, post⟩ bs ∧ bs <+: encode net.order q.frame

theorem writesDestination_iff {A : Apr} {w : World} {op : Op} {q : Request}
    (h : request w.messenger op = some q) {d : CString} :
    WritesDestination A w op d ↔ ReadsDestination q.frame d := by
  constructor
  · rintro ⟨q', hq', hreads, -⟩
    obtain rfl := Option.some.inj (h.symm.trans hq')
    exact hreads
  · intro hreads
    refine ⟨q, h, hreads, fun net reply post hstep => ?_⟩
    obtain ⟨bs, hadded, hprefix, -⟩ :=
      added_of_request (e := ⟨w, ⟨op, net⟩, reply, post⟩) hstep h
    exact ⟨bs, hadded, hprefix⟩

/-- The other properties, and the lines of the destination but the first, are read as
header lines that are no destination. -/
def DestinationOnce (properties : Hash) (d : CString) : Prop :=
  Unforged (properties.insert (.lit "destination") d).entries (.lit "destination")

instance (properties : Hash) (d : CString) : Decidable (DestinationOnce properties d) :=
  inferInstanceAs (Decidable
    (Unforged (properties.insert (.lit "destination") d).entries (.lit "destination")))

/-- So are clean ones. -/
theorem destinationOnce_clean {properties : Hash} {d : CString}
    (hproperties : CleanTable properties) (hd : lf ∉ d.bytes) :
    DestinationOnce properties d := by
  have hset : CleanTable (aprHashSet properties (.lit "destination") (some d)) := by
    refine hproperties.set fun v hv => ?_
    obtain rfl := Option.some.inj hv
    exact ⟨cleanName_destination.1, cleanName_destination.2, hd⟩
  exact unforged_clean hset _

private theorem readsDestination_of_lookup {frame : Frame} {headers : Hash}
    (h : frame.headers = some headers) (hcommand : lf ∉ frame.command.bytes)
    {d : CString} (hlookup : headers.lookup (.lit "destination") = some d)
    {w : CString} :
    ReadsDestination frame w ↔
      Unforged headers.entries (.lit "destination") ∧ w = firstLine d := by
  have hread : ∀ O, ReadsOnce O frame (.lit "destination") w ↔
      Unforged headers.entries (.lit "destination") ∧ w = firstLine d := fun O =>
    readsOnce_iff O h (.refl _) hcommand cleanName_destination (by decide)
      (AList.mem_lookup_iff.mp hlookup) w
  exact ⟨fun h => (hread .stored).mp (h .stored), fun h O => (hread O).mpr h⟩

/-! ## SUBSCRIBE and UNSUBSCRIBE -/

private theorem mem_aprHashSet_entries {t : Hash} {key value : CString} {p : Header}
    (h : p ∈ (aprHashSet t key (some value)).entries) :
    p = ⟨key, value⟩ ∨ p ∈ t.entries := by
  rcases List.mem_cons.mp h with h | h
  · exact .inl h
  · exact .inr ((List.kerase_sublist _ _).subset h)

/-- An entry that no reader takes for a destination. -/
private def Harmless (p : Header) : Prop := CleanHeader p ∧ p.1 ≠ .lit "destination"

private theorem harmless_number {name : CString} (hname : CleanName name)
    (hne : name ≠ .lit "destination") (i : Int) : Harmless ⟨name, aprItoa i⟩ :=
  ⟨⟨hname.1, hname.2, lf_notMem_aprItoa i⟩, hne⟩

private theorem mem_stompWriteReceipt {t : Hash} {receipt : UInt32} {p : Header}
    (h : p ∈ (stompWriteReceipt t receipt).entries) : p ∈ t.entries ∨ Harmless p := by
  unfold stompWriteReceipt at h
  split at h
  · rcases mem_aprHashSet_entries h with rfl | h
    · exact .inr (harmless_number (by decide) (by decide) _)
    · exact .inl h
  · exact .inl h

private theorem mem_stompWriteTransactionId {t : Hash} {transactionId : Int64}
    {p : Header} (h : p ∈ (stompWriteTransactionId t transactionId).entries) :
    p ∈ t.entries ∨ Harmless p := by
  unfold stompWriteTransactionId at h
  split at h
  · rcases mem_aprHashSet_entries h with rfl | h
    · exact .inr (harmless_number (by decide) (by decide) _)
    · exact .inl h
  · exact .inl h

/-- The table of a subscription. -/
private abbrev subscriptionHeaders (d : CString) (header : SubscriptionHeader) : Hash :=
  stompWriteReceipt (aprHashSet (aprHashSet ∅ (.lit "destination") (some d)) (.lit "id")
    (some (aprItoa header.id.toNat))) header.receipt

private theorem lookup_subscriptionHeaders (d : CString) (header : SubscriptionHeader) :
    (subscriptionHeaders d header).lookup (.lit "destination") = some d := by
  rw [lookup_stompWriteReceipt _ _ (by decide), lookup_aprHashSet,
    if_neg (by decide), lookup_aprHashSet, if_pos rfl]

private theorem unforged_subscriptionHeaders {d : CString}
    {header : SubscriptionHeader} :
    Unforged (subscriptionHeaders d header).entries (.lit "destination") ↔
      Unforged [⟨.lit "destination", d⟩] (.lit "destination") := by
  constructor
  · intro h
    refine h.mono fun p hp => .inl ?_
    rw [List.mem_singleton.mp hp]
    exact AList.mem_lookup_iff.mp (lookup_subscriptionHeaders d header)
  · intro h
    refine h.mono fun p hp => ?_
    rcases mem_stompWriteReceipt hp with hp | hp
    · rcases mem_aprHashSet_entries hp with rfl | hp
      · exact .inr (harmless_number (by decide) (by decide) _)
      · rcases mem_aprHashSet_entries hp with rfl | hp
        · exact .inl (List.mem_singleton_self _)
        · cases hp
    · exact .inr hp

theorem subscribe_reads {m : Messenger} {d : CString}
    (h : strippedDestination m = some (some d)) (header : SubscriptionHeader) :
    ∃ q, request m (.subscribe (some header)) = some q ∧
      ∀ w, ReadsDestination q.frame w ↔
        Unforged [⟨.lit "destination", d⟩] (.lit "destination") ∧ w = firstLine d := by
  refine ⟨_, by rw [request, subscribeFrame, h]; rfl, fun w => ?_⟩
  have hcommand : lf ∉ (CString.lit "SUBSCRIBE").bytes := by decide
  rw [readsDestination_of_lookup rfl hcommand (lookup_subscriptionHeaders d header),
    unforged_subscriptionHeaders]

theorem unsubscribe_reads {m : Messenger} {uri : Uri} {path : CString}
    (h : m.uri = some uri) (hpath : uri.path = some path)
    (header : SubscriptionHeader) :
    ∃ q, request m (.unsubscribe (some header)) = some q ∧
      ∀ w, ReadsDestination q.frame w ↔
        Unforged [⟨.lit "destination", path⟩] (.lit "destination") ∧
          w = firstLine path := by
  have hcommand : lf ∉ (CString.lit "UNSUBSCRIBE").bytes := by decide
  have hrequest : request m (.unsubscribe (some header)) =
      some ⟨controlFrame (.lit "UNSUBSCRIBE") (subscriptionHeaders path header),
        some header.receipt, writeFailure⟩ := by
    simp only [request, unsubscribeFrame, h, Option.bind_eq_bind, Option.bind_some, hpath]
    rfl
  refine ⟨_, hrequest, fun w => ?_⟩
  rw [readsDestination_of_lookup rfl hcommand (lookup_subscriptionHeaders path header),
    unforged_subscriptionHeaders]

/-! ## SEND -/

/-- The destination of a SEND replaces one in the exchange properties. -/
theorem send_reads {m : Messenger} {d : CString}
    (h : strippedDestination m = some (some d)) (header : Option SendHeader)
    (message : Message) :
    ∃ q, request m (.send header message) = some q ∧
      ∀ w, ReadsDestination q.frame w ↔
        Unforged (sendHeaders m.exchangeProperties (some d) header).entries
            (.lit "destination") ∧
          w = firstLine d := by
  refine ⟨_, by rw [request, sendFrame, h]; rfl, fun w => ?_⟩
  have hlookup : (sendHeaders m.exchangeProperties (some d) header).lookup
      (.lit "destination") = some d := by
    rw [lookup_sendHeaders, if_neg (by decide), if_neg (by decide), if_pos rfl]
  have hcommand : lf ∉ (CString.lit "SEND").bytes := by decide
  exact readsDestination_of_lookup rfl hcommand hlookup

/-- The numbers that a send adds forge nothing. -/
theorem DestinationOnce.send {properties : Hash} {d : CString}
    (h : DestinationOnce properties d) (header : Option SendHeader) :
    Unforged (sendHeaders properties (some d) header).entries (.lit "destination") := by
  unfold sendHeaders
  cases header with
  | none => exact h
  | some header =>
      refine h.mono fun p hp => ?_
      rcases mem_stompWriteReceipt hp with hp | hp
      · exact mem_stompWriteTransactionId hp
      · exact .inr hp

theorem DestinationOnce.alone {properties : Hash} {d : CString}
    (h : DestinationOnce properties d) :
    Unforged [⟨.lit "destination", d⟩] (.lit "destination") := by
  refine h.mono fun p hp => .inl ?_
  rw [List.mem_singleton.mp hp]
  exact List.mem_cons_self

/-! ## The root -/

/-- The messenger removes the root from paths. -/
abbrev StripsRoot (m : Messenger) : Prop := m.options &&& stompOptStripRoot ≠ 0

/-- What the messenger makes of a path. -/
def stripped (m : Messenger) (path : CString) : CString :=
  if StripsRoot m then path.tail else path

theorem strippedDestination_eq {m : Messenger} {uri : Uri} {path : CString}
    (huri : m.uri = some uri) (hpath : uri.path = some path)
    (hne : path.bytes ≠ []) :
    strippedDestination m = some (some (stripped m path)) := by
  unfold strippedDestination stripped
  simp only [huri, hpath]
  by_cases hstrip : m.options &&& stompOptStripRoot ≠ 0
  · rw [if_pos hstrip, if_pos hstrip, if_neg hne]
  · rw [if_neg hstrip, if_neg hstrip]

/-! ## Endpoints over a run -/

def isSetEndpoint (e : Event World Call Reply) : Bool :=
  match e.call.op with
  | .setEndpoint _ => true
  | _ => false

/-- The endpoint that the call parses. -/
def parsedBy (A : Apr) (e : Event World Call Reply) : Option Uri :=
  match e.call.op with
  | .setEndpoint uri => some (A.uriParse uri).2
  | _ => none

/-- A call with an endpoint leaves the one it parses, accepted or not. -/
theorem uri_of_setEndpoint {A : Apr} {e : Event World Call Reply} {uri : CString}
    (h : step A e.pre e.call = some (e.reply, e.post))
    (hop : e.call.op = .setEndpoint uri) :
    e.post.messenger.uri = some (A.uriParse uri).2 := by
  rw [(settings_step h).2, nextUri, hop]

/-- The endpoint in use is the one parsed last. -/
theorem uri_run {A : Apr} {w w' : World} {log : Log}
    (h : Run (step A) w log w') :
    w'.messenger.uri = (lastWritten (parsedBy A) log).or w.messenger.uri := by
  have hstep : ∀ e ∈ log, step A e.pre e.call = some (e.reply, e.post) →
      e.post.messenger.uri =
        ((parsedBy A e).map some).getD e.pre.messenger.uri := by
    intro e _ hstep
    rw [(settings_step hstep).2]
    unfold nextUri parsedBy
    cases e.call.op <;> rfl
  have hlast : w'.messenger.uri =
      (lastWritten (fun e => (parsedBy A e).map some) log).getD w.messenger.uri :=
    h.lastWritten_eq (f := fun w => w.messenger.uri) hstep
  rw [hlast, lastWritten_map]
  cases lastWritten (parsedBy A) log <;> rfl

/-- No call changes the options. -/
theorem options_step {A : Apr} {w w' : World} {c : Call} {r : Reply}
    (h : step A w c = some (r, w')) :
    w'.messenger.options = w.messenger.options := by
  have hf : Untouched fun w : World => w.messenger.options :=
    ⟨fun _ _ => rfl, fun _ _ _ => rfl⟩
  obtain ⟨op, net⟩ := c
  have hstepped : Stepped A net w op r w' := stepped_of_step h
  cases hstepped with
  | request _ hrun =>
      obtain ⟨_, -, htransacted⟩ := transacted_of_transact hrun
      exact htransacted.untouched hf
  | connect hrun =>
      cases connected_of_connect hrun with
      | unreachable => rfl
      | unwritten => rfl
      | refused _ _ _ hread => exact hread.untouched hf
      | confirmed _ _ hread => exact hread.untouched hf
  | receive hrun =>
      obtain ⟨_, -, hreceived⟩ := received_of_receive hrun
      have hsame := hreceived.untouched hf fun _ _ => rfl
      exact hsame
  | setEndpoint hrun =>
      obtain ⟨_, rfl, -⟩ := setEndpoint_cases hrun
      rfl
  | noHeader => rfl
  | exchangeAdd => rfl
  | exchangeClear => rfl

/-! ## Accepted endpoints -/

/-- `stomp_set_endpoint` accepts the URI: it parses, and its path is not empty. -/
def accepts (A : Apr) (uri : CString) : Bool :=
  match A.uriParse uri with
  | (none, parsed) => parsed.path.any fun path => path.strlen ≠ 0
  | (some _, _) => false

theorem accepts_iff {A : Apr} {uri : CString} :
    accepts A uri = true ↔ (A.uriParse uri).1 = none ∧
      ∃ path, (A.uriParse uri).2.path = some path ∧ path.bytes ≠ [] := by
  unfold accepts CString.strlen
  rcases A.uriParse uri with ⟨_ | rc, parsed⟩ <;> simp [Option.any_eq_true]

/-- The code of `stomp_set_endpoint` says whether the URI was accepted. -/
theorem setEndpoint_code {A : Apr} {uri : CString} {w w' : World}
    {code : StatusCode} (h : stompSetEndpoint A uri w = some (code, w')) :
    code = if accepts A uri then .success else .failure := by
  unfold stompSetEndpoint at h
  unfold accepts
  rcases hparse : A.uriParse uri with ⟨_ | rc, parsed⟩
  · simp only [hparse, Option.isSome_none, Bool.false_eq_true, if_false] at h
    cases hpath : parsed.path with
    | none =>
        rw [hpath] at h
        simpa [hpath] using (Prod.mk.inj (Option.some.inj h)).1.symm
    | some path =>
        simp only [hpath] at h
        by_cases hempty : path.strlen = 0
        · rw [if_pos hempty] at h
          simpa [hpath, hempty] using (Prod.mk.inj (Option.some.inj h)).1.symm
        · rw [if_neg hempty] at h
          simpa [hpath, hempty] using (Prod.mk.inj (Option.some.inj h)).1.symm
  · simp only [hparse, Option.isSome_some, if_true] at h
    exact (Prod.mk.inj (Option.some.inj h)).1.symm

theorem code_of_setEndpoint {A : Apr} {e : Event World Call Reply} {uri : CString}
    (h : step A e.pre e.call = some (e.reply, e.post))
    (hop : e.call.op = .setEndpoint uri) :
    e.reply.code = some (if accepts A uri then .success else .failure) := by
  obtain ⟨pre, ⟨op, net⟩, reply, post⟩ := e
  obtain rfl : op = .setEndpoint uri := hop
  obtain ⟨code, hrun, rfl⟩ := replyCode_eq_some h
  exact congrArg some (setEndpoint_code hrun)

/-- The caller is told which endpoints are accepted. -/
theorem accepts_of_code {A : Apr} {e : Event World Call Reply} {uri : CString}
    (h : step A e.pre e.call = some (e.reply, e.post))
    (hop : e.call.op = .setEndpoint uri) :
    e.reply.code = some .success ↔ accepts A uri = true := by
  rw [code_of_setEndpoint h hop]
  cases accepts A uri <;> simp

/-! ## One destination for three operations -/

/-- Whatever subscription and message they are called with, a reader finds one and the
same destination in the frames of the three operations. -/
def SameDestination (A : Apr) (w : World) : Prop :=
  ∀ (s u : SubscriptionHeader) (header : Option SendHeader) (message : Message),
    ∃ d, WritesDestination A w (.subscribe (some s)) d ∧
      WritesDestination A w (.unsubscribe (some u)) d ∧
      WritesDestination A w (.send header message) d

/-- Without its first byte a path has another first line. -/
private theorem firstLine_tail_ne {path : CString} (hne : path.bytes ≠ [])
    (h : Unforged [⟨.lit "destination", path⟩] (.lit "destination")) :
    firstLine path.tail ≠ firstLine path := by
  intro heq
  obtain ⟨b, rest, hpath⟩ := List.exists_cons_of_ne_nil hne
  have hlines : rest.takeWhile (· != lf) = (b :: rest).takeWhile (· != lf) := by
    have hbytes : path.bytes.tail.takeWhile (· != lf) =
        path.bytes.takeWhile (· != lf) := congrArg CString.bytes heq
    rwa [hpath, List.tail_cons] at hbytes
  by_cases hb : b = lf
  · -- the line behind that newline is empty
    subst hb
    rw [List.takeWhile_cons_of_neg (by decide)] at hlines
    have hempty : [] ∈ textLines ⟨.lit "destination", path⟩ := by
      have htext : headerLine ⟨.lit "destination", path⟩ =
          ((CString.lit "destination").bytes ++ [colon]) ++ lf :: rest := by
        rw [headerLine, hpath]
        simp
      rw [textLines, htext, List.splitOn_append_cons_self_of_not_mem (by decide),
        splitOn_eq_cons, hlines]
      simp
    have hblank := (h.lines [] (mem_linesOf.mpr ⟨_, by simp, hempty⟩)).1
    cases hblank
  · rw [List.takeWhile_cons_of_pos (by simpa using hb)] at hlines
    have hlength := congrArg List.length hlines
    rw [List.length_cons] at hlength
    omega

private theorem sameDestination_endpoint {A : Apr} {w : World} {uri : Uri}
    {path : CString} (huri : w.messenger.uri = some uri) (hpath : uri.path = some path)
    (hne : path.bytes ≠ []) :
    SameDestination A w ↔ ¬ StripsRoot w.messenger ∧
      DestinationOnce w.messenger.exchangeProperties path := by
  have hstripped := strippedDestination_eq huri hpath hne
  constructor
  · intro h
    obtain ⟨d, hs, hu, hm⟩ := h ⟨0, 0⟩ ⟨0, 0⟩ none stompMessageCreate
    obtain ⟨_, hqs, hreads⟩ := subscribe_reads hstripped ⟨0, 0⟩
    obtain ⟨-, rfl⟩ := (hreads d).mp ((writesDestination_iff hqs).mp hs)
    obtain ⟨_, hqu, hreadu⟩ := unsubscribe_reads huri hpath ⟨0, 0⟩
    obtain ⟨hpathLines, heq⟩ := (hreadu _).mp ((writesDestination_iff hqu).mp hu)
    have hkeep : ¬ StripsRoot w.messenger := by
      intro hstrip
      rw [stripped, if_pos hstrip] at heq
      exact firstLine_tail_ne hne hpathLines heq
    obtain ⟨_, hqm, hreadm⟩ := send_reads hstripped none stompMessageCreate
    obtain ⟨honce, -⟩ := (hreadm _).mp ((writesDestination_iff hqm).mp hm)
    rw [stripped, if_neg hkeep] at honce
    exact ⟨hkeep, honce⟩
  · rintro ⟨hkeep, honce⟩ s u header message
    rw [stripped, if_neg hkeep] at hstripped
    obtain ⟨_, hqs, hreads⟩ := subscribe_reads hstripped s
    obtain ⟨_, hqu, hreadu⟩ := unsubscribe_reads huri hpath u
    obtain ⟨_, hqm, hreadm⟩ := send_reads hstripped header message
    exact ⟨firstLine path,
      (writesDestination_iff hqs).mpr ((hreads _).mpr ⟨honce.alone, rfl⟩),
      (writesDestination_iff hqu).mpr ((hreadu _).mpr ⟨honce.alone, rfl⟩),
      (writesDestination_iff hqm).mpr ((hreadm _).mpr ⟨honce.send header, rfl⟩)⟩

/-- **A reader finds one destination in SUBSCRIBE, UNSUBSCRIBE and SEND exactly when the
messenger keeps the root** and no property forges a line, in every state that
follows an accepted endpoint.  None is forged if the strings of the application keep
clear of the separators. -/
theorem sameDestination_iff (A : Apr) (w w₁ w' : World) (uri : CString)
    (net : Net) (log : Log)
    (haccepted : step A w ⟨.setEndpoint uri, net⟩ =
      some (⟨some .success, none⟩, w₁))
    (h : Run (step A) w₁ log w') (hlater : ∀ e ∈ log, isSetEndpoint e = false) :
    ∃ path, (A.uriParse uri).2.path = some path ∧
      (SameDestination A w' ↔ ¬ StripsRoot w'.messenger ∧
        DestinationOnce w'.messenger.exchangeProperties path) ∧
      (CleanTable w.messenger.exchangeProperties → lf ∉ path.bytes →
        (∀ e ∈ log, CleanCall A e.call) →
          DestinationOnce w'.messenger.exchangeProperties path) := by
  have haccepts := accepts_of_code
    (e := ⟨w, ⟨.setEndpoint uri, net⟩, ⟨some .success, none⟩, w₁⟩) haccepted rfl
  obtain ⟨-, path, hpath, hne⟩ := accepts_iff.mp (haccepts.mp rfl)
  have hnone : lastWritten (parsedBy A) log = none := by
    rw [lastWritten, List.findSome?_eq_none_iff]
    intro e he
    have hop := hlater e (List.mem_reverse.mp he)
    unfold isSetEndpoint at hop
    unfold parsedBy
    cases hcase : e.call.op <;> first | rfl | (rw [hcase] at hop; cases hop)
  have huri : w'.messenger.uri = some (A.uriParse uri).2 := by
    rw [uri_run h, hnone, Option.none_or]
    exact uri_of_setEndpoint
      (e := ⟨w, ⟨.setEndpoint uri, net⟩, ⟨some .success, none⟩, w₁⟩) haccepted rfl
  refine ⟨path, hpath, sameDestination_endpoint huri hpath hne,
    fun hclean hline hcalls => destinationOnce_clean (cleanTable_run h ?_ hcalls) hline⟩
  have hkept : w₁.messenger.exchangeProperties = w.messenger.exchangeProperties :=
    (settings_step (e := ⟨w, ⟨.setEndpoint uri, net⟩, ⟨some .success, none⟩, w₁⟩)
      haccepted).1
  rw [hkept]
  exact hclean

/-- A frame is received, and a property with a newline added. -/
def laterCalls : List Call :=
  [⟨.connect none, .quiet (ascii "CONNECTED\n\n" ++ [nul, lf])⟩,
    ⟨.receive stompMessageCreate,
      .quiet (ascii "MESSAGE\ndestination:/queue/other\nx:1\n\ny" ++ [nul, lf])⟩,
    ⟨.exchangeAdd (.lit "a") (some (.lit "1\nb:2")), .quiet []⟩]

/-- A messenger whose application has cleared the option. -/
def rootKept : World :=
  { stompMessengerInit 0 with
    messenger := { (stompMessengerInit 0).messenger with options := 0 } }

theorem sameDestination_laterCalls :
    ∃ (w₁ w' : World) (log : Log),
      step .sample rootKept
        ⟨.setEndpoint (.lit "stomp://localhost:61613/queue/test"), .quiet []⟩ =
          some (⟨some .success, none⟩, w₁) ∧
      Run (step .sample) w₁ log w' ∧ log.map Event.call = laterCalls ∧
      SameDestination .sample w' := by
  obtain ⟨w₁, hset⟩ : ∃ w₁, step .sample rootKept
      ⟨.setEndpoint (.lit "stomp://localhost:61613/queue/test"), .quiet []⟩ =
        some (⟨some .success, none⟩, w₁) := ⟨_, rfl⟩
  have hrun : (exec (step .sample) w₁ laterCalls).map (fun p =>
      (decide (StripsRoot p.2.messenger),
        decide (DestinationOnce p.2.messenger.exchangeProperties
          (.lit "/queue/test")))) = some (false, true) := by
    obtain rfl := (Prod.mk.inj (Option.some.inj hset)).2
    decide +kernel
  obtain ⟨⟨log, w'⟩, hexec, hpair⟩ := Option.map_eq_some_iff.mp hrun
  obtain ⟨hkeep, honce⟩ := Prod.mk.inj hpair
  have hlater : ∀ e ∈ log, isSetEndpoint e = false := by
    intro e he
    have hcall : e.call ∈ laterCalls :=
      exec_calls hexec ▸ List.mem_map_of_mem he
    simp only [laterCalls, List.mem_cons, List.not_mem_nil, or_false] at hcall
    rcases hcall with hc | hc | hc <;> (unfold isSetEndpoint; rw [hc])
  obtain ⟨path, hpath, hiff, -⟩ := sameDestination_iff .sample rootKept w₁ w' _ _ log
    hset (exec_run hexec) hlater
  obtain rfl : CString.lit "/queue/test" = path := Option.some.inj hpath
  exact ⟨w₁, w', log, hset, exec_run hexec, exec_calls hexec,
    hiff.mpr ⟨of_decide_eq_false hkeep, of_decide_eq_true honce⟩⟩

/-- A messenger strips the root unless it was told not to. -/
theorem sameDestination_fails :
    ¬ ∀ (A : Apr) (w w₁ w' : World) (uri : CString) (net : Net) (log : Log),
      step A w ⟨.setEndpoint uri, net⟩ = some (⟨some .success, none⟩, w₁) →
        Run (step A) w₁ log w' → (∀ e ∈ log, isSetEndpoint e = false) →
          SameDestination A w' := by
  intro h
  have hsame := h .sample (stompMessengerInit 0) _ _
    (.lit "stomp://localhost:61613/queue/test") (.quiet []) [] rfl (.nil _)
    (by simp)
  exact ((sameDestination_endpoint rfl rfl (by decide)).mp hsame).1 (by decide)

/-! ## The endpoint accepted last -/

/-- The path that the call was told is accepted. -/
def acceptedBy (A : Apr) (e : Event World Call Reply) : Option CString :=
  match e.call.op with
  | .setEndpoint uri =>
      if e.reply.code = some .success then (A.uriParse uri).2.path else none
  | _ => none

/-- A reader finds in SUBSCRIBE and SEND frames the destination that the path stands
for. -/
def DestinationFrom (A : Apr) (w : World) (path : CString) : Prop :=
  (stripped w.messenger path).bytes ≠ [] ∧
    (∀ s, WritesDestination A w (.subscribe (some s)) (stripped w.messenger path)) ∧
    ∀ header message,
      WritesDestination A w (.send header message) (stripped w.messenger path)

/-- A call that fails leaves the endpoint in use. -/
def FailureKeeps (e : Event World Call Reply) : Prop :=
  isSetEndpoint e = true → e.reply.code = some .failure →
    e.post.messenger.uri = e.pre.messenger.uri

/-- After every call the destination is the one of the endpoint accepted last, and a
call that is refused changes nothing. -/
def FollowsAccepted (A : Apr) (log : Log) : Prop :=
  ∀ before e after, log = before ++ e :: after →
    (∃ path, lastWritten (acceptedBy A) (before ++ [e]) = some path ∧
      DestinationFrom A e.post path) ∧ FailureKeeps e

/-- An endpoint that is set is accepted and leaves something to strip the root off,
or else it is the one in use. -/
def KeepsDestination (A : Apr) (w : World) (c : Call) : Prop :=
  ∀ uri, c.op = .setEndpoint uri →
    if accepts A uri then
      StripsRoot w.messenger →
        (A.uriParse uri).2.path.map CString.strlen ≠ some 1
    else w.messenger.uri = some (A.uriParse uri).2

/-- The destination is one line, and the exchange properties forge no other. -/
def PlainDestination (m : Messenger) : Prop :=
  ∀ uri path, m.uri = some uri → uri.path = some path →
    lf ∉ (stripped m path).bytes ∧
      DestinationOnce m.exchangeProperties (stripped m path)

/-- The endpoint in use has that path, and something is left of it. -/
structure InUse (m : Messenger) (path : CString) : Prop where
  uri : ∃ uri, m.uri = some uri ∧ uri.path = some path
  nonempty : path.bytes ≠ []
  rest : StripsRoot m → path.strlen ≠ 1

private theorem stripped_ne_nil {m : Messenger} {path : CString}
    (hne : path.bytes ≠ []) :
    (stripped m path).bytes ≠ [] ↔ (StripsRoot m → path.strlen ≠ 1) := by
  have hpos := List.length_pos_of_ne_nil hne
  unfold stripped CString.strlen
  by_cases hstrip : StripsRoot m
  · rw [if_pos hstrip]
    show path.bytes.tail ≠ [] ↔ _
    rw [ne_eq, ← List.length_eq_zero_iff, List.length_tail]
    constructor
    · intro h _
      omega
    · intro h
      have := h hstrip
      omega
  · rw [if_neg hstrip]
    exact iff_of_true hne fun h => absurd h hstrip

/-- The destination that the path in use stands for is read when nothing is forged. -/
theorem InUse.destinationFrom_iff {A : Apr} {w : World} {path : CString}
    (h : InUse w.messenger path) :
    DestinationFrom A w path ↔ PlainDestination w.messenger := by
  obtain ⟨⟨uri, huri, hpath⟩, hne, hrest⟩ := h
  have hstripped := strippedDestination_eq huri hpath hne
  constructor
  · rintro ⟨-, -, hsend⟩ uri' path' huri' hpath'
    obtain rfl := Option.some.inj (huri.symm.trans huri')
    obtain rfl := Option.some.inj (hpath.symm.trans hpath')
    obtain ⟨_, hq, hreads⟩ := send_reads hstripped none stompMessageCreate
    obtain ⟨honce, hline⟩ :=
      (hreads _).mp ((writesDestination_iff hq).mp (hsend none stompMessageCreate))
    exact ⟨firstLine_eq_self.mp hline.symm, honce⟩
  · intro hplain
    obtain ⟨hline, honce⟩ := hplain uri path huri hpath
    have hfirst := (firstLine_eq_self.mpr hline).symm
    refine ⟨(stripped_ne_nil hne).mpr hrest, fun s => ?_, fun header message => ?_⟩
    · obtain ⟨_, hq, hreads⟩ := subscribe_reads hstripped s
      exact (writesDestination_iff hq).mpr ((hreads _).mpr ⟨honce.alone, hfirst⟩)
    · obtain ⟨_, hq, hreads⟩ := send_reads hstripped header message
      exact (writesDestination_iff hq).mpr ((hreads _).mpr ⟨honce.send header, hfirst⟩)

theorem acceptedBy_setEndpoint {A : Apr} {e : Event World Call Reply}
    {uri : CString} (h : step A e.pre e.call = some (e.reply, e.post))
    (hop : e.call.op = .setEndpoint uri) :
    acceptedBy A e =
      if accepts A uri then (A.uriParse uri).2.path else none := by
  rw [acceptedBy, hop]
  simp only [code_of_setEndpoint h hop]
  cases accepts A uri <;> rfl

/-- The endpoint in use stays the one accepted last. -/
theorem inUse_step {A : Apr} {e : Event World Call Reply} {last : Option CString}
    (h : step A e.pre e.call = some (e.reply, e.post))
    (hkeeps : KeepsDestination A e.pre e.call)
    (hpre : ∀ path, last = some path → InUse e.pre.messenger path) :
    ∀ path, (acceptedBy A e).or last = some path →
      InUse e.post.messenger path := by
  intro path hpath
  have hoptions := options_step h
  have hsame : acceptedBy A e = none →
      e.post.messenger.uri = e.pre.messenger.uri →
        InUse e.post.messenger path := by
    intro hnone huri
    rw [hnone, Option.none_or] at hpath
    obtain ⟨⟨uri, hin, hparsed⟩, hne, hrest⟩ := hpre path hpath
    exact ⟨⟨uri, huri.trans hin, hparsed⟩, hne, by rwa [StripsRoot, hoptions]⟩
  by_cases hset : ∃ uri, e.call.op = .setEndpoint uri
  · obtain ⟨uri, hop⟩ := hset
    have hguard := hkeeps uri hop
    have huri := uri_of_setEndpoint h hop
    have hby := acceptedBy_setEndpoint h hop
    cases haccepts : accepts A uri with
    | true =>
        rw [if_pos haccepts] at hguard hby
        obtain ⟨-, p, hp, hne⟩ := accepts_iff.mp haccepts
        rw [hby, hp, Option.some_or] at hpath
        obtain rfl := Option.some.inj hpath
        refine ⟨⟨_, huri, hp⟩, hne, ?_⟩
        rw [StripsRoot, hoptions]
        intro hstrip hone
        apply hguard hstrip
        rw [hp, Option.map_some, hone]
    | false =>
        rw [if_neg (by simp [haccepts])] at hguard hby
        exact hsame hby (huri.trans hguard.symm)
  · have hno : ∀ uri, e.call.op ≠ .setEndpoint uri := fun uri hop =>
      hset ⟨uri, hop⟩
    apply hsame
    · unfold acceptedBy
      cases hop : e.call.op <;> first | rfl | exact absurd hop (hno _)
    · rw [(settings_step h).2]
      unfold nextUri
      cases hop : e.call.op <;> first | rfl | exact absurd hop (hno _)

theorem inUse_run {A : Apr} {w w' : World} {log : Log}
    (h : Run (step A) w log w')
    (hkeeps : ∀ e ∈ log, KeepsDestination A e.pre e.call) :
    ∀ path, lastWritten (acceptedBy A) log = some path →
      InUse w'.messenger path := by
  induction log using List.reverseRecOn generalizing w' with
  | nil =>
      intro path hpath
      cases hpath
  | append_singleton log e ih =>
      obtain ⟨w₁, hlog, hlast⟩ := h.split
      cases hlast with
      | @cons _ _ _ c r _ head rest =>
          cases rest
          have hpre := ih hlog fun e he =>
            hkeeps e (List.mem_append_left _ he)
          rw [lastWritten_concat]
          exact inUse_step (e := ⟨w₁, c, r, w'⟩) head
            (hkeeps _ (by simp)) hpre

/-- A call behind which the destination is that of the endpoint accepted last, and
which changes no endpoint when it fails, was of that kind. -/
private theorem keepsDestination_of_event {A : Apr} {before : Log}
    {e : Event World Call Reply}
    (hstep : step A e.pre e.call = some (e.reply, e.post)) {path : CString}
    (hlast : lastWritten (acceptedBy A) (before ++ [e]) = some path)
    (hfrom : DestinationFrom A e.post path) (hkeeps : FailureKeeps e) :
    KeepsDestination A e.pre e.call := by
  intro uri hop
  have hne := hfrom.1
  have hby := acceptedBy_setEndpoint hstep hop
  cases haccepts : accepts A uri with
  | true =>
      rw [if_pos rfl]
      rw [if_pos haccepts] at hby
      obtain ⟨-, p, hp, hpne⟩ := accepts_iff.mp haccepts
      rw [lastWritten_concat, hby, hp, Option.some_or] at hlast
      obtain rfl := Option.some.inj hlast
      have hrest := (stripped_ne_nil hpne).mp hne
      rw [StripsRoot, options_step hstep] at hrest
      intro hstrip hone
      rw [hp, Option.map_some, Option.some.injEq] at hone
      exact hrest hstrip hone
  | false =>
      rw [if_neg Bool.false_ne_true]
      have hcode := code_of_setEndpoint hstep hop
      rw [if_neg (by simp [haccepts])] at hcode
      have hisSet : isSetEndpoint e = true := by rw [isSetEndpoint, hop]
      exact (hkeeps hisSet hcode).symm.trans (uri_of_setEndpoint hstep hop)

/-- A call of that kind that fails changes no endpoint. -/
private theorem failureKeeps_of_keepsDestination {A : Apr}
    {e : Event World Call Reply}
    (hstep : step A e.pre e.call = some (e.reply, e.post))
    (hkeeps : KeepsDestination A e.pre e.call) : FailureKeeps e := by
  intro hisSet hfailure
  unfold isSetEndpoint at hisSet
  split at hisSet
  · rename_i uri hop
    have hrefused := accepts_of_code hstep hop
    rw [hfailure] at hrefused
    have hguard := hkeeps uri hop
    rw [if_neg fun haccepts => nomatch hrefused.mpr haccepts] at hguard
    exact (uri_of_setEndpoint hstep hop).trans hguard.symm
  · cases hisSet

/-- Setting an endpoint successfully accepts it. -/
private theorem acceptedBy_of_success {A : Apr} {e : Event World Call Reply}
    (hstep : step A e.pre e.call = some (e.reply, e.post)) {uri : CString}
    (hset : e.call.op = .setEndpoint uri) (hcode : e.reply.code = some .success) :
    acceptedBy A e ≠ none := by
  have haccepts := accepts_of_code hstep hset
  rw [hcode] at haccepts
  obtain ⟨-, p, hp, -⟩ := accepts_iff.mp (haccepts.mp rfl)
  rw [acceptedBy_setEndpoint hstep hset, if_pos (haccepts.mp rfl), hp]
  exact Option.some_ne_none p

/-- Clean strings forge nothing. -/
private theorem plainDestination_clean {w : World} (h : CleanSettings w) :
    PlainDestination w.messenger := by
  intro uri path huri hpath
  have hline : lf ∉ (stripped w.messenger path).bytes := by
    have hwhole := h.path uri path huri hpath
    unfold stripped
    split
    · exact fun hm => hwhole (List.mem_of_mem_tail hm)
    · exact hwhole
  exact ⟨hline, destinationOnce_clean h.properties hline⟩

/-- An endpoint that is set leaves a clean path if its own one is. -/
private theorem cleanSettings_endpoint {A : Apr} {w w' : World}
    {first : Event World Call Reply} {rest : Log}
    (h : Run (step A) w (first :: rest) w') {uri : CString}
    (hset : first.call.op = .setEndpoint uri)
    (hproperties : CleanTable w.messenger.exchangeProperties)
    (hcalls : ∀ e ∈ first :: rest, CleanCall A e.call) : CleanSettings w' := by
  cases h with
  | @cons _ _ _ c r _ head hrest =>
      have hfirst : CleanCall A c := hcalls _ List.mem_cons_self
      refine .run hrest ⟨cleanTable_step (e := ⟨w, c, r, _⟩) head hproperties hfirst, ?_⟩
        fun e he => hcalls e (List.mem_cons_of_mem _ he)
      intro parsed path hparsed hpath
      have huri := uri_of_setEndpoint (e := ⟨w, c, r, _⟩) head hset
      obtain rfl := Option.some.inj (hparsed.symm.trans huri)
      unfold CleanCall at hfirst
      rw [show c.op = .setEndpoint uri from hset] at hfirst
      exact hfirst path hpath

/-- The first event of a log is one of those up to any of its events. -/
private theorem first_upTo {first e : Event World Call Reply} {rest before after : Log}
    (h : first :: rest = before ++ e :: after) :
    ∃ log, before ++ [e] = first :: log := by
  cases before with
  | nil => exact ⟨[], by rw [(List.cons.inj h).1]; rfl⟩
  | cons b before => exact ⟨before ++ [e], by rw [(List.cons.inj h).1]; rfl⟩

/-- **A reader finds in every SUBSCRIBE and SEND the destination of the endpoint
accepted last**, and a refused endpoint changes nothing, exactly in the runs that set
no endpoint but accepted ones of which stripping leaves something and the one in
use, and in which no string forges a line.  None does if the strings of the
application keep clear of the separators. -/
theorem followsAccepted_iff (A : Apr) (w w' : World)
    (first : Event World Call Reply) (rest : Log)
    (h : Run (step A) w (first :: rest) w') (uri : CString)
    (hset : first.call.op = .setEndpoint uri)
    (hfirst : first.reply.code = some .success) :
    (FollowsAccepted A (first :: rest) ↔
      ∀ e ∈ first :: rest,
        KeepsDestination A e.pre e.call ∧ PlainDestination e.post.messenger) ∧
    (CleanTable w.messenger.exchangeProperties →
      (∀ e ∈ first :: rest, CleanCall A e.call) →
        ∀ e ∈ first :: rest, PlainDestination e.post.messenger) := by
  have hinUse : (∀ e ∈ first :: rest, KeepsDestination A e.pre e.call) →
      ∀ before e after, first :: rest = before ++ e :: after →
        ∃ path, lastWritten (acceptedBy A) (before ++ [e]) = some path ∧
          InUse e.post.messenger path := by
    intro hkeeps before e after hsplit
    have hmem : ∀ r ∈ before ++ [e], r ∈ first :: rest := by
      intro r hr
      rw [hsplit, List.append_cons]
      exact List.mem_append_left _ hr
    obtain ⟨log, hlog⟩ := first_upTo hsplit
    have hhead : first ∈ before ++ [e] := by rw [hlog]; exact List.mem_cons_self
    have hby := acceptedBy_of_success (h.step_of_mem (hmem first hhead)) hset hfirst
    obtain ⟨path, hlast⟩ := exists_lastWritten hhead hby
    have hrun := h
    rw [hsplit] at hrun
    exact ⟨path, hlast,
      inUse_run hrun.upTo (fun r hr => hkeeps r (hmem r hr)) path hlast⟩
  refine ⟨⟨fun hfollows => ?_, fun hkeeps before e after hsplit => ?_⟩, ?_⟩
  · have hkeeps : ∀ e ∈ first :: rest, KeepsDestination A e.pre e.call := by
      intro e he
      obtain ⟨before, after, hsplit⟩ := List.append_of_mem he
      obtain ⟨⟨path, hlast, hfrom⟩, hfail⟩ := hfollows before e after hsplit
      exact keepsDestination_of_event (h.step_of_mem he) hlast hfrom hfail
    intro e he
    obtain ⟨before, after, hsplit⟩ := List.append_of_mem he
    obtain ⟨⟨path, hlast, hfrom⟩, -⟩ := hfollows before e after hsplit
    obtain ⟨path', hlast', huse⟩ := hinUse hkeeps before e after hsplit
    obtain rfl := Option.some.inj (hlast.symm.trans hlast')
    exact ⟨hkeeps e he, huse.destinationFrom_iff.mp hfrom⟩
  · have he : e ∈ first :: rest := by rw [hsplit]; simp
    obtain ⟨path, hlast, huse⟩ :=
      hinUse (fun r hr => (hkeeps r hr).1) before e after hsplit
    exact ⟨⟨path, hlast, huse.destinationFrom_iff.mpr (hkeeps e he).2⟩,
      failureKeeps_of_keepsDestination (h.step_of_mem he) (hkeeps e he).1⟩
  · intro hproperties hcalls e he
    obtain ⟨before, after, hsplit⟩ := List.append_of_mem he
    have hrun := h
    rw [hsplit] at hrun hcalls
    obtain ⟨log, hlog⟩ := first_upTo hsplit
    have hupTo := hrun.upTo
    rw [List.append_cons, hlog] at hcalls
    rw [hlog] at hupTo
    have hclean := cleanSettings_endpoint hupTo hset hproperties fun r hr =>
      hcalls r (List.mem_append_left _ hr)
    exact plainDestination_clean hclean

/-- The runtime on URIs of the broker `stomp://localhost:61613`: the path is what
follows the port. -/
def brokerUris : Apr where
  strerror := Apr.sample.strerror
  uriParse uri := (none,
    { hostname := some (.lit "localhost")
      port := 61613
      path := if uri.bytes.drop 23 = [] then none else
        some ⟨uri.bytes.drop 23, fun h => uri.nulFree (List.mem_of_mem_drop h)⟩ })

/-- A queue is set. -/
def queueCall : Call :=
  ⟨.setEndpoint (.lit "stomp://localhost:61613/queue/test"), .quiet []⟩

/-- The broker is set, without a queue. -/
def brokerCall : Call :=
  ⟨.setEndpoint (.lit "stomp://localhost:61613"), .quiet []⟩

/-- Another queue is set. -/
def topicCall : Call :=
  ⟨.setEndpoint (.lit "stomp://localhost:61613/topic/news"), .quiet []⟩

/-- A message is sent to a queue, and a subscription to another one is confirmed. -/
def rerouteCalls : List Call :=
  [queueCall, ⟨.connect none, .quiet (ascii "CONNECTED\n\n" ++ [nul, lf])⟩,
    ⟨.send none (stompMessageFormat stompMessageCreate (ascii "x") 1), .quiet []⟩,
    topicCall, ⟨.subscribe (some ⟨1, 0⟩),
      .quiet (ascii "RECEIPT\nreceipt-id:1\n\n" ++ [nul, lf])⟩]

/-- Both endpoints are accepted and longer than the root. -/
private theorem keepsDestination_rerouteCalls {w : World} {c : Call}
    (hc : c ∈ rerouteCalls) : KeepsDestination brokerUris w c := by
  have haccepts : ∀ uri, c.op = .setEndpoint uri → accepts brokerUris uri = true ∧
      (brokerUris.uriParse uri).2.path.map CString.strlen ≠ some 1 := by
    intro uri hop
    simp only [rerouteCalls, List.mem_cons, List.not_mem_nil, or_false] at hc
    rcases hc with rfl | rfl | rfl | rfl | rfl <;> cases hop <;> decide
  intro uri hop
  obtain ⟨hyes, hlong⟩ := haccepts uri hop
  rw [if_pos hyes]
  exact fun _ => hlong

private theorem cleanPath_brokerUris {uri path : CString} (huri : lf ∉ uri.bytes)
    (h : (brokerUris.uriParse uri).2.path = some path) : lf ∉ path.bytes := by
  simp only [brokerUris] at h
  split at h
  · cases h
  · obtain rfl := Option.some.inj h
    exact fun hm => huri (List.mem_of_mem_drop hm)

private theorem cleanCall_rerouteCalls {c : Call} (hc : c ∈ rerouteCalls) :
    CleanCall brokerUris c := by
  simp only [rerouteCalls, List.mem_cons, List.not_mem_nil, or_false] at hc
  rcases hc with rfl | rfl | rfl | rfl | rfl
  · exact fun path hpath => cleanPath_brokerUris (by decide) hpath
  · trivial
  · trivial
  · exact fun path hpath => cleanPath_brokerUris (by decide) hpath
  · trivial

theorem followsAccepted_rerouteCalls :
    ∃ (log : Log) (w' : World),
      Run (step brokerUris) (stompMessengerInit 0) log w' ∧
      log.map Event.call = rerouteCalls ∧
      log.map (·.reply.code) = List.replicate 5 (some .success) ∧
      FollowsAccepted brokerUris log := by
  have hrun : (exec (step brokerUris) (stompMessengerInit 0) rerouteCalls).map (fun p =>
      p.1.map (·.reply.code)) = some (List.replicate 5 (some .success)) := by
    decide +kernel
  obtain ⟨⟨log, w'⟩, hexec, hcodes⟩ := Option.map_eq_some_iff.mp hrun
  have hcalls := exec_calls hexec
  have hlog := exec_run hexec
  refine ⟨log, w', hlog, hcalls, hcodes, ?_⟩
  cases log with
  | nil => cases hcalls
  | cons first rest =>
      have hfirst : first.call = queueCall := (List.cons.inj hcalls).1
      have hmem : ∀ e ∈ first :: rest, e.call ∈ rerouteCalls := fun e he =>
        hcalls ▸ List.mem_map_of_mem he
      obtain ⟨hiff, hplain⟩ := followsAccepted_iff brokerUris _ w' first rest hlog
        (.lit "stomp://localhost:61613/queue/test") (by rw [hfirst]; rfl)
        (List.cons.inj hcodes).1
      refine hiff.mpr fun e he => ⟨keepsDestination_rerouteCalls (hmem e he),
        hplain cleanTable_empty (fun r hr => ?_) e he⟩
      exact cleanCall_rerouteCalls (hmem r hr)

private theorem endpointCalls_run :
    ∃ w₁ w₂ : World,
      step brokerUris (stompMessengerInit 0) queueCall =
        some (⟨some .success, none⟩, w₁) ∧
      step brokerUris w₁ brokerCall = some (⟨some .failure, none⟩, w₂) ∧
      w₂.messenger.uri ≠ w₁.messenger.uri :=
  ⟨_, _, rfl, rfl, by decide⟩

/-- The second endpoint is refused, and the first one is lost. -/
theorem followsAccepted_fails :
    ¬ ∀ (A : Apr) (w w' : World) (first : Event World Call Reply) (rest : Log)
      (uri : CString),
      Run (step A) w (first :: rest) w' → first.call.op = .setEndpoint uri →
        first.reply.code = some .success → FollowsAccepted A (first :: rest) := by
  intro h
  obtain ⟨w₁, w₂, hfirst, hsecond, hne⟩ := endpointCalls_run
  obtain ⟨-, hkeeps⟩ := h brokerUris _ w₂ _ _ _ (.cons hfirst (.single hsecond))
    rfl rfl [⟨_, queueCall, _, w₁⟩] ⟨w₁, brokerCall, _, w₂⟩ [] rfl
  exact hne (hkeeps rfl rfl)

end LibStomp.Session.Destinations
