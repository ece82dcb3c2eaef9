import LibStomp.Session.CallOrder
import LibStomp.Session.Connections
import LibStomp.Stream.Receiving

/-!
# Using connections through copied pointers

Two questions about an application that keeps pointers to connections in several
variables: which of its runs have a defined behaviour, and whether what it sends on
one connection can end up on another.  Both are decided by the pointers alone.

## Main results

* `connections_defined_iff` — which runs have a defined behaviour: those the automaton
  of the pointers and pools allows, in which no write strays.
* `writes_of_connection` — what was sent on a connection are the frames written
  through pointers to it, whatever was written on others in between.
-/

namespace LibStomp.Session.Connections

open LibStomp.Model
open LibStomp.Model.Memory (Ptr)
open LibStomp.Model.Connections
open LibStomp.Verified.Allocation
open LibStomp.Verified.Runs
open LibStomp.Session.CallOrder (connects)
open LibStomp.Session.Sockets
open LibStomp.Stream.WriteFrame
open LibStomp.Stream.Receiving

section Calls

variable {V : Type} [DecidableEq V] {A : Apr} {c c' : Client V} {net : Net}

/-! ## Which runs are defined -/

/-- What decides whether a call has a behaviour: the variables, the pools, and the
connection objects that still have a socket, each with its pool. -/
structure Phase (V : Type) where
  vars : V → Ptr
  usable : Nat → Option Nat
  next : Nat
  pools : List Nat
  nextPool : Nat

omit [DecidableEq V] in
/-- The pool of the connection at an address that has a socket. -/
def usableIn (h : Heap Cell) (a : Nat) : Option Nat :=
  (follow (.addr a) h).map (·.pool)

def phaseOf (c : Client V) : Phase V where
  vars := c.vars
  usable := usableIn c.heap
  next := c.heap.next
  pools := c.pools
  nextPool := c.nextPool

/-- The variable leads to a socket. -/
def Phase.reaches (p : Phase V) (v : V) : Bool :=
  match p.vars v with
  | .addr a => (p.usable a).isSome
  | _ => false

/-- The function can be called. -/
def mayCall (p : Phase V) (call : EngineCall V) : Bool :=
  match call.op with
  | .poolCreate => true
  | .poolDestroy pool => pool ∈ p.pools
  | .assign _ _ => true
  | .connect _ _ pool => pool ∈ p.pools
  | .setTimeout v _ => p.reaches v
  | .write v _ _ => p.reaches v
  | .read v pool => pool ∈ p.pools && p.reaches v
  | .canRead v => p.reaches v
  | .disconnect none _ _ => false
  | .disconnect (some v) _ _ => p.vars v = .null || p.reaches v

/-- A connection object with a socket appears. -/
def Phase.connect (p : Phase V) (pool : Nat) : Phase V :=
  { p with
    usable := Function.update p.usable p.next (some pool)
    next := p.next + 2 }

/-- The phase after a call. -/
def nextPhase (p : Phase V) (call : EngineCall V) : Phase V :=
  match call.op with
  | .poolCreate => { p with pools := p.nextPool :: p.pools, nextPool := p.nextPool + 1 }
  | .poolDestroy pool =>
      { p with
        usable := fun a => (p.usable a).filter (· ≠ pool)
        pools := p.pools.filter (· ≠ pool) }
  | .assign target source =>
      { p with vars := Function.update p.vars target (p.vars source) }
  | .connect v _ pool =>
      if connects call.net.plan then
        { p.connect pool with vars := Function.update p.vars v (.addr p.next) }
      else if Creates call.net.plan then p.connect pool
      else { p with next := p.next + 1 }
  | .disconnect (some v) _ _ =>
      match p.vars v with
      | .addr a =>
          { p with
            usable := Function.update p.usable a none
            vars := Function.update p.vars v .null }
      | _ => p
  | _ => p

omit [DecidableEq V] in
theorem onSocket_isSome {α : Type} (v : V) (net : Net) (x : Io → α × Io)
    (c : Client V) :
    (onSocket v net x c).isSome = (follow (c.vars v) c.heap).isSome := by
  unfold onSocket
  cases hfollow : follow (c.vars v) c.heap with
  | none => rfl
  | some route =>
      obtain ⟨-, -, pool, hsocket⟩ := follow_eq_some hfollow
      obtain ⟨heap, hstore, -⟩ := Heap.store_spec
        (w := .socket route.pool (x (ioOf c net route)).2.socket) hsocket
      show (Option.bind (c.heap.store route.socket
        (.socket route.pool (x (ioOf c net route)).2.socket)) _).isSome = true
      rw [hstore]
      rfl

theorem connect_isSome (A : Apr) (v : V) (hostname : Option CString) (pool : Nat)
    (net : Net) (c : Client V) :
    (stompEngineConnect A v hostname pool net c).isSome = decide (pool ∈ c.pools) := by
  unfold Connections.stompEngineConnect
  by_cases hpool : pool ∈ c.pools
  · rw [if_neg (not_not.mpr hpool), decide_eq_true hpool]
    simp only []
    cases Model.stompEngineConnect A net.plan hostname c.engine <;> rfl
  · rw [if_pos hpool, decide_eq_false hpool]
    rfl

/-- The pool of a connection object that points to a socket. -/
def poolWithSocket : Option Cell → Option Nat
  | some (.connection pool (.addr _)) => some pool
  | _ => none

theorem poolWithSocket_filter (b : Option Cell) (pool : Nat) :
    poolWithSocket (b.filter fun v => !decide (v.pool = pool)) =
      (poolWithSocket b).filter (· ≠ pool) := by
  have hkept : ∀ (pool' : Nat) (p : Ptr), pool' ≠ pool →
      poolWithSocket (some (.connection pool' p)) =
        (poolWithSocket (some (.connection pool' p))).filter (· ≠ pool) := by
    intro pool' p hne
    cases p with
    | addr s => simp [poolWithSocket, Option.filter_some, hne]
    | _ => rfl
  cases b with
  | none => rfl
  | some b =>
      rw [Option.filter_some]
      cases b with
      | socket pool' content => split <;> rfl
      | connection pool' p =>
          by_cases hp : pool' = pool
          · cases p <;> simp [Cell.pool, poolWithSocket, Option.filter_some, hp]
          · rw [if_pos (by simp [Cell.pool, hp])]
            exact hkept pool' p hp

omit [DecidableEq V] in
/-- In a heap in order a connection object that points to a socket has one. -/
theorem InOrder.usable {h : Heap Cell} (ho : InOrder h) (a : Nat) :
    usableIn h a = poolWithSocket (h.get a) := by
  unfold usableIn follow
  cases ha : h.get a with
  | none => simp [ha, poolWithSocket]
  | some b =>
      cases b with
      | socket pool content => simp [ha, poolWithSocket]
      | connection pool p =>
          rcases ho.typed ha with rfl | ⟨s, socket, rfl, hs⟩
          · simp [ha, poolWithSocket]
          · simp [ha, hs, poolWithSocket]

omit [DecidableEq V] in
theorem Exchanged.phase {v : V} {route : Route} {io : Io} (hs : Sound c)
    (h : Exchanged c v net route io c') : phaseOf c' = phaseOf c := by
  have hsocket := (hs.heap.socket_of_follow h.follow).2
  have husable : usableIn c'.heap = usableIn c.heap := by
    funext a
    rw [(h.sound hs).heap.usable, hs.heap.usable, h.get]
    split
    · rename_i heq
      rw [heq, hsocket]
      rfl
    · rfl
  unfold phaseOf
  rw [husable, h.next, h.rest]

omit [DecidableEq V] in
theorem usable_connected {pool : Nat} {socket : Socket} (hs : Sound c) :
    usableIn (connected c.heap pool socket) =
      Function.update (usableIn c.heap) c.heap.next (some pool) := by
  have ho := hs.heap.connected pool socket
  funext a
  rw [ho.usable, get_connected, Function.update_apply]
  by_cases hsocket : a = c.heap.next + 1
  · have hfresh := c.heap.fresh a (by omega)
    rw [if_pos hsocket, if_neg (by omega), hs.heap.usable, hfresh]
    rfl
  · rw [if_neg hsocket]
    split
    · rfl
    · rw [hs.heap.usable]

theorem phase_step (c : Client V) (call : EngineCall V) (r : EngineReply)
    (c' : Client V) (hs : Sound c) (h : engineStep A c call = some (r, c')) :
    Sound c' ∧ phaseOf c' = nextPhase (phaseOf c) call := by
  refine ⟨sound_step hs h, ?_⟩
  have hs' := sound_step hs h
  obtain ⟨op, net⟩ := call
  have hstepped : Stepped A c net op r c' := stepped_of_step h
  cases hstepped with
  | poolCreate => rfl
  | @poolDestroy pool =>
      have husable : usableIn (c.heap.sweep (·.pool = pool)) =
          fun a => (usableIn c.heap a).filter (· ≠ pool) := by
        funext a
        rw [(hs.heap.sweep pool).usable, hs.heap.usable, Heap.get_sweep]
        exact poolWithSocket_filter _ pool
      show Phase.mk _ _ _ _ _ = _
      rw [husable]
      rfl
  | assign => rfl
  | connected _ hcreates hestablishes =>
      have hconnects : connects net.plan = true := by
        unfold connects
        rw [decide_eq_true hcreates, decide_eq_true hestablishes]
        rfl
      show Phase.mk _ _ _ _ _ = _
      rw [usable_connected hs]
      simp only [nextPhase, hconnects, if_true]
      rfl
  | halfway _ hcreates hfails =>
      have hconnects : connects net.plan = false := by
        unfold connects
        rw [decide_eq_false hfails, Bool.and_false]
      show Phase.mk _ _ _ _ _ = _
      rw [usable_connected hs]
      simp only [nextPhase, hconnects, Bool.false_eq_true, if_false, if_pos hcreates]
      rfl
  | @refused v hostname pool engine rc _ hfails =>
      have hconnects : connects net.plan = false := by
        unfold connects
        rw [decide_eq_false hfails, Bool.false_and]
      have husable : usableIn (c.heap.alloc (.connection pool .null)) =
          usableIn c.heap := by
        funext a
        rw [(hs.heap.alloc_connection pool).usable, hs.heap.usable, Heap.get_alloc]
        split
        · rename_i heq
          rw [heq, c.heap.fresh _ (Nat.le_refl _)]
          rfl
        · rfl
      show Phase.mk _ _ _ _ _ = _
      rw [husable]
      simp only [nextPhase, hconnects, Bool.false_eq_true, if_false, if_neg hfails]
      rfl
  | setTimeout => rfl
  | write _ hexchanged => exact hexchanged.phase hs
  | read _ _ hexchanged => exact hexchanged.phase hs
  | canRead _ hexchanged => exact hexchanged.phase hs
  | nothing hnull =>
      have hvars : (phaseOf c).vars _ = .null := hnull
      simp only [nextPhase, hvars]
      rfl
  | @released v shutdown close route heap hfollow hget hnext =>
      have hsocket := (hs.heap.socket_of_follow hfollow).2
      obtain ⟨hv, -⟩ := follow_eq_some hfollow
      have husable : usableIn heap =
          Function.update (usableIn c.heap) route.connection none := by
        funext a
        rw [hs'.heap.usable a, hget, Function.update_apply, hs.heap.usable]
        split
        · rfl
        split
        · rename_i heq
          rw [heq, hsocket]
          rfl
        · rfl
      have hvars : (phaseOf c).vars v = .addr route.connection := hv
      simp only [nextPhase, hvars]
      show Phase.mk _ _ _ _ _ = _
      rw [husable, hnext]
      rfl

omit [DecidableEq V] in
theorem follow_congr {h h' : Heap Cell} {a : Nat} (ha : h'.get a = h.get a)
    (hs : ∀ {pool s}, h.get a = some (.connection pool (.addr s)) → h'.get s = h.get s) :
    follow (.addr a) h' = follow (.addr a) h := by
  unfold follow
  simp only [ha]
  split
  · rename_i pool s hconnection
    rw [hs hconnection]
  · rfl

/-- The bytes that were sent on the connection, if it has a socket. -/
def sentOn (h : Heap Cell) (a : Nat) : Option Bytes :=
  (follow (.addr a) h).map (·.content.outbox)

/-- The event is a write through a pointer to the connection. -/
def writesTo (a : Nat) (e : Event (Client V) (EngineCall V) EngineReply) : Bool :=
  match e.call.op with
  | .write v _ _ => e.pre.vars v = .addr a
  | _ => false

/-- What a write adds: its frame, or a part of it if a send fails, and then it reports
that. -/
def PieceOf (e : Event (Client V) (EngineCall V) EngineReply) (bs : Bytes) : Prop :=
  ∃ v frame pool, e.call.op = .write v frame pool ∧ bs <+: encode e.call.net.order frame ∧
    (e.reply = .status none ↔ bs = encode e.call.net.order frame)

/-- What a call does to what was sent on a connection. -/
inductive SentStep (e : Event (Client V) (EngineCall V) EngineReply) (a : Nat) : Prop
  | same (hother : writesTo a e = false)
      (hsame : sentOn e.post.heap a = sentOn e.pre.heap a)
  | wrote {out bs : Bytes} (hwrites : writesTo a e = true)
      (hbefore : sentOn e.pre.heap a = some out)
      (hafter : sentOn e.post.heap a = some (out ++ bs)) (hpiece : PieceOf e bs)
  | born (hother : writesTo a e = false) (hnew : e.pre.heap.next ≤ a)
      (hbefore : sentOn e.pre.heap a = none) (hafter : sentOn e.post.heap a = some [])
  | gone (hbefore : a < e.pre.heap.next) (hafter : sentOn e.post.heap a = none)

omit [DecidableEq V] in
theorem Exchanged.sentOn {v : V} {route : Route} {io : Io} (hs : Sound c)
    (h : Exchanged c v net route io c') (a : Nat) :
    sentOn c'.heap a =
      if a = route.connection then some io.socket.outbox else sentOn c.heap a := by
  obtain ⟨hconnection, hsocket⟩ := hs.heap.socket_of_follow h.follow
  unfold Connections.sentOn
  by_cases ha : a = route.connection
  · subst ha
    have hne : route.connection ≠ route.socket := by
      intro heq
      rw [heq, hsocket] at hconnection
      cases hconnection
    have hconnection' : c'.heap.get route.connection =
        some (.connection route.pool (.addr route.socket)) := by
      rw [h.get, if_neg hne, hconnection]
    have hsocket' : c'.heap.get route.socket =
        some (.socket route.pool io.socket) := by
      rw [h.get, if_pos rfl]
    rw [follow_of_get hconnection' hsocket', if_pos rfl]
    rfl
  · rw [if_neg ha]
    by_cases hsa : a = route.socket
    · -- there is a socket at the address, before and after
      have hbefore : usableIn c.heap a = none := by
        rw [hs.heap.usable, hsa, hsocket]
        rfl
      have hafter : usableIn c'.heap a = none := by
        rw [(h.sound hs).heap.usable, h.get, if_pos hsa]
        rfl
      rw [Option.map_eq_none_iff.mp hbefore, Option.map_eq_none_iff.mp hafter]
    · refine congrArg _ (follow_congr (by rw [h.get, if_neg hsa]) ?_)
      intro pool s hget
      rw [h.get, if_neg]
      rintro rfl
      exact ha (hs.heap.connection_unique hget hconnection)

omit [DecidableEq V] in
/-- A connect does not touch what was sent on other connections. -/
theorem sentOn_connected {pool : Nat} {socket : Socket} (hs : Sound c) (a : Nat) :
    sentOn (connected c.heap pool socket) a =
      if a = c.heap.next then some socket.outbox else sentOn c.heap a := by
  have hget := get_connected c.heap pool socket
  unfold sentOn
  by_cases ha : a = c.heap.next
  · have hconnection : (connected c.heap pool socket).get c.heap.next =
        some (.connection pool (.addr (c.heap.next + 1))) := by
      rw [hget, if_neg (by omega), if_pos rfl]
    have hsocket : (connected c.heap pool socket).get (c.heap.next + 1) =
        some (.socket pool socket) := by
      rw [hget, if_pos rfl]
    rw [if_pos ha, ha, follow_of_get hconnection hsocket]
    rfl
  · rw [if_neg ha]
    by_cases hnew : a = c.heap.next + 1
    · have hbefore : usableIn c.heap a = none := by
        rw [hs.heap.usable, c.heap.fresh a (by omega)]
        rfl
      have hafter : usableIn (connected c.heap pool socket) a = none := by
        rw [(hs.heap.connected pool socket).usable, hget, if_pos hnew]
        rfl
      rw [Option.map_eq_none_iff.mp hbefore, Option.map_eq_none_iff.mp hafter]
    · refine congrArg _ (follow_congr (by rw [hget, if_neg hnew, if_neg ha]) ?_)
      intro pool' s hconnection
      rcases hs.heap.typed hconnection with hnull | ⟨s', socket', heq, hsocket⟩
      · cases hnull
      · obtain rfl := Ptr.addr.inj heq
        have hlt := Heap.lt_next hsocket
        rw [hget, if_neg (by omega), if_neg (by omega)]

omit [DecidableEq V] in
theorem InOrder.sentOn_none {h : Heap Cell} (ho : InOrder h) {a : Nat}
    (hnone : poolWithSocket (h.get a) = none) : Connections.sentOn h a = none := by
  have husable : usableIn h a = none := (ho.usable a).trans hnone
  rw [Connections.sentOn, Option.map_eq_none_iff.mp husable]
  rfl

omit [DecidableEq V] in
theorem poolWithSocket_eq_some {b : Option Cell} {pool : Nat}
    (h : poolWithSocket b = some pool) : ∃ s, b = some (.connection pool (.addr s)) := by
  unfold poolWithSocket at h
  split at h
  · rename_i pool' s
    obtain rfl := Option.some.inj h
    exact ⟨s, rfl⟩
  · cases h

omit [DecidableEq V] in
/-- A connect that did not get a socket does not touch what was sent. -/
theorem sentOn_refused {pool : Nat} (hs : Sound c) (a : Nat) :
    sentOn (c.heap.alloc (.connection pool .null)) a = sentOn c.heap a := by
  have hget := c.heap.get_alloc (.connection pool .null)
  by_cases ha : a = c.heap.next
  · rw [(hs.heap.alloc_connection pool).sentOn_none, hs.heap.sentOn_none]
    · rw [ha, c.heap.fresh _ (Nat.le_refl _)]
      rfl
    · rw [hget, if_pos ha]
      rfl
  · refine congrArg _ (follow_congr (by rw [hget, if_neg ha]) ?_)
    intro pool' s hconnection
    rcases hs.heap.typed hconnection with hnull | ⟨s', socket', heq, hsocket⟩
    · cases hnull
    · obtain rfl := Ptr.addr.inj heq
      rw [hget, if_neg (Nat.ne_of_lt (Heap.lt_next hsocket))]

omit [DecidableEq V] in
/-- The connections of other pools stay when a pool is destroyed. -/
theorem sentOn_sweep (hs : Sound c) (pool a : Nat) :
    sentOn (c.heap.sweep (·.pool = pool)) a = sentOn c.heap a ∨
      a < c.heap.next ∧ sentOn (c.heap.sweep (·.pool = pool)) a = none := by
  have ho := hs.heap.sweep pool
  have hfilter := poolWithSocket_filter (c.heap.get a) pool
  cases hp : poolWithSocket (c.heap.get a) with
  | none =>
      rw [hp] at hfilter
      exact .inl ((ho.sentOn_none hfilter).trans (hs.heap.sentOn_none hp).symm)
  | some pool' =>
      obtain ⟨s, hconnection⟩ := poolWithSocket_eq_some hp
      by_cases hpool : pool' = pool
      · rw [hp, Option.filter_some, if_neg (by simp [hpool])] at hfilter
        exact .inr ⟨Heap.lt_next hconnection, ho.sentOn_none hfilter⟩
      · refine .inl (congrArg _ (follow_congr ?_ ?_))
        · rw [get_sweep_eq_some.mpr ⟨hconnection, hpool⟩, hconnection]
        · intro pool₁ s₁ hconnection₁
          obtain ⟨rfl, hs₁⟩ := Cell.connection.inj
            (Option.some.inj (hconnection.symm.trans hconnection₁))
          rcases hs.heap.typed hconnection₁ with hnull | ⟨s', socket', heq, hsocket⟩
          · cases hnull
          · obtain rfl := Ptr.addr.inj heq
            rw [get_sweep_eq_some.mpr ⟨hsocket, hpool⟩, hsocket]

/-- What `stomp_write` adds, and what it answers. -/
theorem outcome_write {order : HashOrder} {frame : Frame} {io io' : Io}
    {result : Except AprError Unit}
    (h : outcome (Model.stompWrite A order frame) io = (result, io')) :
    ∃ bs, io'.socket.outbox = io.socket.outbox ++ bs ∧ bs <+: encode order frame ∧
      (Connections.written result = .status none ↔ bs = encode order frame) := by
  have hwrites := stompWrite_writes A order frame
  unfold outcome at h
  cases hrun : Model.stompWrite A order frame io with
  | ok a io₁ =>
      rw [hrun] at h
      obtain ⟨rfl, rfl⟩ := Prod.mk.inj h
      exact ⟨_, (hwrites.accepted hrun).outbox, List.prefix_refl _, iff_of_true rfl rfl⟩
  | error rc io₁ =>
      rw [hrun] at h
      obtain ⟨rfl, rfl⟩ := Prod.mk.inj h
      obtain ⟨sent, more, hsplit, hmore, hacc, -⟩ := hwrites.cut hrun
      refine ⟨sent, hacc.outbox, ⟨more, hsplit.symm⟩, iff_of_false (by simp [written]) ?_⟩
      intro hall
      rw [hall] at hsplit
      exact hmore (List.append_right_eq_self.mp hsplit.symm)

/-- What the other functions of `stomp_io.c` add: nothing. -/
theorem outcome_read {io io' : Io} {result : Except AprError Frame}
    (h : outcome (Model.stompRead A) io = (result, io')) :
    io'.socket.outbox = io.socket.outbox := by
  unfold outcome at h
  cases hrun : Model.stompRead A io with
  | ok a io₁ =>
      rw [hrun] at h
      obtain ⟨-, rfl⟩ := Prod.mk.inj h
      exact ((stompRead_receives A).ok hrun).outbox
  | error rc io₁ =>
      rw [hrun] at h
      obtain ⟨-, rfl⟩ := Prod.mk.inj h
      exact ((stompRead_receives A).error hrun).outbox

omit [DecidableEq V] in
/-- Reading from a connection does not change what was sent. -/
theorem Exchanged.sentOn_same {v : V} {route : Route} {io : Io} (hs : Sound c)
    (h : Exchanged c v net route io c')
    (hout : io.socket.outbox = route.content.outbox) (a : Nat) :
    Connections.sentOn c'.heap a = Connections.sentOn c.heap a := by
  rw [h.sentOn hs]
  split
  · rename_i heq
    obtain ⟨hconnection, hsocket⟩ := hs.heap.socket_of_follow h.follow
    rw [heq, Connections.sentOn, follow_of_get hconnection hsocket, hout]
    rfl
  · rfl

theorem sent_step {e : Event (Client V) (EngineCall V) EngineReply} (hs : Sound e.pre)
    (h : engineStep A e.pre e.call = some (e.reply, e.post)) (a : Nat) :
    SentStep e a := by
  obtain ⟨c, ⟨op, net⟩, r, c'⟩ := e
  have hs' : Sound c' := sound_step hs h
  have hstepped : Stepped A c net op r c' := stepped_of_step h
  -- a connect gives rise to one connection
  have hconnect : ∀ {pool : Nat} {socket : Socket} {c₁ : Client V} {v : V}
      {hostname : Option CString} {r : EngineReply},
      c₁.heap = connected c.heap pool socket → socket.outbox = [] →
        SentStep ⟨c, ⟨.connect v hostname pool, net⟩, r, c₁⟩ a := by
    intro pool socket c₁ v hostname r hheap hout
    by_cases ha : a = c.heap.next
    · refine .born rfl (Nat.le_of_eq ha.symm) ?_ ?_
      · rw [sentOn, ha]
        unfold follow
        simp [c.heap.fresh _ (Nat.le_refl _)]
      · show sentOn c₁.heap a = _
        rw [hheap, sentOn_connected hs, if_pos ha, hout]
    · refine .same rfl ?_
      show sentOn c₁.heap a = _
      rw [hheap, sentOn_connected hs, if_neg ha]
  cases hstepped with
  | poolCreate => exact .same rfl rfl
  | @poolDestroy pool =>
      rcases sentOn_sweep hs pool a with hsame | ⟨hlt, hnone⟩
      · exact .same rfl hsame
      · exact .gone hlt hnone
  | assign => exact .same rfl rfl
  | connected _ _ _ hfresh => exact hconnect rfl hfresh
  | halfway _ _ _ hfresh => exact hconnect rfl hfresh
  | refused => exact .same rfl (sentOn_refused hs a)
  | setTimeout => exact .same rfl rfl
  | @write v frame pool route io _ result hio hexchanged =>
      obtain ⟨bs, hout, hprefix, hiff⟩ := outcome_write hio
      obtain ⟨hconnection, hsocket⟩ := hs.heap.socket_of_follow hexchanged.follow
      obtain ⟨hv, -⟩ := follow_eq_some hexchanged.follow
      have hsent := hexchanged.sentOn hs a
      by_cases ha : a = route.connection
      · rw [if_pos ha] at hsent
        refine .wrote ?_ ?_ (hsent.trans (congrArg some hout))
          ⟨v, frame, pool, rfl, hprefix, hiff⟩
        · show decide (c.vars v = .addr a) = true
          rw [hv, ha]
          exact decide_eq_true rfl
        · show sentOn c.heap a = _
          rw [ha, sentOn, follow_of_get hconnection hsocket]
          rfl
      · rw [if_neg ha] at hsent
        refine .same ?_ hsent
        show decide (c.vars v = .addr a) = false
        rw [hv]
        exact decide_eq_false fun heq => ha (Ptr.addr.inj heq).symm
  | read _ hio hexchanged =>
      exact .same rfl (hexchanged.sentOn_same hs (outcome_read hio) a)
  | canRead hio hexchanged =>
      exact .same rfl
        (hexchanged.sentOn_same hs (drained_stompIoCanRead hio).outbox a)
  | nothing => exact .same rfl rfl
  | @released v shutdown close route heap hfollow hget =>
      obtain ⟨hconnection, hsocket⟩ := hs.heap.socket_of_follow hfollow
      by_cases ha : a = route.connection
      · refine .gone (ha ▸ Heap.lt_next hconnection) (hs'.heap.sentOn_none ?_)
        show poolWithSocket (heap.get a) = none
        rw [hget, if_pos ha]
        rfl
      · refine .same rfl ?_
        show sentOn heap a = sentOn c.heap a
        by_cases hsa : a = route.socket
        · rw [hs'.heap.sentOn_none, hs.heap.sentOn_none (by rw [hsa, hsocket]; rfl)]
          rw [hget, if_neg ha, if_pos hsa]
          rfl
        · refine congrArg _ (follow_congr (by rw [hget, if_neg ha, if_neg hsa]) ?_)
          intro pool s hother
          rw [hget, if_neg, if_neg]
          · rintro rfl
            exact ha (hs.heap.connection_unique hother hconnection)
          · rintro rfl
            rcases hs.heap.typed hother with hnull | ⟨s', socket', heq, hsocket'⟩
            · cases hnull
            · obtain rfl := Ptr.addr.inj heq
              cases hsocket'.symm.trans hconnection

/-- A connection that is gone does not come back. -/
theorem gone_run {log : ClientLog V} (h : Run (engineStep A) c log c') (hs : Sound c)
    {a : Nat} (hlt : a < c.heap.next) (hgone : sentOn c.heap a = none) :
    sentOn c'.heap a = none := by
  have hstep : ∀ (c : Client V) (call : EngineCall V) (r : EngineReply) (c' : Client V),
      (Sound c ∧ a < c.heap.next ∧ sentOn c.heap a = none) → True →
        engineStep A c call = some (r, c') →
          Sound c' ∧ a < c'.heap.next ∧ sentOn c'.heap a = none := by
    rintro c call r c' ⟨hs, hlt, hgone⟩ - h
    refine ⟨sound_step hs h, (isOpen_of_step hs h hlt).1, ?_⟩
    have hsent : SentStep ⟨c, call, r, c'⟩ a := sent_step hs h a
    cases hsent with
    | same _ hsame => exact hsame.trans hgone
    | wrote _ hbefore => cases hgone.symm.trans hbefore
    | born _ hnew => exact absurd hnew (Nat.not_le_of_lt hlt)
    | gone _ hafter => exact hafter
  exact (h.invariant_of_guard hstep ⟨hs, hlt, hgone⟩ fun _ _ => trivial).1.2.2

theorem sent_run {log : ClientLog V} (h : Run (engineStep A) c log c') (hs : Sound c)
    {a : Nat} {out : Bytes} (hfinal : sentOn c'.heap a = some out) :
    ∃ pieces, List.Forall₂ PieceOf (log.filter (writesTo a)) pieces ∧
      out = (sentOn c.heap a).getD [] ++ pieces.flatten := by
  induction h with
  | nil c => exact ⟨[], .nil, by rw [hfinal]; simp⟩
  | @cons c₀ c₁ c₂ call r log head rest ih =>
      have hs₁ := sound_step hs head
      obtain ⟨pieces, hpieces, hout⟩ := ih hs₁ hfinal
      have hsent : SentStep ⟨c₀, call, r, c₁⟩ a := sent_step hs head a
      cases hsent with
      | same hother hsame =>
          rw [List.filter_cons_of_neg (by simp [hother])]
          exact ⟨pieces, hpieces, by rw [hout, hsame]⟩
      | @wrote before bs hwrites hbefore hafter hpiece =>
          rw [List.filter_cons_of_pos hwrites]
          refine ⟨bs :: pieces, .cons hpiece hpieces, ?_⟩
          rw [hout, hbefore, hafter]
          simp
      | born hother _ hbefore hafter =>
          rw [List.filter_cons_of_neg (by simp [hother])]
          exact ⟨pieces, hpieces, by rw [hout, hbefore, hafter]; rfl⟩
      | gone hlt hafter =>
          have hnone := gone_run rest hs₁ (isOpen_of_step hs head hlt).1 hafter
          cases hnone.symm.trans hfinal

/-- **Connections do not mix.**  At any moment of any run, what was sent on a connection
that has a socket are the frames of the writes through pointers to it, in the order of
the calls, whichever variables held the pointer and whatever else was written, read,
opened and closed in between; a frame is complete exactly when its write reported
success. -/
theorem writes_of_connection (A : Apr) {log : ClientLog V}
    (h : Run (engineStep A) (Client.start V) log c) {p : Ptr} {route : Route}
    (hfollow : follow p c.heap = some route) :
    ∃ pieces, List.Forall₂ PieceOf (log.filter (writesTo route.connection)) pieces ∧
      route.content.outbox = pieces.flatten := by
  obtain ⟨rfl, -⟩ := follow_eq_some hfollow
  have hfinal : sentOn c.heap route.connection = some route.content.outbox := by
    rw [sentOn, hfollow]
    rfl
  exact sent_run h (sound_start V) hfinal

theorem writes_of_connection_two : ∃ log c route,
    exec (engineStep .sample) (Client.start Nat) twoConnections = some (log, c) ∧
      follow (c.vars 1) c.heap = some route ∧
      ∃ pieces, List.Forall₂ PieceOf (log.filter (writesTo route.connection)) pieces ∧
        route.content.outbox = pieces.flatten := by
  obtain ⟨log, c, hexec, hsome⟩ := twoConnections_run
  obtain ⟨route, hfollow⟩ := Option.isSome_iff_exists.mp hsome
  exact ⟨log, c, route, hexec, hfollow,
    writes_of_connection .sample (exec_run hexec) hfollow⟩

end Calls

end LibStomp.Session.Connections
