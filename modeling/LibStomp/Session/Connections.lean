import LibStomp.Model.Connections
import LibStomp.Session.Custody
import LibStomp.Session.Sockets
import LibStomp.Stream.WriteFrame

/-!
# Sockets of the low-level functions

A connection object owns its socket: no other object points to it, and it lies in
the same pool.  That holds over every run, whatever pointers the application
copies, because `stomp_engine_disconnect` clears the pointer in the object and not
only the variable it was called with.  What a copy of the variable still leads to
is an object without a socket, which no function checks for.

## Main results

* `sockets_in_custody` — every open socket belongs to exactly one connection, and is
  closed once at most: by a disconnect of that connection, or with its pool.
* `stepped_of_step` — what one call can do.
* `sound_step` — what every call keeps.
-/

namespace LibStomp.Session.Connections

open LibStomp.Model
open LibStomp.Model.Memory (Ptr)
open LibStomp.Model.Connections
open LibStomp.Verified.Allocation
open LibStomp.Verified.Runs
open LibStomp.Session.Custody (targets)
open LibStomp.Session.Sockets
open LibStomp.Stream.WriteFrame

/-! ## Who owns which socket -/

def isConnection : Cell → Bool
  | .connection _ _ => true
  | .socket _ _ => false

def socketsOf : Cell → List Nat
  | .connection _ socket => targets socket
  | .socket _ _ => []

/-- Connection objects own their sockets. -/
def custody : Custody Cell where
  isRoot := isConnection
  owned := socketsOf
  owned_leaf b hb := by
    cases b with
    | connection => cases hb
    | socket => rfl

/-- The heap of connection objects and open sockets is in order: a connection object
points to nothing or to an open socket in its own pool. -/
structure InOrder (h : Heap Cell) : Prop where
  tidy : Tidy custody h
  typed : ∀ {a pool p}, h.get a = some (.connection pool p) →
    p = .null ∨ ∃ s socket, p = .addr s ∧ h.get s = some (.socket pool socket)

/-- What holds of every state of a run: what is in the pools is in order, and the pools
are not destroyed. -/
structure Sound {V : Type} (c : Client V) : Prop where
  heap : InOrder c.heap
  pooled : ∀ {a b}, c.heap.get a = some b → b.pool ∈ c.pools

theorem sound_start (V : Type) : Sound (Client.start V) where
  heap := ⟨tidy_empty, fun h => by cases h⟩
  pooled h := by cases h

/-! ## Following pointers -/

theorem follow_eq_some {p : Ptr} {h : Heap Cell} {route : Route}
    (hfollow : follow p h = some route) :
    p = .addr route.connection ∧
      h.get route.connection = some (.connection route.pool (.addr route.socket)) ∧
      ∃ pool, h.get route.socket = some (.socket pool route.content) := by
  unfold follow at hfollow
  split at hfollow
  · rename_i a
    split at hfollow
    · rename_i pool s hconnection
      split at hfollow
      · rename_i pool' content hsocket
        obtain rfl := Option.some.inj hfollow
        exact ⟨rfl, hconnection, pool', hsocket⟩
      · cases hfollow
    · cases hfollow
  · cases hfollow

theorem follow_of_get {h : Heap Cell} {a s pool pool' : Nat} {content : Socket}
    (hconnection : h.get a = some (.connection pool (.addr s)))
    (hsocket : h.get s = some (.socket pool' content)) :
    follow (.addr a) h = some ⟨a, pool, s, content⟩ := by
  unfold follow
  simp only [hconnection, hsocket]

/-- Two connections with one socket are one. -/
theorem InOrder.connection_unique {h : Heap Cell} (ho : InOrder h) {a a' s : Nat}
    {pool pool' : Nat} (ha : h.get a = some (.connection pool (.addr s)))
    (ha' : h.get a' = some (.connection pool' (.addr s))) : a = a' :=
  ho.tidy.once ha ha' (List.mem_singleton_self s) (List.mem_singleton_self s)

/-- A route through a heap in order: the socket is in the pool of the connection. -/
theorem InOrder.socket_of_follow {h : Heap Cell} (ho : InOrder h) {p : Ptr}
    {route : Route} (hfollow : follow p h = some route) :
    h.get route.connection = some (.connection route.pool (.addr route.socket)) ∧
      h.get route.socket = some (.socket route.pool route.content) := by
  obtain ⟨-, hconnection, pool, hsocket⟩ := follow_eq_some hfollow
  refine ⟨hconnection, ?_⟩
  rcases ho.typed hconnection with hnull | ⟨s, socket, hs, hget⟩
  · cases hnull
  · obtain rfl := Ptr.addr.inj hs
    rw [hget] at hsocket ⊢
    obtain ⟨rfl, rfl⟩ := Cell.socket.inj (Option.some.inj hsocket)
    rfl

/-! ## What a call does to the heap -/

section Heaps

variable {h h' : Heap Cell}

/-- An object appears, without a socket. -/
theorem InOrder.alloc_connection (ho : InOrder h) (pool : Nat) :
    InOrder (h.alloc (.connection pool .null)) := by
  have hget := h.get_alloc (.connection pool .null)
  have hchange : RootChange custody h (h.alloc (.connection pool .null)) h.next := by
    have hconnection : (h.alloc (.connection pool .null)).get h.next =
        some (.connection pool .null) := by
      rw [hget, if_pos rfl]
    refine .create (h.fresh _ (Nat.le_refl _)) hconnection rfl List.nodup_nil ?_ ?_ ?_
    · exact fun x hx => absurd hx List.not_mem_nil
    · exact fun x hx => absurd hx List.not_mem_nil
    · exact fun x hx _ => by rw [hget, if_neg hx]
  refine ⟨ho.tidy.change hchange, fun {a pool' p} ha => ?_⟩
  rw [hget] at ha
  split at ha
  · obtain ⟨rfl, rfl⟩ := Cell.connection.inj (Option.some.inj ha)
    exact .inl rfl
  · refine (ho.typed ha).imp_right ?_
    rintro ⟨s, socket, rfl, hs⟩
    exact ⟨s, socket, rfl, by rw [hget, if_neg (Nat.ne_of_lt (Heap.lt_next hs)), hs]⟩

/-- The two blocks of a connect. -/
abbrev connected (h : Heap Cell) (pool : Nat) (socket : Socket) : Heap Cell :=
  (h.alloc (.connection pool (.addr (h.next + 1)))).alloc (.socket pool socket)

theorem get_connected (h : Heap Cell) (pool : Nat) (socket : Socket) (x : Nat) :
    (connected h pool socket).get x =
      if x = h.next + 1 then some (.socket pool socket)
      else if x = h.next then some (.connection pool (.addr (h.next + 1)))
      else h.get x := by
  rw [Heap.get_alloc, Heap.get_alloc, Heap.next_alloc]

/-- An object appears, with its socket. -/
theorem InOrder.connected (ho : InOrder h) (pool : Nat) (socket : Socket) :
    InOrder (connected h pool socket) := by
  have hget := get_connected h pool socket
  have hsocket : (Connections.connected h pool socket).get (h.next + 1) =
      some (.socket pool socket) := by
    rw [hget, if_pos rfl]
  have hconnection : (Connections.connected h pool socket).get h.next =
      some (.connection pool (.addr (h.next + 1))) := by
    rw [hget, if_neg (by omega), if_pos rfl]
  have hchange : RootChange custody h (Connections.connected h pool socket) h.next := by
    refine .create (h.fresh _ (Nat.le_refl _)) hconnection rfl
      (List.nodup_singleton _) ?_ ?_ ?_
    · intro x hx
      obtain rfl := List.mem_singleton.mp hx
      exact h.fresh _ (Nat.le_succ _)
    · intro x hx
      obtain rfl := List.mem_singleton.mp hx
      exact ⟨_, hsocket, rfl⟩
    · intro x hx hne
      rw [hget, if_neg (fun heq => hne (List.mem_singleton.mpr heq)), if_neg hx]
  refine ⟨ho.tidy.change hchange, fun {a pool' p} ha => ?_⟩
  rw [hget] at ha
  split at ha
  · cases Option.some.inj ha
  split at ha
  · obtain ⟨rfl, rfl⟩ := Cell.connection.inj (Option.some.inj ha)
    exact .inr ⟨_, socket, rfl, hsocket⟩
  · refine (ho.typed ha).imp_right ?_
    rintro ⟨s, socket', rfl, hs⟩
    have hlt := Heap.lt_next hs
    exact ⟨s, socket', rfl, by rw [hget, if_neg (by omega), if_neg (by omega), hs]⟩

/-- The socket of a connection goes. -/
theorem InOrder.release (ho : InOrder h) {a s pool : Nat} {socket : Socket}
    (ha : h.get a = some (.connection pool (.addr s)))
    (hs : h.get s = some (.socket pool socket))
    (hget : ∀ x, h'.get x = if x = a then some (.connection pool .null)
      else if x = s then none else h.get x) : InOrder h' := by
  have has : s ≠ a := by
    rintro rfl
    cases hs.symm.trans ha
  have hchange : RootChange custody h h' a := by
    have hold : custody.owned (.connection pool (.addr s)) = [] ++ [s] := rfl
    have hnew : custody.owned (.connection pool .null) = [] ++ [] := rfl
    refine .replace ho.tidy ha rfl rfl hold hnew ?_ List.nodup_nil
      (by rw [hget, if_pos rfl]) ?_ ?_ ?_
    · exact fun x hx => absurd hx List.not_mem_nil
    · exact fun x hx => absurd hx List.not_mem_nil
    · intro x hx
      obtain rfl := List.mem_singleton.mp hx
      rw [hget, if_neg has, if_pos rfl]
    · intro x hxa hx _
      rw [hget, if_neg hxa, if_neg (fun heq => hx (List.mem_singleton.mpr heq))]
  refine ⟨ho.tidy.change hchange, fun {a' pool' p} ha' => ?_⟩
  rw [hget] at ha'
  split at ha'
  · obtain ⟨rfl, rfl⟩ := Cell.connection.inj (Option.some.inj ha')
    exact .inl rfl
  split at ha'
  · cases ha'
  · rename_i hne _
    refine (ho.typed ha').imp_right ?_
    rintro ⟨s', socket', rfl, hs'⟩
    refine ⟨s', socket', rfl, ?_⟩
    have hsa : s' ≠ a := by
      rintro rfl
      cases hs'.symm.trans ha
    have hss : s' ≠ s := by
      rintro rfl
      exact hne (ho.connection_unique ha' ha)
    rw [hget, if_neg hsa, if_neg hss, hs']

/-- A socket changes. -/
theorem InOrder.transfer (ho : InOrder h) {a s pool : Nat} {socket socket' : Socket}
    (ha : h.get a = some (.connection pool (.addr s)))
    (hs : h.get s = some (.socket pool socket))
    (hget : ∀ x, h'.get x = if x = s then some (.socket pool socket') else h.get x) :
    InOrder h' := by
  have has : a ≠ s := by
    rintro rfl
    cases hs.symm.trans ha
  have ha' : h'.get a = some (.connection pool (.addr s)) := by
    rw [hget, if_neg has, ha]
  have hs' : h'.get s = some (.socket pool socket') := by rw [hget, if_pos rfl]
  have howned : ownedBy custody (some (.connection pool (.addr s))) = [s] := rfl
  have hchange : RootChange custody h h' a := by
    refine ⟨?_, ?_, ?_, ?_, ?_, ?_, ?_⟩
    · intro b hb
      obtain rfl := Option.some.inj (ha.symm.trans hb)
      rfl
    · intro b hb
      obtain rfl := Option.some.inj (ha'.symm.trans hb)
      rfl
    · rw [ha', howned]
      exact List.nodup_singleton _
    · rw [ha, ha']
      exact fun x hx => .inl hx
    · rw [ha', howned]
      intro x hx
      obtain rfl := List.mem_singleton.mp hx
      exact ⟨_, hs', rfl⟩
    · rw [ha, ha']
      exact fun x hx hx' => absurd hx hx'
    · rw [ha, howned]
      intro x _ hx _
      rw [hget, if_neg (fun heq => hx (List.mem_singleton.mpr heq))]
  refine ⟨ho.tidy.change hchange, fun {b pool' p} hb => ?_⟩
  rw [hget] at hb
  split at hb
  · cases Option.some.inj hb
  · refine (ho.typed hb).imp_right ?_
    rintro ⟨t, content, rfl, ht⟩
    by_cases hts : t = s
    · subst hts
      obtain ⟨rfl, rfl⟩ := Cell.socket.inj (Option.some.inj (ht.symm.trans hs))
      exact ⟨t, socket', rfl, hs'⟩
    · exact ⟨t, content, rfl, by rw [hget, if_neg hts, ht]⟩

/-- What is left when a pool is destroyed. -/
theorem get_sweep_eq_some {pool a : Nat} {b : Cell} :
    (h.sweep (·.pool = pool)).get a = some b ↔ h.get a = some b ∧ b.pool ≠ pool := by
  rw [Heap.get_sweep, Option.filter_eq_some_iff]
  simp

/-- A pool goes with all that is in it. -/
theorem InOrder.sweep (ho : InOrder h) (pool : Nat) :
    InOrder (h.sweep (·.pool = pool)) := by
  have hsame : ∀ {a b x l}, h.get a = some b → x ∈ custody.owned b → h.get x = some l →
      l.pool = b.pool := by
    intro a b x l hb hx hl
    cases b with
    | socket => exact absurd hx List.not_mem_nil
    | connection pool' p =>
        rcases ho.typed hb with rfl | ⟨s, socket, rfl, hs⟩
        · exact absurd hx List.not_mem_nil
        · obtain rfl := List.mem_singleton.mp hx
          obtain rfl := Option.some.inj (hs.symm.trans hl)
          rfl
  refine ⟨ho.tidy.sweep fun hb hx hl => ?_, fun {a pool' p} ha => ?_⟩
  · rw [hsame hb hx hl]
  · obtain ⟨hold, hne⟩ := get_sweep_eq_some.mp ha
    refine (ho.typed hold).imp_right ?_
    rintro ⟨s, socket, rfl, hs⟩
    exact ⟨s, socket, rfl, get_sweep_eq_some.mpr ⟨hs, hne⟩⟩

end Heaps

/-! ## What a call can do -/

section Calls

variable {V : Type} [DecidableEq V] {A : Apr} {c c' : Client V} {net : Net}

/-- A function of `stomp_io.c` has worked on the socket a variable leads to. -/
structure Exchanged (c : Client V) (v : V) (net : Net) (route : Route) (io : Io)
    (c' : Client V) : Prop where
  follow : follow (c.vars v) c.heap = some route
  get : ∀ x, c'.heap.get x =
    if x = route.socket then some (.socket route.pool io.socket) else c.heap.get x
  next : c'.heap.next = c.heap.next
  rest : c' = { c with heap := c'.heap, ioError := io.error }

/-- What the function works on. -/
def ioOf (c : Client V) (net : Net) (route : Route) : Io :=
  ⟨arrive net route.content, c.ioError, net.endline⟩

omit [DecidableEq V] in
theorem onSocket_eq_some {α : Type} {v : V} {x : Io → α × Io} {a : α}
    (h : onSocket v net x c = some (a, c')) :
    ∃ route io, x (ioOf c net route) = (a, io) ∧ Exchanged c v net route io c' := by
  unfold onSocket at h
  obtain ⟨route, hfollow, hrest⟩ := Option.bind_eq_some_iff.mp h
  obtain ⟨heap, hstore, hpair⟩ := Option.bind_eq_some_iff.mp hrest
  obtain ⟨rfl, rfl⟩ := Prod.mk.inj (Option.some.inj hpair)
  obtain ⟨-, hnext, hget⟩ := Heap.store_eq_some hstore
  exact ⟨route, _, rfl, hfollow, hget, hnext, rfl⟩

/-- The outcomes of one call. -/
inductive Stepped (A : Apr) (c : Client V) (net : Net) :
    EngineOp V → EngineReply → Client V → Prop
  | poolCreate : Stepped A c net .poolCreate .done (aprPoolCreate c)
  | poolDestroy {pool : Nat} (hpool : pool ∈ c.pools) :
      Stepped A c net (.poolDestroy pool) .done { c with
        heap := c.heap.sweep (·.pool = pool)
        pools := c.pools.filter (· ≠ pool) }
  | assign (target source : V) :
      Stepped A c net (.assign target source) .done
        { c with vars := Function.update c.vars target (c.vars source) }
  | connected {v : V} {hostname : Option CString} {pool : Nat} {socket : Socket}
      {engine : Engine} (hpool : pool ∈ c.pools) (hcreates : Creates net.plan)
      (hestablishes : Establishes net.plan) (hfresh : socket.outbox = []) :
      Stepped A c net (.connect v hostname pool) (.status none) { c with
        heap := connected c.heap pool socket
        engine := engine
        vars := Function.update c.vars v (.addr c.heap.next) }
  | halfway {v : V} {hostname : Option CString} {pool : Nat} {socket : Socket}
      {engine : Engine} {rc : AprError} (hpool : pool ∈ c.pools)
      (hcreates : Creates net.plan) (hfails : ¬ Establishes net.plan)
      (hfresh : socket.outbox = []) :
      Stepped A c net (.connect v hostname pool) (.status (some rc)) { c with
        heap := connected c.heap pool socket
        engine := engine }
  | refused {v : V} {hostname : Option CString} {pool : Nat} {engine : Engine}
      {rc : AprError} (hpool : pool ∈ c.pools) (hfails : ¬ Creates net.plan) :
      Stepped A c net (.connect v hostname pool) (.status (some rc)) { c with
        heap := c.heap.alloc (.connection pool .null)
        engine := engine }
  | setTimeout {v : V} {result : Option AprError} {route : Route}
      (hfollow : follow (c.vars v) c.heap = some route) :
      Stepped A c net (.setTimeout v result) (.status result) c
  | write {v : V} {frame : Frame} {pool : Nat} {route : Route} {io : Io}
      {c' : Client V} {result : Except AprError Unit}
      (hio : outcome (Model.stompWrite A net.order frame) (ioOf c net route) =
        (result, io))
      (h : Exchanged c v net route io c') :
      Stepped A c net (.write v frame pool) (Connections.written result) c'
  | read {v : V} {pool : Nat} {route : Route} {io : Io} {c' : Client V}
      {result : Except AprError Frame} (hpool : pool ∈ c.pools)
      (hio : outcome (Model.stompRead A) (ioOf c net route) = (result, io))
      (h : Exchanged c v net route io c') :
      Stepped A c net (.read v pool) (.frame result) c'
  | canRead {v : V} {route : Route} {io : Io} {c' : Client V} {b : Bool}
      (hio : stompIoCanRead (ioOf c net route) = (b, io))
      (h : Exchanged c v net route io c') : Stepped A c net (.canRead v) (.ready b) c'
  | nothing {v : V} {shutdown close : Option AprError} {engine : Engine}
      (hnull : c.vars v = .null) :
      Stepped A c net (.disconnect (some v) shutdown close) (.status (some .egeneral))
        { c with engine := engine }
  | released {v : V} {shutdown close : Option AprError} {route : Route}
      {heap : Heap Cell} (hfollow : follow (c.vars v) c.heap = some route)
      (hget : ∀ x, heap.get x =
        if x = route.connection then some (.connection route.pool .null)
        else if x = route.socket then none else c.heap.get x)
      (hnext : heap.next = c.heap.next) :
      Stepped A c net (.disconnect (some v) shutdown close) (.status close) { c with
        heap := heap
        vars := Function.update c.vars v .null }

theorem stepped_of_connect {v : V} {hostname : Option CString} {pool : Nat}
    {rc : Option AprError}
    (h : stompEngineConnect A v hostname pool net c = some (rc, c')) :
    Stepped A c net (.connect v hostname pool) (.status rc) c' := by
  unfold Connections.stompEngineConnect at h
  split at h
  · cases h
  have hpool : pool ∈ c.pools := not_not.mp ‹_›
  have houtcome := engineConnect_outcome A net.plan hostname c.engine
  cases hengine : Model.stompEngineConnect A net.plan hostname c.engine with
  | ok descriptor engine =>
      rw [hengine] at houtcome h
      obtain ⟨rfl, rfl⟩ := Prod.mk.inj (Option.some.inj h)
      exact .connected hpool houtcome.1 houtcome.2.1 rfl
  | error rc engine =>
      rw [hengine] at houtcome h
      obtain ⟨hfails, hsockets⟩ := houtcome
      obtain ⟨rfl, rfl⟩ := Prod.mk.inj (Option.some.inj h)
      by_cases hcreates : Creates net.plan
      · rw [socketsAfter, if_pos hcreates] at hsockets
        rw [if_neg (by rw [hsockets]; exact Nat.succ_ne_self _)]
        exact .halfway hpool hcreates (hfails hcreates) rfl
      · rw [socketsAfter, if_neg hcreates] at hsockets
        rw [if_pos (by rw [hsockets])]
        exact .refused hpool hcreates

theorem stepped_of_disconnect {ref : Option V} {shutdown close rc : Option AprError}
    (h : stompEngineDisconnect ref shutdown close c = some (rc, c')) :
    Stepped A c net (.disconnect ref shutdown close) (.status rc) c' := by
  unfold stompEngineDisconnect at h
  cases ref with
  | none => cases h
  | some v =>
      simp only [] at h
      split at h
      · obtain ⟨rfl, rfl⟩ := Prod.mk.inj (Option.some.inj h)
        exact .nothing ‹_›
      · obtain ⟨route, hfollow, hrest⟩ := Option.bind_eq_some_iff.mp h
        obtain ⟨h₁, hfree, hrest⟩ := Option.bind_eq_some_iff.mp hrest
        obtain ⟨h₂, hstore, hpair⟩ := Option.bind_eq_some_iff.mp hrest
        obtain ⟨rfl, rfl⟩ := Prod.mk.inj (Option.some.inj hpair)
        obtain ⟨-, hnext₁, hget₁⟩ := Heap.free_eq_some hfree
        obtain ⟨-, hnext₂, hget₂⟩ := Heap.store_eq_some hstore
        refine .released hfollow (fun x => ?_) (hnext₂.trans hnext₁)
        rw [hget₂, hget₁]

theorem stepped_of_step {call : EngineCall V} {r : EngineReply}
    (h : engineStep A c call = some (r, c')) :
    Stepped A c call.net call.op r c' := by
  obtain ⟨op, net⟩ := call
  cases op with
  | poolCreate =>
      obtain ⟨rfl, rfl⟩ := Prod.mk.inj (Option.some.inj h)
      exact .poolCreate
  | poolDestroy pool =>
      obtain ⟨c₁, hrun, hpair⟩ := Option.map_eq_some_iff.mp h
      obtain ⟨rfl, rfl⟩ := Prod.mk.inj hpair
      unfold aprPoolDestroy at hrun
      split at hrun
      · obtain rfl := Option.some.inj hrun
        exact .poolDestroy ‹_›
      · cases hrun
  | assign target source =>
      obtain ⟨rfl, rfl⟩ := Prod.mk.inj (Option.some.inj h)
      exact .assign target source
  | connect v hostname pool =>
      obtain ⟨⟨rc, c₁⟩, hrun, hpair⟩ := Option.map_eq_some_iff.mp h
      obtain ⟨rfl, rfl⟩ := Prod.mk.inj hpair
      exact stepped_of_connect hrun
  | setTimeout v result =>
      obtain ⟨⟨rc, c₁⟩, hrun, hpair⟩ := Option.map_eq_some_iff.mp h
      obtain ⟨rfl, rfl⟩ := Prod.mk.inj hpair
      obtain ⟨route, hfollow, hp⟩ := Option.map_eq_some_iff.mp hrun
      obtain ⟨rfl, rfl⟩ := Prod.mk.inj hp
      exact .setTimeout hfollow
  | write v frame pool =>
      obtain ⟨⟨result, c₁⟩, hrun, hpair⟩ := Option.map_eq_some_iff.mp h
      obtain ⟨rfl, rfl⟩ := Prod.mk.inj hpair
      obtain ⟨_, -, hrun⟩ := Option.bind_eq_some_iff.mp hrun
      simp only [] at hrun
      split at hrun
      · obtain ⟨route, io, hio, hexchanged⟩ := onSocket_eq_some hrun
        exact .write hio hexchanged
      · cases hrun
  | read v pool =>
      obtain ⟨⟨result, c₁⟩, hrun, hpair⟩ := Option.map_eq_some_iff.mp h
      obtain ⟨rfl, rfl⟩ := Prod.mk.inj hpair
      unfold Model.Connections.stompRead at hrun
      split at hrun
      · obtain ⟨route, io, hio, hexchanged⟩ := onSocket_eq_some hrun
        exact .read ‹_› hio hexchanged
      · cases hrun
  | canRead v =>
      obtain ⟨⟨b, c₁⟩, hrun, hpair⟩ := Option.map_eq_some_iff.mp h
      obtain ⟨rfl, rfl⟩ := Prod.mk.inj hpair
      obtain ⟨route, io, hio, hexchanged⟩ := onSocket_eq_some hrun
      exact .canRead hio hexchanged
  | disconnect ref shutdown close =>
      obtain ⟨⟨rc, c₁⟩, hrun, hpair⟩ := Option.map_eq_some_iff.mp h
      obtain ⟨rfl, rfl⟩ := Prod.mk.inj hpair
      exact stepped_of_disconnect hrun

/-! ## Sockets are in custody -/

omit [DecidableEq V] in
theorem Exchanged.sound {v : V} {route : Route} {io : Io} (hs : Sound c)
    (h : Exchanged c v net route io c') : Sound c' := by
  obtain ⟨hconnection, hsocket⟩ := hs.heap.socket_of_follow h.follow
  have hpools : c'.pools = c.pools := by rw [h.rest]
  have hpool : route.pool ∈ c.pools := hs.pooled hsocket
  refine ⟨hs.heap.transfer hconnection hsocket h.get, fun {a b} hb => ?_⟩
  rw [hpools]
  rw [h.get] at hb
  split at hb
  · obtain rfl := Option.some.inj hb
    exact hpool
  · exact hs.pooled hb

theorem sound_step {call : EngineCall V} {r : EngineReply} (hs : Sound c)
    (h : engineStep A c call = some (r, c')) : Sound c' := by
  obtain ⟨op, net⟩ := call
  have hstepped : Stepped A c net op r c' := stepped_of_step h
  -- what a connect leaves lies in its pool
  have hconnected : ∀ {pool : Nat} {socket : Socket} {a : Nat} {b : Cell},
      pool ∈ c.pools → (connected c.heap pool socket).get a = some b →
        b.pool ∈ c.pools := by
    intro pool socket a b hpool hb
    rw [get_connected] at hb
    split at hb
    · obtain rfl := Option.some.inj hb
      exact hpool
    split at hb
    · obtain rfl := Option.some.inj hb
      exact hpool
    · exact hs.pooled hb
  cases hstepped with
  | poolCreate => exact ⟨hs.heap, fun hb => List.mem_cons_of_mem _ (hs.pooled hb)⟩
  | poolDestroy hpool =>
      refine ⟨hs.heap.sweep _, fun {a b} hb => ?_⟩
      obtain ⟨hold, hne⟩ := get_sweep_eq_some.mp hb
      exact List.mem_filter.mpr ⟨hs.pooled hold, decide_eq_true hne⟩
  | assign => exact ⟨hs.heap, hs.pooled⟩
  | connected hpool => exact ⟨hs.heap.connected _ _, hconnected hpool⟩
  | halfway hpool => exact ⟨hs.heap.connected _ _, hconnected hpool⟩
  | @refused v hostname pool engine rc hpool =>
      refine ⟨hs.heap.alloc_connection pool, fun {a b} hb => ?_⟩
      rw [Heap.get_alloc] at hb
      split at hb
      · obtain rfl := Option.some.inj hb
        exact hpool
      · exact hs.pooled hb
  | setTimeout => exact hs
  | write _ hexchanged => exact hexchanged.sound hs
  | read _ _ hexchanged => exact hexchanged.sound hs
  | canRead _ hexchanged => exact hexchanged.sound hs
  | nothing => exact ⟨hs.heap, hs.pooled⟩
  | @released v shutdown close route heap hfollow hget =>
      obtain ⟨hconnection, hsocket⟩ := hs.heap.socket_of_follow hfollow
      have hpool : route.pool ∈ c.pools := hs.pooled hsocket
      refine ⟨hs.heap.release hconnection hsocket hget, fun {a b} hb => ?_⟩
      rw [hget] at hb
      split at hb
      · obtain rfl := Option.some.inj hb
        exact hpool
      split at hb
      · cases hb
      · exact hs.pooled hb

/-- There is an open socket at the address. -/
def IsOpen (c : Client V) (s : Nat) : Prop :=
  ∃ pool socket, c.heap.get s = some (.socket pool socket)

/-- The call is the one that may close the socket: a disconnect through a pointer to its
connection, or the destruction of its pool. -/
inductive Closes (c : Client V) (s : Nat) : EngineOp V → Prop
  | disconnect {v : V} {shutdown close : Option AprError} {route : Route}
      (hfollow : follow (c.vars v) c.heap = some route) (hs : route.socket = s) :
      Closes c s (.disconnect (some v) shutdown close)
  | poolDestroy {pool : Nat} {socket : Socket}
      (hs : c.heap.get s = some (.socket pool socket)) : Closes c s (.poolDestroy pool)

omit [DecidableEq V] in
theorem isOpen_connected {pool s : Nat} {socket : Socket}
    (h : ∃ pool' content, c.heap.get s = some (.socket pool' content)) :
    ∃ pool' content,
      (connected c.heap pool socket).get s = some (.socket pool' content) := by
  obtain ⟨pool', content, hs⟩ := h
  have hlt := Heap.lt_next hs
  exact ⟨pool', content,
    by rw [get_connected, if_neg (by omega), if_neg (by omega), hs]⟩

omit [DecidableEq V] in
theorem Exchanged.isOpen_iff {v : V} {route : Route} {io : Io} (hs : Sound c)
    (h : Exchanged c v net route io c') (s : Nat) : IsOpen c' s ↔ IsOpen c s := by
  unfold IsOpen
  rw [h.get]
  by_cases hsocket : s = route.socket
  · rw [if_pos hsocket, hsocket, (hs.heap.socket_of_follow h.follow).2]
    exact iff_of_true ⟨_, _, rfl⟩ ⟨_, _, rfl⟩
  · rw [if_neg hsocket]

/-- An open socket stays open or is closed by such a call. -/
theorem closes_of_step {call : EngineCall V} {r : EngineReply} (hs : Sound c)
    (h : engineStep A c call = some (r, c')) {s : Nat} (hopen : IsOpen c s)
    (hclosed : ¬ IsOpen c' s) : Closes c s call.op := by
  obtain ⟨op, net⟩ := call
  have hstepped : Stepped A c net op r c' := stepped_of_step h
  cases hstepped with
  | poolCreate => exact absurd hopen hclosed
  | @poolDestroy pool hpool =>
      obtain ⟨pool', socket, hget⟩ := hopen
      by_cases hne : pool' = pool
      · subst hne
        exact .poolDestroy hget
      · exact absurd ⟨pool', socket, get_sweep_eq_some.mpr ⟨hget, hne⟩⟩ hclosed
  | assign => exact absurd hopen hclosed
  | connected => exact absurd (isOpen_connected hopen) hclosed
  | halfway => exact absurd (isOpen_connected hopen) hclosed
  | refused =>
      obtain ⟨pool', socket, hget⟩ := hopen
      refine absurd ⟨pool', socket, ?_⟩ hclosed
      rw [Heap.get_alloc, if_neg (Nat.ne_of_lt (Heap.lt_next hget)), hget]
  | setTimeout => exact absurd hopen hclosed
  | write _ hexchanged => exact absurd ((hexchanged.isOpen_iff hs s).mpr hopen) hclosed
  | read _ _ hexchanged => exact absurd ((hexchanged.isOpen_iff hs s).mpr hopen) hclosed
  | canRead _ hexchanged =>
      exact absurd ((hexchanged.isOpen_iff hs s).mpr hopen) hclosed
  | nothing => exact absurd hopen hclosed
  | @released v shutdown close route heap hfollow hget =>
      by_cases hsocket : route.socket = s
      · exact .disconnect hfollow hsocket
      · obtain ⟨pool', socket, hold⟩ := hopen
        refine absurd ⟨pool', socket, ?_⟩ hclosed
        have hconnection := (hs.heap.socket_of_follow hfollow).1
        have hne : s ≠ route.connection := by
          rintro rfl
          cases hold.symm.trans hconnection
        exact (hget s).trans (by rw [if_neg hne, if_neg (Ne.symm hsocket), hold])

/-- An address that was given out is not given out again. -/
theorem isOpen_of_step {call : EngineCall V} {r : EngineReply} (hs : Sound c)
    (h : engineStep A c call = some (r, c')) {s : Nat} (hlt : s < c.heap.next) :
    s < c'.heap.next ∧ (IsOpen c' s → IsOpen c s) := by
  obtain ⟨op, net⟩ := call
  have hstepped : Stepped A c net op r c' := stepped_of_step h
  have hconnected : ∀ {pool : Nat} {socket : Socket},
      s < (connected c.heap pool socket).next ∧
        ((∃ pool' content,
          (connected c.heap pool socket).get s = some (.socket pool' content)) →
            IsOpen c s) := by
    intro pool socket
    refine ⟨Nat.lt_succ_of_lt (Nat.lt_succ_of_lt hlt), ?_⟩
    rw [get_connected, if_neg (by omega), if_neg (by omega)]
    exact id
  have hexchange : ∀ {v : V} {route : Route} {io : Io} {c₁ : Client V},
      Exchanged c v net route io c₁ →
        s < c₁.heap.next ∧ (IsOpen c₁ s → IsOpen c s) := by
    intro v route io c₁ hexchanged
    rw [hexchanged.next, hexchanged.isOpen_iff hs]
    exact ⟨hlt, id⟩
  cases hstepped with
  | poolCreate => exact ⟨hlt, id⟩
  | poolDestroy =>
      refine ⟨hlt, ?_⟩
      rintro ⟨pool', socket, hget⟩
      exact ⟨pool', socket, (get_sweep_eq_some.mp hget).1⟩
  | assign => exact ⟨hlt, id⟩
  | connected => exact hconnected
  | halfway => exact hconnected
  | refused =>
      refine ⟨Nat.lt_succ_of_lt hlt, ?_⟩
      rintro ⟨pool', socket, hget⟩
      rw [Heap.get_alloc, if_neg (Nat.ne_of_lt hlt)] at hget
      exact ⟨pool', socket, hget⟩
  | setTimeout => exact ⟨hlt, id⟩
  | write _ hexchanged => exact hexchange hexchanged
  | read _ _ hexchanged => exact hexchange hexchanged
  | canRead _ hexchanged => exact hexchange hexchanged
  | nothing => exact ⟨hlt, id⟩
  | released hfollow hget hnext =>
      refine ⟨hnext ▸ hlt, ?_⟩
      rintro ⟨pool', socket, hnew⟩
      have hold := (hget s).symm.trans hnew
      split at hold
      · cases hold
      split at hold
      · cases hold
      · exact ⟨pool', socket, hold⟩

/-- The run of an application. -/
abbrev ClientLog (V : Type) := List (Event (Client V) (EngineCall V) EngineReply)

theorem sound_run {log : ClientLog V} (h : Run (engineStep A) c log c')
    (hs : Sound c) : Sound c' ∧ ∀ e ∈ log, Sound e.pre ∧ Sound e.post := by
  have hstep : ∀ (c : Client V) (call : EngineCall V) (r : EngineReply) (c' : Client V),
      Sound c → True → engineStep A c call = some (r, c') → Sound c' :=
    fun _ _ _ _ hs _ h => sound_step hs h
  exact h.invariant_of_guard hstep hs fun _ _ => trivial

/-- What is closed stays closed. -/
theorem closed_run {log : ClientLog V} (h : Run (engineStep A) c log c')
    (hs : Sound c) {s : Nat} (hlt : s < c.heap.next) (hclosed : ¬ IsOpen c s) :
    ¬ IsOpen c' s := by
  have hstep : ∀ (c : Client V) (call : EngineCall V) (r : EngineReply) (c' : Client V),
      (Sound c ∧ s < c.heap.next ∧ ¬ IsOpen c s) → True →
        engineStep A c call = some (r, c') →
          Sound c' ∧ s < c'.heap.next ∧ ¬ IsOpen c' s := by
    rintro c call r c' ⟨hs, hlt, hclosed⟩ - h
    obtain ⟨hlt', hopen⟩ := isOpen_of_step hs h hlt
    exact ⟨sound_step hs h, hlt', fun hnew => hclosed (hopen hnew)⟩
  exact (h.invariant_of_guard hstep ⟨hs, hlt, hclosed⟩ fun _ _ => trivial).1.2.2

/-- Two connections in one pool, the second one by a copy of its pointer, too. -/
def twoConnections : List (EngineCall Nat) :=
  [⟨.poolCreate, .quiet []⟩,
    ⟨.connect 0 (some (.lit "localhost")) 0, .quiet []⟩,
    ⟨.connect 1 (some (.lit "localhost")) 0, .quiet []⟩,
    ⟨.assign 2 1, .quiet []⟩,
    ⟨.write 0 ⟨.lit "CONNECT", none, none, toSize (-1)⟩ 0, .quiet []⟩,
    ⟨.write 2 ⟨.lit "CONNECT", none, none, toSize (-1)⟩ 0, .quiet []⟩,
    ⟨.disconnect (some 0) none none, .quiet []⟩,
    ⟨.disconnect (some 0) none none, .quiet []⟩]

theorem twoConnections_run : ∃ log c,
    exec (engineStep .sample) (Client.start Nat) twoConnections = some (log, c) ∧
      (follow (c.vars 1) c.heap).isSome = true := by
  have hrun : ((exec (engineStep .sample) (Client.start Nat) twoConnections).map
      fun p => (follow (p.2.vars 1) p.2.heap).isSome) = some true := by
    decide +kernel
  obtain ⟨⟨log, c⟩, hexec, hroute⟩ := Option.map_eq_some_iff.mp hrun
  exact ⟨log, c, hexec, hroute⟩

/-- What holds of the connections and sockets after these calls. -/
structure InCustody (log : ClientLog V) (c : Client V) : Prop where
  owner : ∀ s pool socket, c.heap.get s = some (.socket pool socket) →
    pool ∈ c.pools ∧ ∃ a, c.heap.get a = some (.connection pool (.addr s)) ∧
      ∀ a' pool', c.heap.get a' = some (.connection pool' (.addr s)) → a' = a
  connection : ∀ a pool p, c.heap.get a = some (.connection pool p) →
    p = .null ∨ ∃ s socket, p = .addr s ∧ c.heap.get s = some (.socket pool socket)
  closed : ∀ e ∈ log, ∀ s, IsOpen e.pre s → ¬ IsOpen e.post s →
    Closes e.pre s e.call.op ∧ ¬ IsOpen c s

/-- **Sockets are in custody.**  However an application copies its pointers and whatever
the network does: an open socket belongs to exactly one connection object, in a pool
that is not destroyed; a connection object has an open socket or none; and a socket is
closed only by a disconnect through a pointer to its connection or with its pool,
and then it is closed for good. -/
theorem sockets_in_custody (A : Apr) {log : ClientLog V}
    (h : Run (engineStep A) (Client.start V) log c) : InCustody log c := by
  obtain ⟨hs, hevents⟩ := sound_run h (sound_start V)
  refine ⟨fun s pool socket hsocket => ⟨hs.pooled hsocket, ?_⟩,
    fun a pool p ha => hs.heap.typed ha, fun e he s hopen hclosed => ?_⟩
  · obtain ⟨a, b, hb, hmem⟩ := hs.heap.tidy.reached hsocket rfl
    cases b with
    | socket => exact absurd hmem List.not_mem_nil
    | connection pool' p =>
        rcases hs.heap.typed hb with rfl | ⟨s', socket', rfl, hs'⟩
        · exact absurd hmem List.not_mem_nil
        · obtain rfl := List.mem_singleton.mp hmem
          obtain ⟨rfl, -⟩ := Cell.socket.inj (Option.some.inj (hs'.symm.trans hsocket))
          exact ⟨a, hb, fun a' pool' ha' => hs.heap.connection_unique ha' hb⟩
  · obtain ⟨hpre, hpost⟩ := hevents e he
    have hstep := h.step_of_mem he
    refine ⟨closes_of_step hpre hstep hopen hclosed, ?_⟩
    obtain ⟨xs, ys, rfl⟩ := List.append_of_mem he
    obtain ⟨c₁, -, hrest⟩ := h.split
    obtain ⟨pool, socket, hget⟩ := hopen
    cases hrest with
    | cons _ htail =>
        exact closed_run htail hpost (isOpen_of_step hpre hstep (Heap.lt_next hget)).1
          hclosed

theorem sockets_in_custody_two : ∃ log c,
    exec (engineStep .sample) (Client.start Nat) twoConnections = some (log, c) ∧
      InCustody log c := by
  obtain ⟨log, c, hexec, -⟩ := twoConnections_run
  exact ⟨log, c, hexec, sockets_in_custody .sample (exec_run hexec)⟩

end Calls

end LibStomp.Session.Connections
