import LibStomp.Model.Pools
import LibStomp.Session.LastWriter

/-!
# Exchange properties and the pools their strings are in

`stomp_receive` leaves pointers into the pool of its message in a table that
outlives the message, and `stomp_exchange_add` leaves there whatever it is passed.
Over any run the owner of a name is what the call had that put it into the table, and
the owner of a value what the call had that wrote it last; destroying a message is
harmless exactly if none of them is the pool of that message.

## Main results

* `world_run` — forgetting the owners, a run is a run of the library.
* `unnoticed_destroy` — destroying a message that owns nothing in the table changes
  nothing that a later call returns or writes.
* `intact_iff` — no entry ever refers to a freed string if and only if every
  message is destroyed when it owns nothing in the table.
-/

namespace LibStomp.Session.Ownership

open LibStomp.Model
open LibStomp.Verified.Runs
open LibStomp.Session.Steps
open LibStomp.Session.Properties
open LibStomp.Session.LastWriter

/-- The log of a run with messages. -/
abbrev PoolLog := List (Event Pools PoolCall PoolReply)

/-! ## One call -/

/-- The names that a call puts into the table, with the owners of what it passes. -/
def puts (A : Apr) (k : CString) (s : Pools) (c : PoolCall) : Option Ownership :=
  match c.op with
  | .receive handle =>
      if k ∈ s.incoming A c.net then
        some ⟨.message handle, .message handle⟩
      else none
  | .exchangeAdd name (some _) owner => if name = k then some owner else none
  | .exchangeUtilCtime _ =>
      if .lit "creation" = k then some ⟨.caller, .messenger⟩ else none
  | _ => none

/-- The names that a call removes from the table. -/
def drops (k : CString) (c : PoolCall) : Bool :=
  match c.op with
  | .exchangeAdd name none _ => name = k
  | .exchangeClear => true
  | _ => false

/-- The owners of the name `k` after a call that puts it there, or does not. -/
def ownersAfter (s : Pools) (k : CString) : Option Ownership → Ownership
  | some o => ⟨if k ∈ s.table then (s.owners k).name else o.name, o.value⟩
  | none => s.owners k

/-- What a call does to the table, to the owners, to the messages and to the
world. -/
structure Effect (A : Apr) (s : Pools) (c : PoolCall) (s' : Pools) : Prop where
  table : ∀ k, k ∈ s'.table ↔
    drops k c = false ∧ ((puts A k s c).isSome = true ∨ k ∈ s.table)
  owners : ∀ k, s'.owners k = ownersAfter s k (puts A k s c)
  messages : ∀ handle, handle ∈ s'.messages ↔
    c.op = .messageCreate ∧ handle = s.next ∨
      handle ∈ s.messages ∧ c.op ≠ .messageDestroy handle
  next : s.next ≤ s'.next ∧ (c.op = .messageCreate → s'.next = s.next + 1)
  world : s'.world = s.world ∨
    ∃ op r, step A s.world ⟨op, c.net⟩ = some (r, s'.world)

/-- The table after one call of the library. -/
private theorem mem_table {A : Apr} {s : Pools} {net : Net} {op : Op} {r : Reply}
    {w : World} (h : step A s.world ⟨op, net⟩ = some (r, w)) (k : CString) :
    k ∈ w.messenger.exchangeProperties ↔
      removes k ⟨s.world, ⟨op, net⟩, r, w⟩ = false ∧
        (Puts A k ⟨s.world, ⟨op, net⟩, r, w⟩ ∨ k ∈ s.table) := by
  have hprops := (settings_step (e := ⟨s.world, ⟨op, net⟩, r, w⟩) h).1
  show k ∈ (⟨s.world, ⟨op, net⟩, r, w⟩ :
    Event World Call Reply).post.messenger.exchangeProperties ↔ _
  rw [hprops, mem_nextProperties]
  rfl

private theorem receivedHeaders_receive (A : Apr) (s : Pools) (net : Net)
    (message : Message) (r : Reply) (w : World) :
    receivedHeaders A ⟨s.world, ⟨.receive message, net⟩, r, w⟩ =
      s.incoming A net := by
  unfold receivedHeaders Pools.incoming
  cases (s.world.load net).readFrame A net.endline with
  | none => rfl
  | some p =>
      obtain ⟨reading, w₁⟩ := p
      cases reading <;> rfl

theorem onTable_eq_some {A : Apr} {s : Pools} {c : Call} {p : Reply × World}
    (h : s.onTable A c = some p) :
    s.readable = true ∧ step A s.world c = some p := by
  unfold Pools.onTable at h
  split at h
  · exact ⟨‹_›, h⟩
  · cases h

private theorem setOwners_eq (s : Pools) (k : CString) (names : List CString)
    (o : Ownership) :
    s.setOwners names o k =
      ownersAfter s k (if k ∈ names then some o else none) := by
  unfold Pools.setOwners
  by_cases hk : k ∈ names
  · rw [if_pos hk, if_pos hk]
    rfl
  · rw [if_neg hk, if_neg hk]
    rfl

/-- The effect of a call that leaves the messages alone. -/
private theorem effect_onWorld {A : Apr} {s : Pools} {op : PoolOp} {net : Net}
    {op' : Op} {r : Reply} {w : World} {owners : CString → Ownership}
    (hstep : step A s.world ⟨op', net⟩ = some (r, w))
    (hreceive : ∀ message, op' ≠ .receive message)
    (hmessages : op ≠ .messageCreate ∧ ∀ handle, op ≠ .messageDestroy handle)
    (howners : ∀ k, owners k = ownersAfter s k (puts A k s ⟨op, net⟩))
    (hputs : ∀ k, (puts A k s ⟨op, net⟩).isSome = true ↔
      ∃ value, op' = .exchangeAdd k (some value))
    (hdrops : ∀ k, drops k ⟨op, net⟩ = removes k ⟨s.world, ⟨op', net⟩, r, w⟩) :
    Effect A s ⟨op, net⟩ { s with world := w, owners := owners } := by
  refine ⟨fun k => ?_, howners, fun handle => ?_,
    ⟨Nat.le_refl _, fun hop => absurd hop hmessages.1⟩, .inr ⟨op', r, hstep⟩⟩
  · have hnone : k ∉ receivedHeaders A ⟨s.world, ⟨op', net⟩, r, w⟩ := by
      intro hk
      obtain ⟨message, hop⟩ := receive_of_mem_receivedHeaders hk
      exact hreceive message hop
    show k ∈ w.messenger.exchangeProperties ↔ _
    rw [mem_table hstep, hdrops, hputs, Puts, or_iff_left hnone]
  · show handle ∈ s.messages ↔ _
    simp [hmessages.1, hmessages.2 handle]

section Effects

variable {A : Apr} {s s' : Pools} {net : Net} {r : PoolReply}

private theorem effect_messageCreate
    (h : poolStep A s ⟨.messageCreate, net⟩ = some (r, s')) :
    Effect A s ⟨.messageCreate, net⟩ s' := by
  obtain ⟨-, rfl⟩ := Prod.mk.inj (Option.some.inj h)
  refine ⟨fun k => ?_, fun k => rfl, fun handle => ?_,
    ⟨Nat.le_succ _, fun _ => rfl⟩, .inl rfl⟩
  · show k ∈ s.table ↔ _
    simp [drops, puts]
  · show handle ∈ s.messages.insert s.next stompMessageCreate ↔ _
    rw [AList.mem_insert]
    simp

private theorem effect_messageDestroy {handle : Nat}
    (h : poolStep A s ⟨.messageDestroy handle, net⟩ = some (r, s')) :
    Effect A s ⟨.messageDestroy handle, net⟩ s' := by
  simp only [poolStep] at h
  split at h
  · obtain ⟨-, rfl⟩ := Prod.mk.inj (Option.some.inj h)
    refine ⟨fun k => ?_, fun k => rfl, fun j => ?_,
      ⟨Nat.le_refl _, fun hop => by cases hop⟩, .inl rfl⟩
    · show k ∈ s.table ↔ _
      simp [drops, puts]
    · show j ∈ s.messages.erase handle ↔ _
      rw [AList.mem_erase]
      simp [and_comm, eq_comm]
  · cases h

private theorem effect_receive {handle : Nat}
    (h : poolStep A s ⟨.receive handle, net⟩ = some (r, s')) :
    Effect A s ⟨.receive handle, net⟩ s' := by
  obtain ⟨message, hlive, h⟩ := Option.bind_eq_some_iff.mp h
  obtain ⟨⟨r', w⟩, hread, h⟩ := Option.bind_eq_some_iff.mp h
  obtain ⟨-, rfl⟩ := Prod.mk.inj (Option.some.inj h)
  have hstep : step A s.world ⟨.receive message, net⟩ = some (r', w) := by
    unfold Pools.onReceive at hread
    split at hread
    · exact hread
    · exact (onTable_eq_some hread).2
  refine ⟨fun k => ?_, fun k => ?_, fun j => ?_,
    ⟨Nat.le_refl _, fun hop => by cases hop⟩, .inr ⟨_, r', hstep⟩⟩
  · show k ∈ w.messenger.exchangeProperties ↔ _
    rw [mem_table hstep, Puts, receivedHeaders_receive]
    simp [removes, drops, puts]
  · show s.setOwners _ _ k = _
    rw [setOwners_eq]
    simp only [puts, AList.mem_keys]
  · show j ∈ s.messages.insert handle _ ↔ _
    rw [AList.mem_insert]
    have hmem : handle ∈ s.messages := AList.lookup_isSome.mp (by rw [hlive]; rfl)
    constructor
    · rintro (rfl | hj)
      · exact .inr ⟨hmem, fun hop => by cases hop⟩
      · exact .inr ⟨hj, fun hop => by cases hop⟩
    · rintro (⟨hop, -⟩ | ⟨hj, -⟩)
      · cases hop
      · exact .inr hj

private theorem effect_exchangeAdd {name : CString} {value : Option CString}
    {owner : Ownership}
    (h : poolStep A s ⟨.exchangeAdd name value owner, net⟩ = some (r, s')) :
    Effect A s ⟨.exchangeAdd name value owner, net⟩ s' := by
  simp only [poolStep] at h
  split at h
  · cases h
  obtain ⟨⟨r', w⟩, hread, h⟩ := Option.bind_eq_some_iff.mp h
  obtain ⟨-, rfl⟩ := Prod.mk.inj (Option.some.inj h)
  refine effect_onWorld (onTable_eq_some hread).2 (by simp) (by simp) ?_ ?_ ?_
  · intro k
    cases value with
    | none => rfl
    | some v =>
        show s.setOwners _ _ k = ownersAfter s k (if name = k then _ else _)
        rw [setOwners_eq]
        simp only [List.mem_singleton, eq_comm]
  · intro k
    cases value <;> simp [puts]
  · intro k
    cases value <;> rfl

private theorem effect_exchangeGet {name : CString}
    (h : poolStep A s ⟨.exchangeGet name, net⟩ = some (r, s')) :
    Effect A s ⟨.exchangeGet name, net⟩ s' := by
  simp only [poolStep] at h
  split at h
  · obtain ⟨-, rfl⟩ := Prod.mk.inj (Option.some.inj h)
    refine ⟨fun k => ?_, fun k => rfl, fun handle => ?_,
      ⟨Nat.le_refl _, fun hop => by cases hop⟩, .inl rfl⟩
    · simp [drops, puts]
    · simp
  · cases h

private theorem effect_exchangeUtilCtime {msec : Int64}
    (h : poolStep A s ⟨.exchangeUtilCtime msec, net⟩ = some (r, s')) :
    Effect A s ⟨.exchangeUtilCtime msec, net⟩ s' := by
  obtain ⟨⟨r', w⟩, hread, h⟩ := Option.bind_eq_some_iff.mp h
  obtain ⟨-, rfl⟩ := Prod.mk.inj (Option.some.inj h)
  refine effect_onWorld (onTable_eq_some hread).2 (by simp) (by simp) ?_ ?_
    fun k => rfl
  · intro k
    show s.setOwners _ _ k =
      ownersAfter s k (if .lit "creation" = k then _ else _)
    rw [setOwners_eq]
    simp only [List.mem_singleton, eq_comm]
  · intro k
    simp [puts]

private theorem effect_apart {op : Op}
    (h : poolStep A s ⟨.apart op, net⟩ = some (r, s')) :
    Effect A s ⟨.apart op, net⟩ s' := by
  simp only [poolStep] at h
  split at h
  · rename_i hapart
    obtain ⟨⟨r', w⟩, hstep, h⟩ := Option.bind_eq_some_iff.mp h
    obtain ⟨-, rfl⟩ := Prod.mk.inj (Option.some.inj h)
    refine effect_onWorld hstep ?_ (by simp) (fun k => rfl) ?_ ?_
    · rintro message rfl
      cases hapart
    · intro k
      simp only [puts, Option.isSome_none, Bool.false_eq_true, false_iff]
      rintro ⟨value, rfl⟩
      cases hapart
    · intro k
      cases op <;> first | rfl | cases hapart
  · cases h

/-- Every call has its effect. -/
theorem effect_of_poolStep {c : PoolCall} (h : poolStep A s c = some (r, s')) :
    Effect A s c s' := by
  obtain ⟨op, net⟩ := c
  cases op with
  | messageCreate => exact effect_messageCreate h
  | messageDestroy handle => exact effect_messageDestroy h
  | receive handle => exact effect_receive h
  | send header handle =>
      obtain ⟨message, -, h⟩ := Option.bind_eq_some_iff.mp h
      obtain ⟨⟨r', w⟩, hread, h⟩ := Option.bind_eq_some_iff.mp h
      obtain ⟨-, rfl⟩ := Prod.mk.inj (Option.some.inj h)
      exact effect_onWorld (onTable_eq_some hread).2 (by simp) (by simp)
        (fun k => rfl) (by simp [puts]) (fun k => rfl)
  | exchangeAdd name value owner => exact effect_exchangeAdd h
  | exchangeGet name => exact effect_exchangeGet h
  | exchangeClear =>
      obtain ⟨⟨r', w⟩, hread, h⟩ := Option.bind_eq_some_iff.mp h
      obtain ⟨-, rfl⟩ := Prod.mk.inj (Option.some.inj h)
      exact effect_onWorld (onTable_eq_some hread).2 (by simp) (by simp)
        (fun k => rfl) (by simp [puts]) (fun k => rfl)
  | exchangeUtilCtime msec => exact effect_exchangeUtilCtime h
  | apart op => exact effect_apart h

end Effects

/-- Forgetting messages and owners, a run is a run of the library. -/
theorem world_run {A : Apr} {s s' : Pools} {log : PoolLog}
    (h : Run (poolStep A) s log s') :
    ∃ log' : Log, Run (step A) s.world log' s'.world := by
  induction h with
  | nil s => exact ⟨[], .nil s.world⟩
  | cons head _ ih =>
      obtain ⟨log', hrest⟩ := ih
      rcases (effect_of_poolStep head).world with hsame | ⟨op, r, hstep⟩
      · rw [hsame] at hrest
        exact ⟨log', hrest⟩
      · exact ⟨_, .cons hstep hrest⟩

/-! ## The owners of an entry -/

/-- The owner of the name of the entry, if there is one. -/
def nameOwner (k : CString) (s : Pools) : Option Owner :=
  if k ∈ s.table then some (s.owners k).name else none

/-- The owner of its value. -/
def valueOwner (k : CString) (s : Pools) : Option Owner :=
  if k ∈ s.table then some (s.owners k).value else none

/-- The owner that the call gives to the name, or takes from it. -/
def introduces (A : Apr) (k : CString) (e : Event Pools PoolCall PoolReply) :
    Option (Option Owner) :=
  if drops k e.call then some none
  else if k ∈ e.pre.table then none
  else (puts A k e.pre e.call).map fun o => some o.name

/-- The owner that the call gives to the value, or takes from it. -/
def writesValue (A : Apr) (k : CString) (e : Event Pools PoolCall PoolReply) :
    Option (Option Owner) :=
  if drops k e.call then some none
  else (puts A k e.pre e.call).map fun o => some o.value

theorem owners_event {A : Apr} {e : Event Pools PoolCall PoolReply}
    (h : poolStep A e.pre e.call = some (e.reply, e.post)) (k : CString) :
    nameOwner k e.post = (introduces A k e).getD (nameOwner k e.pre) ∧
      valueOwner k e.post = (writesValue A k e).getD (valueOwner k e.pre) := by
  have heffect := effect_of_poolStep h
  unfold nameOwner valueOwner introduces writesValue
  rw [heffect.owners k]
  simp only [heffect.table k]
  cases hdrops : drops k e.call with
  | true => simp
  | false =>
      cases hputs : puts A k e.pre e.call with
      | none => by_cases hk : k ∈ e.pre.table <;> simp [hk, ownersAfter]
      | some o => by_cases hk : k ∈ e.pre.table <;> simp [hk, ownersAfter]

/-- The owner of the name, from the log alone: who has put it into the table. -/
def lastNameOwner (A : Apr) (k : CString) (log : PoolLog) : Option Owner :=
  (lastWritten (introduces A k) log).join

/-- The owner of the value, from the log alone: who has written it last. -/
def lastValueOwner (A : Apr) (k : CString) (log : PoolLog) : Option Owner :=
  (lastWritten (writesValue A k) log).join

theorem owners_run {A : Apr} {options : UInt32} {s : Pools} {log : PoolLog}
    (h : Run (poolStep A) (Pools.init options) log s) (k : CString) :
    nameOwner k s = lastNameOwner A k log ∧
      valueOwner k s = lastValueOwner A k log := by
  have hempty : k ∉ (Pools.init options).table := AList.notMem_empty k
  have hname : nameOwner k s = (lastWritten (introduces A k) log).getD
      (nameOwner k (Pools.init options)) :=
    h.lastWritten_eq fun e _ hstep => (owners_event hstep k).1
  have hvalue : valueOwner k s = (lastWritten (writesValue A k) log).getD
      (valueOwner k (Pools.init options)) :=
    h.lastWritten_eq fun e _ hstep => (owners_event hstep k).2
  rw [hname, hvalue, lastNameOwner, lastValueOwner, nameOwner, valueOwner,
    if_neg hempty, if_neg hempty]
  constructor
  · cases lastWritten (introduces A k) log <;> rfl
  · cases lastWritten (writesValue A k) log <;> rfl

/-! ## Freed strings -/

/-- No entry is owned by a message that has been destroyed. -/
def Intact (s : Pools) : Prop :=
  ∀ k handle, nameOwner k s = some (.message handle) ∨
    valueOwner k s = some (.message handle) → handle ∈ s.messages

/-- The message owns neither name nor value of any entry. -/
def OwnsNothing (s : Pools) (handle : Nat) : Prop :=
  ∀ k, nameOwner k s ≠ some (.message handle) ∧
    valueOwner k s ≠ some (.message handle)

private theorem freed_eq_false (s : Pools) (o : Owner) :
    s.freed o = false ↔ ∀ handle, o = .message handle → handle ∈ s.messages := by
  cases o with
  | message handle => simp [Pools.freed]
  | _ => simp [Pools.freed]

/-- The table can be read exactly if nothing in it has been freed. -/
theorem readable_iff (s : Pools) : s.readable = true ↔ Intact s := by
  unfold Pools.readable Intact nameOwner valueOwner
  simp only [List.all_eq_true, Bool.and_eq_true, Bool.not_eq_true', ← AList.mem_keys,
    freed_eq_false]
  constructor
  · intro h k handle howner
    by_cases hk : k ∈ s.table
    · rw [if_pos hk, if_pos hk, Option.some.injEq, Option.some.injEq] at howner
      rcases howner with hname | hvalue
      · exact (h k hk).1 handle hname
      · exact (h k hk).2 handle hvalue
    · rw [if_neg hk, if_neg hk] at howner
      rcases howner with hname | hvalue
      · cases hname
      · cases hvalue
  · intro h k hk
    have hentry := h k
    simp only [if_pos hk, Option.some.injEq] at hentry
    exact ⟨fun handle hname => hentry handle (.inl hname),
      fun handle hvalue => hentry handle (.inr hvalue)⟩

/-- The strings that a call puts into the table are in no pool of a message but those
it gives. -/
private theorem puts_message {A : Apr} {k : CString} {s : Pools} {c : PoolCall}
    {o : Ownership} {handle : Nat} (h : puts A k s c = some o)
    (howner : o.name = .message handle ∨ o.value = .message handle) :
    c.op.gives handle = true := by
  obtain ⟨op, net⟩ := c
  unfold puts at h
  split at h
  · rename_i other hop
    obtain rfl : op = .receive other := hop
    split at h
    · obtain rfl := Option.some.inj h
      refine decide_eq_true ?_
      rcases howner with hname | hvalue
      · exact Owner.message.inj hname
      · exact Owner.message.inj hvalue
    · cases h
  · rename_i name value owner hop
    obtain rfl : op = .exchangeAdd name (some value) owner := hop
    split at h
    · obtain rfl := Option.some.inj h
      refine decide_eq_true ?_
      rcases howner with hname | hvalue
      · simp [passed, hname]
      · simp [passed, hvalue]
    · cases h
  · split at h
    · obtain rfl := Option.some.inj h
      rcases howner with hname | hvalue
      · cases hname
      · cases hvalue
    · cases h
  · cases h

/-- An entry owned by a message has been so before, or the call gives it. -/
theorem owner_event {A : Apr} {e : Event Pools PoolCall PoolReply} {k : CString}
    {handle : Nat} (h : poolStep A e.pre e.call = some (e.reply, e.post))
    (howner : nameOwner k e.post = some (.message handle) ∨
      valueOwner k e.post = some (.message handle)) :
    e.call.op.gives handle = true ∨ nameOwner k e.pre = some (.message handle) ∨
      valueOwner k e.pre = some (.message handle) := by
  obtain ⟨hname, hvalue⟩ := owners_event h k
  rw [hname, hvalue] at howner
  unfold introduces writesValue at howner
  cases hdrops : drops k e.call with
  | true => simp [hdrops] at howner
  | false =>
      cases hputs : puts A k e.pre e.call with
      | none =>
          simp [hdrops, hputs] at howner
          exact .inr howner
      | some o =>
          simp only [hdrops, hputs, Bool.false_eq_true, if_false,
            Option.map_some, Option.getD_some, Option.some.injEq] at howner
          rcases howner with hintroduced | hwritten
          · split at hintroduced
            · exact .inr (.inl hintroduced)
            · exact .inl (puts_message hputs
                (.inl (Option.some.inj hintroduced)))
          · exact .inl (puts_message hputs (.inr hwritten))

/-- What is given is in the pool of a message that exists. -/
theorem live_of_gives {A : Apr} {s : Pools} {c : PoolCall} {handle : Nat}
    {p : PoolReply × Pools} (h : poolStep A s c = some p)
    (hgives : c.op.gives handle = true) : handle ∈ s.messages := by
  obtain ⟨op, net⟩ := c
  cases op with
  | receive other =>
      obtain rfl : other = handle := of_decide_eq_true hgives
      obtain ⟨message, hlive, -⟩ := Option.bind_eq_some_iff.mp h
      exact AList.lookup_isSome.mp (by rw [hlive]; rfl)
  | exchangeAdd name value owner =>
      have hmem : Owner.message handle ∈ passed value owner := of_decide_eq_true hgives
      simp only [poolStep] at h
      split at h
      · cases h
      rename_i hall
      have hkept : s.freed (.message handle) = false := by
        rw [Bool.not_eq_true, List.any_eq_false] at hall
        exact Bool.eq_false_iff.mpr (hall _ hmem)
      exact (freed_eq_false s _).mp hkept handle rfl
  | _ => cases hgives

/-- The message a call destroys owns nothing. -/
def SafeDestroy (s : Pools) (c : PoolCall) : Prop :=
  ∀ handle, c.op = .messageDestroy handle → OwnsNothing s handle

theorem intact_step {A : Apr} {e : Event Pools PoolCall PoolReply}
    (h : poolStep A e.pre e.call = some (e.reply, e.post)) (hpre : Intact e.pre)
    (hsafe : SafeDestroy e.pre e.call) : Intact e.post := by
  intro k handle howner
  rw [(effect_of_poolStep h).messages]
  rcases owner_event h howner with hgives | hbefore
  · refine .inr ⟨live_of_gives h hgives, fun hdestroy => ?_⟩
    rw [hdestroy] at hgives
    cases hgives
  · refine .inr ⟨hpre k handle hbefore, fun hdestroy => ?_⟩
    obtain ⟨hname, hvalue⟩ := hsafe handle hdestroy k
    exact hbefore.elim hname hvalue

/-- A message that is destroyed leaves what it owns behind. -/
theorem safeDestroy_of_intact {A : Apr} {e : Event Pools PoolCall PoolReply}
    (h : poolStep A e.pre e.call = some (e.reply, e.post))
    (hpost : Intact e.post) : SafeDestroy e.pre e.call := by
  intro handle hop k
  have hfreed : handle ∉ e.post.messages := by
    rw [(effect_of_poolStep h).messages, hop]
    simp
  obtain ⟨hname, hvalue⟩ := owners_event h k
  have hkept : nameOwner k e.post = nameOwner k e.pre ∧
      valueOwner k e.post = valueOwner k e.pre := by
    rw [hname, hvalue]
    simp [introduces, writesValue, drops, puts, hop]
  constructor
  · intro howner
    exact hfreed (hpost k handle (.inl (hkept.1.trans howner)))
  · intro howner
    exact hfreed (hpost k handle (.inr (hkept.2.trans howner)))

/-! ## Destroying a message unnoticed -/

/-- The states differ in no more than a message that owns nothing in the table. -/
structure Agree (handle : Nat) (s t : Pools) : Prop where
  world : t.world = s.world
  owners : t.owners = s.owners
  next : t.next = s.next
  messages : ∀ other, other ≠ handle →
    t.messages.lookup other = s.messages.lookup other
  issued : handle < s.next
  ownsNothing : OwnsNothing s handle

section Agree

variable {A : Apr} {handle : Nat} {s t : Pools} (h : Agree handle s t)

include h

theorem Agree.nameOwner_eq (k : CString) : nameOwner k t = nameOwner k s := by
  rw [nameOwner, nameOwner, Pools.table, Pools.table, h.world, h.owners]

theorem Agree.valueOwner_eq (k : CString) : valueOwner k t = valueOwner k s := by
  rw [valueOwner, valueOwner, Pools.table, Pools.table, h.world, h.owners]

theorem Agree.symm : Agree handle t s where
  world := h.world.symm
  owners := h.owners.symm
  next := h.next.symm
  messages := fun other hne => (h.messages other hne).symm
  issued := h.next ▸ h.issued
  ownsNothing := fun k => by
    rw [h.nameOwner_eq, h.valueOwner_eq]
    exact h.ownsNothing k

theorem Agree.mem_iff {other : Nat} (hne : other ≠ handle) :
    other ∈ t.messages ↔ other ∈ s.messages := by
  rw [← AList.lookup_isSome, ← AList.lookup_isSome, h.messages other hne]

theorem Agree.freed_eq {o : Owner} (ho : o ≠ .message handle) :
    t.freed o = s.freed o := by
  cases o with
  | message other =>
      have hne : other ≠ handle := fun heq => ho (congrArg _ heq)
      rw [Bool.eq_iff_iff, Pools.freed, Pools.freed, decide_eq_true_iff,
        decide_eq_true_iff, h.mem_iff hne]
  | _ => rfl

theorem Agree.readable_eq : t.readable = s.readable := by
  rw [Bool.eq_iff_iff, readable_iff, readable_iff]
  unfold Intact
  simp only [h.nameOwner_eq, h.valueOwner_eq]
  constructor
  · intro hintact k other howner
    have hne : other ≠ handle := by
      rintro rfl
      exact howner.elim (h.ownsNothing k).1 (h.ownsNothing k).2
    exact (h.mem_iff hne).mp (hintact k other howner)
  · intro hintact k other howner
    have hne : other ≠ handle := by
      rintro rfl
      exact howner.elim (h.ownsNothing k).1 (h.ownsNothing k).2
    exact (h.mem_iff hne).mpr (hintact k other howner)

theorem Agree.onTable_eq (c : Call) : t.onTable A c = s.onTable A c := by
  rw [Pools.onTable, Pools.onTable, h.readable_eq, h.world]

theorem Agree.incoming_eq (net : Net) : t.incoming A net = s.incoming A net := by
  rw [Pools.incoming, Pools.incoming, h.world]

theorem Agree.setOwners_eq (names : List CString) (o : Ownership) :
    t.setOwners names o = s.setOwners names o := by
  funext k
  rw [Pools.setOwners, Pools.setOwners, Pools.table, Pools.table, h.world, h.owners]

end Agree

/-- What a call gives it refers to. -/
theorem names_of_gives {op : PoolOp} {handle : Nat} (h : op.gives handle = true) :
    op.names handle = true := by
  cases op <;> first | exact h | cases h

theorem ownsNothing_step {A : Apr} {s s' : Pools} {c : PoolCall} {r : PoolReply}
    {handle : Nat} (h : poolStep A s c = some (r, s'))
    (hc : c.op.names handle = false) (hs : OwnsNothing s handle) :
    OwnsNothing s' handle := by
  intro k
  have hnone : ¬ (nameOwner k s' = some (.message handle) ∨
      valueOwner k s' = some (.message handle)) := by
    intro howner
    rcases owner_event (e := ⟨s, c, r, s'⟩) h howner with hgives | hbefore
    · rw [names_of_gives hgives] at hc
      cases hc
    · exact hbefore.elim (hs k).1 (hs k).2
  exact not_or.mp hnone

section Step

variable {A : Apr} {handle : Nat} {s s' t : Pools} {net : Net} {r : PoolReply}
variable (h : Agree handle s t)
include h

/-- After the same insertion the other messages are still the same. -/
private theorem Agree.lookup_insert (handle' : Nat) (message : Message) {j : Nat}
    (hj : j ≠ handle) :
    (t.messages.insert handle' message).lookup j =
      (s.messages.insert handle' message).lookup j := by
  by_cases heq : j = handle'
  · rw [heq, AList.lookup_insert, AList.lookup_insert]
  · rw [AList.lookup_insert_ne heq, AList.lookup_insert_ne heq, h.messages j hj]

/-- After a call that leaves the messages alone. -/
private theorem Agree.onWorld {w : World} {owners owners' : CString → Ownership}
    (howners : owners' = owners)
    (hnothing : OwnsNothing { s with world := w, owners := owners } handle) :
    Agree handle { s with world := w, owners := owners }
      { t with world := w, owners := owners' } :=
  ⟨rfl, howners, h.next, h.messages, h.issued, hnothing⟩

variable (hnothing : OwnsNothing s' handle)
include hnothing

private theorem Agree.step_messageCreate
    (hs : poolStep A s ⟨.messageCreate, net⟩ = some (r, s')) :
    ∃ t', poolStep A t ⟨.messageCreate, net⟩ = some (r, t') ∧
      Agree handle s' t' := by
  obtain ⟨rfl, rfl⟩ := Prod.mk.inj (Option.some.inj hs)
  refine ⟨{ t with
      messages := t.messages.insert t.next stompMessageCreate
      next := t.next + 1 }, ?_, h.world, h.owners,
    congrArg (· + 1) h.next, fun j hj => ?_, Nat.lt_succ_of_lt h.issued,
    hnothing⟩
  · show some (PoolReply.mk none (some t.next) none, _) = _
    rw [h.next]
  · show (t.messages.insert t.next _).lookup j = _
    rw [h.next]
    exact h.lookup_insert s.next stompMessageCreate hj

private theorem Agree.step_messageDestroy {other : Nat} (hne : other ≠ handle)
    (hs : poolStep A s ⟨.messageDestroy other, net⟩ = some (r, s')) :
    ∃ t', poolStep A t ⟨.messageDestroy other, net⟩ = some (r, t') ∧
      Agree handle s' t' := by
  simp only [poolStep] at hs
  split at hs
  · rename_i hlive
    obtain ⟨rfl, rfl⟩ := Prod.mk.inj (Option.some.inj hs)
    refine ⟨_, if_pos ((h.mem_iff hne).mpr hlive), h.world, h.owners, h.next,
      fun j hj => ?_, h.issued, hnothing⟩
    by_cases heq : j = other
    · rw [heq, AList.lookup_erase, AList.lookup_erase]
    · rw [AList.lookup_erase_ne heq, AList.lookup_erase_ne heq, h.messages j hj]
  · cases hs

private theorem Agree.step_receive {other : Nat} (hne : other ≠ handle)
    (hs : poolStep A s ⟨.receive other, net⟩ = some (r, s')) :
    ∃ t', poolStep A t ⟨.receive other, net⟩ = some (r, t') ∧
      Agree handle s' t' := by
  obtain ⟨message, hlive, hs⟩ := Option.bind_eq_some_iff.mp hs
  obtain ⟨⟨r', w⟩, hread, hs⟩ := Option.bind_eq_some_iff.mp hs
  obtain ⟨rfl, rfl⟩ := Prod.mk.inj (Option.some.inj hs)
  have hread' : t.onReceive A net message = some (r', w) := by
    rw [Pools.onReceive, h.incoming_eq, h.onTable_eq, h.world]
    exact hread
  refine ⟨{ t with
      world := w
      owners := t.setOwners (t.incoming A net).keys
        ⟨.message other, .message other⟩
      messages := t.messages.insert other (r'.message.getD message) },
    ?_, rfl, ?_, h.next, fun j hj => h.lookup_insert other _ hj, h.issued, hnothing⟩
  · show (t.messages.lookup other).bind _ = _
    rw [h.messages other hne, hlive]
    show (t.onReceive A net message).bind _ = _
    rw [hread']
    rfl
  · show t.setOwners (t.incoming A net).keys _ = _
    rw [h.incoming_eq, h.setOwners_eq]

private theorem Agree.step_send {header : Option SendHeader} {other : Nat}
    (hne : other ≠ handle)
    (hs : poolStep A s ⟨.send header other, net⟩ = some (r, s')) :
    ∃ t', poolStep A t ⟨.send header other, net⟩ = some (r, t') ∧
      Agree handle s' t' := by
  obtain ⟨message, hlive, hs⟩ := Option.bind_eq_some_iff.mp hs
  obtain ⟨⟨r', w⟩, hread, hs⟩ := Option.bind_eq_some_iff.mp hs
  obtain ⟨rfl, rfl⟩ := Prod.mk.inj (Option.some.inj hs)
  refine ⟨{ t with world := w }, ?_, h.onWorld h.owners hnothing⟩
  show (t.messages.lookup other).bind _ = _
  rw [h.messages other hne, hlive]
  show (t.onTable A _).bind _ = _
  rw [h.onTable_eq, hread]
  rfl

private theorem Agree.step_exchangeAdd {name : CString} {value : Option CString}
    {owner : Ownership}
    (hnames : (PoolOp.exchangeAdd name value owner).names handle = false)
    (hs : poolStep A s ⟨.exchangeAdd name value owner, net⟩ = some (r, s')) :
    ∃ t', poolStep A t ⟨.exchangeAdd name value owner, net⟩ = some (r, t') ∧
      Agree handle s' t' := by
  have hother : ∀ o ∈ passed value owner, o ≠ .message handle := by
    rintro o ho rfl
    exact of_decide_eq_false hnames ho
  have hfreed : (passed value owner).any t.freed = (passed value owner).any s.freed := by
    rw [Bool.eq_iff_iff, List.any_eq_true, List.any_eq_true]
    exact exists_congr fun o => and_congr_right fun ho => by
      rw [h.freed_eq (hother o ho)]
  simp only [poolStep] at hs
  split at hs
  · cases hs
  rename_i hall
  obtain ⟨⟨r', w⟩, hread, hs⟩ := Option.bind_eq_some_iff.mp hs
  obtain ⟨rfl, rfl⟩ := Prod.mk.inj (Option.some.inj hs)
  have howners : t.addOwners name owner value = s.addOwners name owner value := by
    cases value with
    | none => exact h.owners
    | some v => exact h.setOwners_eq _ _
  refine ⟨{ t with world := w, owners := t.addOwners name owner value }, ?_,
    h.onWorld howners hnothing⟩
  show (if (passed value owner).any t.freed then none else _) = _
  rw [hfreed, if_neg hall]
  show (t.onTable A _).bind _ = _
  rw [h.onTable_eq, hread]
  rfl

private theorem Agree.step_exchangeGet {name : CString}
    (hs : poolStep A s ⟨.exchangeGet name, net⟩ = some (r, s')) :
    ∃ t', poolStep A t ⟨.exchangeGet name, net⟩ = some (r, t') ∧
      Agree handle s' t' := by
  simp only [poolStep] at hs
  split at hs
  · rename_i hreadable
    obtain ⟨rfl, rfl⟩ := Prod.mk.inj (Option.some.inj hs)
    refine ⟨t, ?_, h⟩
    rw [← h.readable_eq] at hreadable
    rw [← h.world]
    exact if_pos hreadable
  · cases hs

private theorem Agree.step_exchangeClear
    (hs : poolStep A s ⟨.exchangeClear, net⟩ = some (r, s')) :
    ∃ t', poolStep A t ⟨.exchangeClear, net⟩ = some (r, t') ∧
      Agree handle s' t' := by
  obtain ⟨⟨r', w⟩, hread, hs⟩ := Option.bind_eq_some_iff.mp hs
  obtain ⟨rfl, rfl⟩ := Prod.mk.inj (Option.some.inj hs)
  refine ⟨{ t with world := w }, ?_, h.onWorld h.owners hnothing⟩
  show (t.onTable A _).bind _ = _
  rw [h.onTable_eq, hread]
  rfl

private theorem Agree.step_exchangeUtilCtime {msec : Int64}
    (hs : poolStep A s ⟨.exchangeUtilCtime msec, net⟩ = some (r, s')) :
    ∃ t', poolStep A t ⟨.exchangeUtilCtime msec, net⟩ = some (r, t') ∧
      Agree handle s' t' := by
  obtain ⟨⟨r', w⟩, hread, hs⟩ := Option.bind_eq_some_iff.mp hs
  obtain ⟨rfl, rfl⟩ := Prod.mk.inj (Option.some.inj hs)
  refine ⟨{ t with
      world := w
      owners := t.setOwners [.lit "creation"] ⟨.caller, .messenger⟩ },
    ?_, h.onWorld (h.setOwners_eq _ _) hnothing⟩
  show (t.onTable A _).bind _ = _
  rw [h.onTable_eq, hread]
  rfl

private theorem Agree.step_apart {op : Op}
    (hs : poolStep A s ⟨.apart op, net⟩ = some (r, s')) :
    ∃ t', poolStep A t ⟨.apart op, net⟩ = some (r, t') ∧ Agree handle s' t' := by
  simp only [poolStep] at hs
  split at hs
  · rename_i hapart
    obtain ⟨⟨r', w⟩, hstep, hs⟩ := Option.bind_eq_some_iff.mp hs
    obtain ⟨rfl, rfl⟩ := Prod.mk.inj (Option.some.inj hs)
    refine ⟨{ t with world := w }, ?_, h.onWorld h.owners hnothing⟩
    show (if op.isApart then _ else _) = _
    rw [if_pos hapart]
    show (Model.step A t.world _).bind _ = _
    rw [h.world, hstep]
    rfl
  · cases hs

end Step

/-- A call that does not refer to the message is the same call in both states. -/
theorem Agree.step {A : Apr} {handle : Nat} {s s' t : Pools} {c : PoolCall}
    {r : PoolReply} (h : Agree handle s t) (hc : c.op.names handle = false)
    (hs : poolStep A s c = some (r, s')) :
    ∃ t', poolStep A t c = some (r, t') ∧ Agree handle s' t' := by
  have hnothing := ownsNothing_step hs hc h.ownsNothing
  obtain ⟨op, net⟩ := c
  cases op with
  | messageCreate => exact h.step_messageCreate hnothing hs
  | messageDestroy other =>
      exact h.step_messageDestroy hnothing (by simpa [PoolOp.names] using hc) hs
  | receive other =>
      exact h.step_receive hnothing (by simpa [PoolOp.names, PoolOp.gives] using hc) hs
  | send header other =>
      exact h.step_send hnothing (by simpa [PoolOp.names] using hc) hs
  | exchangeAdd name value owner => exact h.step_exchangeAdd hnothing hc hs
  | exchangeGet name => exact h.step_exchangeGet hnothing hs
  | exchangeClear => exact h.step_exchangeClear hnothing hs
  | exchangeUtilCtime msec => exact h.step_exchangeUtilCtime hnothing hs
  | apart op => exact h.step_apart hnothing hs

/-- What can be seen of a call: its reply, and the world it leaves. -/
def observe (e : Event Pools PoolCall PoolReply) : PoolCall × PoolReply × World :=
  (e.call, e.reply, e.post.world)

theorem Agree.run {A : Apr} {handle : Nat} {s s' : Pools} {log : PoolLog}
    (hrun : Run (poolStep A) s log s')
    (hlog : ∀ e ∈ log, e.call.op.names handle = false) :
    ∀ t, Agree handle s t →
      ∃ log' t', Run (poolStep A) t log' t' ∧
        log'.map observe = log.map observe := by
  induction hrun with
  | nil s => exact fun t _ => ⟨[], t, .nil t, rfl⟩
  | @cons s₀ s₁ s₂ c r log head rest ih =>
      intro t h
      obtain ⟨t₁, hstep, hagree⟩ := h.step (hlog ⟨s₀, c, r, s₁⟩ (by simp)) head
      obtain ⟨log', t', hrun', hsame⟩ :=
        ih (fun e he => hlog e (by simp [he])) t₁ hagree
      refine ⟨⟨t, c, r, t₁⟩ :: log', t', .cons hstep hrun', ?_⟩
      rw [List.map_cons, List.map_cons, hsame, observe, observe, hagree.world]

/-- From the two states the same can be seen of calls that do not refer to the
message. -/
def Unnoticed (A : Apr) (handle : Nat) (s t : Pools) : Prop :=
  ∀ seen : List (PoolCall × PoolReply × World),
    (∀ o ∈ seen, o.1.op.names handle = false) →
      ((∃ log s', Run (poolStep A) s log s' ∧ log.map observe = seen) ↔
        ∃ log t', Run (poolStep A) t log t' ∧ log.map observe = seen)

theorem Agree.unnoticed {A : Apr} {handle : Nat} {s t : Pools}
    (h : Agree handle s t) : Unnoticed A handle s t := by
  have hone : ∀ {s t : Pools}, Agree handle s t → ∀ log s',
      Run (poolStep A) s log s' →
        (∀ o ∈ log.map observe, o.1.op.names handle = false) →
          ∃ log' t', Run (poolStep A) t log' t' ∧
            log'.map observe = log.map observe := by
    intro s t h log s' hrun hseen
    exact Agree.run hrun
      (fun e he => hseen (observe e) (List.mem_map_of_mem he)) t h
  intro seen hseen
  constructor
  · rintro ⟨log, s', hrun, rfl⟩
    exact hone h log s' hrun hseen
  · rintro ⟨log, t', hrun, rfl⟩
    exact hone h.symm log t' hrun hseen

/-- Handles are given out in order. -/
def Issued (s : Pools) : Prop := ∀ handle ∈ s.messages, handle < s.next

theorem issued_step {A : Apr} {s s' : Pools} {c : PoolCall} {r : PoolReply}
    (h : poolStep A s c = some (r, s')) (hs : Issued s) : Issued s' := by
  have heffect := effect_of_poolStep h
  obtain ⟨hle, hcreate⟩ := heffect.next
  intro handle hlive
  rcases (heffect.messages handle).mp hlive with ⟨hop, rfl⟩ | ⟨hbefore, -⟩
  · rw [hcreate hop]
    exact Nat.lt_succ_self _
  · exact Nat.lt_of_lt_of_le (hs handle hbefore) hle

theorem unnoticed_destroy {A : Apr} {e : Event Pools PoolCall PoolReply}
    {handle : Nat} (h : poolStep A e.pre e.call = some (e.reply, e.post))
    (hop : e.call.op = .messageDestroy handle) (hissued : Issued e.pre)
    (hnothing : OwnsNothing e.pre handle) :
    Unnoticed A handle e.pre e.post := by
  obtain ⟨pre, ⟨op, net⟩, reply, post⟩ := e
  obtain rfl : op = .messageDestroy handle := hop
  simp only [poolStep] at h
  split at h
  · rename_i hlive
    obtain ⟨-, rfl⟩ := Prod.mk.inj (Option.some.inj h)
    refine Agree.unnoticed ⟨rfl, rfl, rfl, fun other hne => ?_,
      hissued handle hlive, hnothing⟩
    exact AList.lookup_erase_ne hne
  · cases h

/-! ## Runs -/

/-- Every message is destroyed when it owns nothing in the table any more: neither
the name nor the value of an entry has last come from its pool, by a receive into the
message or by an add of a string that is there. -/
def DestroysSafely (A : Apr) (log : PoolLog) : Prop :=
  ∀ before e after, log = before ++ e :: after →
    ∀ handle, e.call.op = .messageDestroy handle → ∀ k,
      lastNameOwner A k before ≠ some (.message handle) ∧
        lastValueOwner A k before ≠ some (.message handle)

private theorem destroysSafely_iff {A : Apr} {options : UInt32} {s : Pools}
    {log : PoolLog} (h : Run (poolStep A) (Pools.init options) log s) :
    DestroysSafely A log ↔ ∀ e ∈ log, SafeDestroy e.pre e.call := by
  have hupTo : ∀ before e after, log = before ++ e :: after →
      (SafeDestroy e.pre e.call ↔ ∀ handle, e.call.op = .messageDestroy handle →
        ∀ k, lastNameOwner A k before ≠ some (.message handle) ∧
          lastValueOwner A k before ≠ some (.message handle)) := by
    rintro before e after rfl
    obtain ⟨s₁, hbefore, hafter⟩ := h.split
    cases hafter with
    | cons _ _ =>
        unfold SafeDestroy OwnsNothing
        simp only [(owners_run hbefore _).1, (owners_run hbefore _).2]
  constructor
  · intro hsafe e he
    obtain ⟨before, after, hsplit⟩ := List.append_of_mem he
    exact (hupTo before e after hsplit).mpr (hsafe before e after hsplit)
  · intro hsafe before e after hsplit
    exact (hupTo before e after hsplit).mp (hsafe e (by simp [hsplit]))

/-- **Exchange properties never outlive their strings, and destroying a message goes
unnoticed, exactly in the runs that destroy a message when it owns nothing in the
table any more.** -/
theorem intact_iff (A : Apr) (options : UInt32) (s : Pools) (log : PoolLog)
    (h : Run (poolStep A) (Pools.init options) log s) :
    (∀ e ∈ log, Intact e.post ∧ ∀ handle, e.call.op = .messageDestroy handle →
      Unnoticed A handle e.pre e.post) ↔ DestroysSafely A log := by
  rw [destroysSafely_iff h]
  constructor
  · intro hintact e he
    exact safeDestroy_of_intact (h.step_of_mem he) (hintact e he).1
  · intro hsafe e he
    have hinit : Intact (Pools.init options) ∧ Issued (Pools.init options) := by
      refine ⟨fun k handle howner => ?_,
        fun handle hlive => absurd hlive (AList.notMem_empty handle)⟩
      have hempty : k ∉ (Pools.init options).table := AList.notMem_empty k
      rw [nameOwner, valueOwner, if_neg hempty, if_neg hempty] at howner
      simp at howner
    have hstep : ∀ s c r s', (Intact s ∧ Issued s) → SafeDestroy s c →
        poolStep A s c = some (r, s') → Intact s' ∧ Issued s' := by
      rintro s c r s' ⟨hs, hissued⟩ hc hstep
      exact ⟨intact_step (e := ⟨s, c, r, s'⟩) hstep hs hc,
        issued_step hstep hissued⟩
    obtain ⟨⟨-, hissued⟩, hpost, -⟩ :=
      (h.invariant_of_guard hstep hinit hsafe).2 e he
    refine ⟨hpost, fun handle hop => ?_⟩
    exact unnoticed_destroy (h.step_of_mem he) hop hissued (hsafe e he handle hop)

/-- A message is received, its value `1` is stored under another name, too, and it is
destroyed when both names have been removed. -/
def retractingCalls : List PoolCall :=
  opening.map (fun c => ⟨.apart c.op, c.net⟩) ++
    [⟨.messageCreate, .quiet []⟩,
      ⟨.receive 0, .quiet (ascii "MESSAGE\na:1\n\nx" ++ [nul, lf])⟩,
      ⟨.exchangeAdd (.lit "b") (some (.lit "1")) ⟨.caller, .message 0⟩, .quiet []⟩,
      ⟨.exchangeAdd (.lit "a") none ⟨.caller, .caller⟩, .quiet []⟩,
      ⟨.exchangeAdd (.lit "b") none ⟨.caller, .caller⟩, .quiet []⟩,
      ⟨.messageDestroy 0, .quiet []⟩,
      ⟨.exchangeGet (.lit "a"), .quiet []⟩]

theorem intact_retractingCalls :
    ∃ log : PoolLog, log.map Event.call = retractingCalls ∧
      ∀ e ∈ log, Intact e.post ∧ ∀ handle, e.call.op = .messageDestroy handle →
        Unnoticed .sample handle e.pre e.post := by
  have hrun : (exec (poolStep .sample) (Pools.init 0) retractingCalls).map
      (fun p => p.1.all fun e => e.post.readable) = some true := by
    decide +kernel
  obtain ⟨⟨log, s⟩, hexec, hreadable⟩ := Option.map_eq_some_iff.mp hrun
  have hlog := exec_run hexec
  refine ⟨log, exec_calls hexec, (intact_iff .sample 0 s log hlog).mpr ?_⟩
  refine (destroysSafely_iff hlog).mpr fun e he => ?_
  have hintact := (readable_iff e.post).mp (List.all_eq_true.mp hreadable e he)
  exact safeDestroy_of_intact (hlog.step_of_mem he) hintact

/-- A message is received, and destroyed while its headers are in the table. -/
def danglingCalls : List PoolCall :=
  opening.map (fun c => ⟨.apart c.op, c.net⟩) ++
    [⟨.messageCreate, .quiet []⟩,
      ⟨.receive 0, .quiet (ascii "MESSAGE\na:1\n\nx" ++ [nul, lf])⟩,
      ⟨.messageDestroy 0, .quiet []⟩]

private theorem danglingCalls_run :
    ∃ (log : PoolLog) (s : Pools),
      Run (poolStep .sample) (Pools.init 0) log s ∧
      log.map Event.call = danglingCalls ∧
      log.map (fun e => e.post.readable) = [true, true, true, true, false] := by
  have hrun : (exec (poolStep .sample) (Pools.init 0) danglingCalls).map
      (fun p => p.1.map fun e => e.post.readable) =
        some [true, true, true, true, false] := by
    decide +kernel
  obtain ⟨⟨log, s⟩, hexec, hvalues⟩ := Option.map_eq_some_iff.mp hrun
  exact ⟨log, s, exec_run hexec, exec_calls hexec, hvalues⟩

theorem intact_fails :
    ¬ ∀ (A : Apr) (options : UInt32) (s : Pools) (log : PoolLog),
      Run (poolStep A) (Pools.init options) log s → ∀ e ∈ log, Intact e.post := by
  intro h
  obtain ⟨log, s, hrun, -, hreadable⟩ := danglingCalls_run
  have hmem : false ∈ log.map fun e => e.post.readable := by simp [hreadable]
  obtain ⟨e, he, hfreed⟩ := List.mem_map.mp hmem
  have hintact := (readable_iff e.post).mpr (h .sample 0 s log hrun e he)
  cases hintact.symm.trans hfreed

end LibStomp.Session.Ownership
