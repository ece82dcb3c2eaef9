import LibStomp.Session.Memory

/-!
# Giving the memory back

Whether the memory of a process can ever be given back depends on its messengers: one
whose initialisation has found no memory for the pool, or whose status has lost a text,
cannot be destroyed.  And it depends on the order: the last messenger takes the pools
of the messages with it, so a message that is still there can never be freed.

## Main results

* `emptied_iff` — the heap can be emptied unless a messenger is stuck.
* `never_destroyed` — what becomes of the messages that the last messenger leaves
  behind.
-/

namespace LibStomp.Session.Teardown

open LibStomp.Model (Bytes CString StatusCode)
open LibStomp.Model.Memory
open LibStomp.Session.Custody
open LibStomp.Session.Memory
open LibStomp.Verified.Allocation
open LibStomp.Verified.Runs

/-! ## Fewer objects -/

/-- The addresses of the messages and messengers. -/
def objects (h : Store) : Finset Nat :=
  (Finset.range h.next).filter fun a => (h.get a).any isObject

theorem mem_objects {h : Store} {a : Nat} :
    a ∈ objects h ↔ ∃ b, h.get a = some b ∧ isObject b = true := by
  rw [objects, Finset.mem_filter, Finset.mem_range]
  constructor
  · rintro ⟨-, hany⟩
    cases hb : h.get a with
    | none => rw [hb] at hany; cases hany
    | some b => rw [hb] at hany; exact ⟨b, rfl, hany⟩
  · rintro ⟨b, hb, hobject⟩
    exact ⟨Heap.lt_next hb, by rw [hb]; exact hobject⟩

/-- The end of the runtime spares the objects. -/
theorem get_aprTerminate {h : Store} {n a : Nat} {b : Cell}
    (hb : (aprTerminate ⟨h, n⟩).heap.get a = some b) : h.get a = some b := by
  unfold aprTerminate at hb
  dsimp only at hb
  split at hb
  · rw [Heap.get_sweep] at hb
    exact (Option.filter_eq_some_iff.mp hb).1
  · exact hb

/-- When an object goes there are fewer. -/
theorem card_objects_lt {h h' h'' : Store} {a : Nat} {b : Cell}
    (hb : h.get a = some b) (hobject : isObject b = true)
    (hc : RootChange custody h h' a) (hgone : h'.get a = none)
    (hsub : ∀ c b, h''.get c = some b → h'.get c = some b) :
    (objects h'').card < (objects h).card := by
  refine Finset.card_lt_card ((Finset.ssubset_iff_of_subset fun c hmem => ?_).mpr
    ⟨a, mem_objects.mpr ⟨b, hb, hobject⟩, fun hmem => ?_⟩)
  · obtain ⟨b', hb', hobject'⟩ := mem_objects.mp hmem
    have hbefore := hsub c b' hb'
    have hca : c ≠ a := by
      rintro rfl
      cases hgone.symm.trans hbefore
    exact mem_objects.mpr ⟨b', hc.root_before hca hbefore hobject', hobject'⟩
  · obtain ⟨b', hb', -⟩ := mem_objects.mp hmem
    cases hgone.symm.trans (hsub a b' hb')

/-! ## Emptying the heap -/

/-- No messenger is stuck. -/
def NoneStuck (r : Machine) : Prop :=
  ∀ a m, r.heap.get a = some (.messenger m) → ¬ Stuck m

/-- As long as there are objects one of them can be destroyed, messages first. -/
theorem exists_destroy (r : Machine) (hinv : Consistent r ∧ NoneStuck r)
    (hsize : (objects r.heap).card ≠ 0) :
    ∃ call p r', memoryStep r call = some (p, r') ∧ Orderly r call ∧
      (Consistent r' ∧ NoneStuck r') ∧
        (objects r'.heap).card < (objects r.heap).card := by
  obtain ⟨hc, hfree⟩ := hinv
  by_cases hmessages : ∃ a m, r.heap.get a = some (.message m)
  · obtain ⟨a, m, hm⟩ := hmessages
    obtain ⟨h', hrun, hchange, -, hgone⟩ := stompMessageDestroy_spec hc.sound hm
    have hstep : memoryStep r (.messageDestroy (.addr a)) =
        some (.null, ⟨h', r.initialized⟩) := by
      show (Machine.onHeap r _).map _ = _
      rw [Machine.onHeap, hrun]
      rfl
    have horderly : Orderly r (.messageDestroy (.addr a)) := trivial
    refine ⟨_, _, _, hstep, horderly,
      ⟨(step_consistent hc horderly hstep).1, fun c m' hm' => ?_⟩,
      card_objects_lt hm rfl hchange hgone fun c b hb => hb⟩
    have hca : c ≠ a := by
      rintro rfl
      cases hgone.symm.trans hm'
    exact hfree c m' ((messenger_iff hc.sound hchange hca m').mp hm')
  · have hnone : ∀ a m, r.heap.get a ≠ some (.message m) := fun a m hm =>
      hmessages ⟨a, m, hm⟩
    -- there is an object, and it is a messenger
    obtain ⟨a, ha⟩ := Finset.card_pos.mp (Nat.pos_of_ne_zero hsize)
    obtain ⟨m, hm⟩ : ∃ m, r.heap.get a = some (.messenger m) := by
      obtain ⟨b, hb, hobject⟩ := mem_objects.mp ha
      cases b with
      | messenger m => exact ⟨m, hb⟩
      | message m => exact absurd hb (hnone a m)
      | _ => cases hobject
    have hstuck := hfree a m hm
    obtain ⟨p, hp, hproperties⟩ := hc.sound.pool_of_ne_null hm fun hnull =>
      hstuck (.inl hnull)
    obtain ⟨h', hrun, hchange, hgone⟩ := stompMessengerDestroy_spec hc.sound hm hp
      hproperties fun hw => hstuck (.inr hw)
    have hstep : memoryStep r (.messengerDestroy (.addr a)) =
        some (.null, aprTerminate ⟨h', r.initialized⟩) := by
      show (stompMessengerDestroy (.addr a) r).map _ = _
      rw [hrun]
      rfl
    have horderly : Orderly r (.messengerDestroy (.addr a)) := .inr hnone
    refine ⟨_, _, _, hstep, horderly,
      ⟨(step_consistent hc horderly hstep).1, fun c m' hm' => ?_⟩,
      card_objects_lt hm rfl hchange hgone fun c b hb => get_aprTerminate hb⟩
    have hafter := get_aprTerminate hm'
    have hca : c ≠ a := by
      rintro rfl
      cases hgone.symm.trans hafter
    exact hfree c m' ((messenger_iff hc.sound hchange hca m').mp hafter)

/-! ## Stuck messengers -/

/-- While a messenger is stuck no other one is the last. -/
theorem orderly_of_stuck {r r' : Machine} (hc : Consistent r) {call : MemoryCall}
    {p : Ptr} (hstep : memoryStep r call = some (p, r')) {a : Nat} {m : MessengerObject}
    (hm : r.heap.get a = some (.messenger m)) (hstuck : Stuck m) : Orderly r call := by
  have hsafe : Safe r call := by
    by_contra hnot
    rw [memoryStep_undefined hc hnot] at hstep
    cases hstep
  cases call with
  | messengerDestroy q =>
      obtain ⟨c, m', rfl, hm', hpool, hw⟩ := hsafe
      refine .inl ⟨a, m, ?_, hm⟩
      intro hq
      obtain rfl := Ptr.addr.inj hq
      obtain rfl := Cell.messenger.inj (Option.some.inj (hm.symm.trans hm'))
      rcases hstuck with hnull | hwild
      · exact hpool hnull
      · exact hw hwild
  | _ => trivial

/-- A messenger that is stuck is stuck for ever, whatever is called. -/
theorem stuck_forever {r r' : Machine} {log : List (Event Machine MemoryCall Ptr)}
    (hc : Consistent r) (hrun : Run memoryStep r log r') {a : Nat} {m : MessengerObject}
    (hm : r.heap.get a = some (.messenger m)) (hstuck : Stuck m) :
    Consistent r' ∧ ∃ m', r'.heap.get a = some (.messenger m') ∧ Stuck m' := by
  have hstep : ∀ (r : Machine) call p r',
      (Consistent r ∧ ∃ m, r.heap.get a = some (.messenger m) ∧ Stuck m) →
      True → memoryStep r call = some (p, r') →
      Consistent r' ∧ ∃ m, r'.heap.get a = some (.messenger m) ∧ Stuck m := by
    rintro r call p r' ⟨hc, m, hm, hstuck⟩ - hstep
    obtain ⟨hc', hlingers, -⟩ :=
      step_consistent hc (orderly_of_stuck hc hstep hm hstuck) hstep
    exact ⟨hc', hlingers a m hm hstuck⟩
  exact (hrun.invariant_of_guard hstep ⟨hc, m, hm, hstuck⟩ fun _ _ => trivial).1

/-- It cannot be destroyed. -/
theorem not_destroyed_of_stuck {r : Machine} (hc : Consistent r) {a : Nat}
    {m : MessengerObject} (hm : r.heap.get a = some (.messenger m)) (hstuck : Stuck m) :
    memoryStep r (.messengerDestroy (.addr a)) = none := by
  apply memoryStep_undefined hc
  rintro ⟨c, m', hq, hm', hpool, hw⟩
  obtain rfl := Ptr.addr.inj hq
  obtain rfl := Cell.messenger.inj (Option.some.inj (hm.symm.trans hm'))
  rcases hstuck with hnull | hwild
  · exact hpool hnull
  · exact hw hwild

/-- The initialisation returns a messenger that is stuck if it finds no pool, or no memory
for the text of another failure. -/
theorem stuck_of_init {r r' : Machine} (hc : Consistent r) {calls : InitCalls} {p : Ptr}
    (hmalloc : calls.malloc = true)
    (hstep : memoryStep r (.messengerInit calls) = some (p, r')) :
    ∃ a m, p = .addr a ∧ r'.heap.get a = some (.messenger m) ∧
      (Stuck m ↔ calls.pool = false ∨
        (initFailureText calls).isSome = true ∧ calls.printed = false) := by
  have hapr : calls.apr = true := by
    by_contra hapr
    have hnone : memoryStep r (.messengerInit calls) = none :=
      messengerInit_undefined hmalloc hapr
    rw [hnone] at hstep
    cases hstep
  obtain ⟨h', hchange, hm, htyped, hrun⟩ :=
    stompMessengerInit_spec (r := r) hmalloc hapr
  have hsound : Sound h' := hc.sound.change hchange fun b hb => by
    obtain rfl := Option.some.inj (hm.symm.trans hb)
    exact htyped
  have hpool : (initObject calls r.heap.next).pool = .null ↔ calls.pool = false := by
    unfold initObject
    cases calls.pool <;> simp
  have hend : initEnd calls r.heap.next ⟨h', r.initialized + 1⟩ = some (p, r') :=
    hrun.symm.trans hstep
  unfold initEnd at hend
  cases htext : initFailureText calls with
  | none =>
      rw [htext] at hend
      cases hend
      refine ⟨_, _, rfl, hm, ?_⟩
      simp [Stuck, initObject]
  | some text =>
      rw [htext] at hend
      obtain ⟨h'', q, hset, -, -, ha, -, hwild⟩ :=
        setStatus_spec hsound hm (by simp [initObject]) .failure text calls.printed
      simp only [initFailure, Machine.onHeap, hset] at hend
      cases hend
      refine ⟨_, _, rfl, ha, ?_⟩
      simp [Stuck, hpool, hwild]

/-- **What can be given back.**  After every orderly run: further calls can empty the
heap if and only if every messenger has got its pool and none has lost the text of
its status.  The initialisation returns messengers of the other kind, and these can
never be destroyed, whatever is called. -/
theorem emptied_iff {log : List (Event Machine MemoryCall Ptr)} {r : Machine}
    (h : OrderlyRun log r) :
    ((∃ log' r', Run memoryStep r log' r' ∧ (∀ e ∈ log', Orderly e.pre e.call) ∧
      ∀ a, r'.heap.get a = none) ↔ NoneStuck r) ∧
    (∀ calls p r', calls.malloc = true →
      memoryStep r (.messengerInit calls) = some (p, r') →
        ∃ a m, p = .addr a ∧ r'.heap.get a = some (.messenger m) ∧
          (Stuck m ↔ calls.pool = false ∨
            (initFailureText calls).isSome = true ∧ calls.printed = false)) ∧
    ∀ a m, r.heap.get a = some (.messenger m) → Stuck m →
      ∀ log' r', Run memoryStep r log' r' →
        memoryStep r' (.messengerDestroy (.addr a)) = none := by
  have hc := h.consistent.1
  refine ⟨⟨?_, fun hfree => ?_⟩,
    fun _ _ _ hmalloc hstep => stuck_of_init hc hmalloc hstep,
    fun a m hm hstuck log' r' hrun => ?_⟩
  · rintro ⟨log', r', hrun, -, hempty⟩ a m hm hstuck
    obtain ⟨-, m', hm', -⟩ := stuck_forever hc hrun hm hstuck
    cases (hempty a).symm.trans hm'
  · obtain ⟨log', r', hrun, horderly, ⟨hc', -⟩, hzero⟩ :=
      exists_run_of_variant exists_destroy ⟨hc, hfree⟩
    refine ⟨log', r', hrun, horderly, hc'.sound.tidy.eq_empty fun a b hb => ?_⟩
    by_contra hobject
    have hmem := mem_objects.mpr ⟨b, hb, eq_true_of_ne_false hobject⟩
    rw [Finset.card_eq_zero.mp hzero] at hmem
    exact absurd hmem (Finset.notMem_empty a)
  · obtain ⟨hc', m', hm', hstuck'⟩ := stuck_forever hc hrun hm hstuck
    exact not_destroyed_of_stuck hc' hm' hstuck'

/-- Another messenger is initialised, and there is no pool for it. -/
def stuckCalls : List MemoryCall :=
  sampleCalls ++ [.messengerInit ⟨true, true, false, true, true, true⟩]

theorem emptied_iff_stuckCalls : ∃ log r,
    exec memoryStep Machine.start stuckCalls = some (log, r) ∧
      (¬ ∃ log' r', Run memoryStep r log' r' ∧ (∀ e ∈ log', Orderly e.pre e.call) ∧
        ∀ a, r'.heap.get a = none) ∧
      ∀ log' r', Run memoryStep r log' r' →
        memoryStep r' (.messengerDestroy (.addr 11)) = none := by
  have hrun : (exec memoryStep Machine.start stuckCalls).any (fun s =>
      (messengerAt (.addr 11) s.2.heap).any fun am => am.2.pool = .null) = true := by
    decide +kernel
  obtain ⟨⟨log, r⟩, hexec, hat⟩ := (Option.any_eq_true _ _).mp hrun
  obtain ⟨⟨a, m⟩, ham, hnull⟩ := (Option.any_eq_true _ _).mp hat
  obtain ⟨ha, hm⟩ := messengerAt_eq_some.mp ham
  cases ha
  have hstuck : Stuck m := .inl (of_decide_eq_true hnull)
  obtain ⟨hiff, -, hnever⟩ :=
    emptied_iff (orderlyRun_of_exec hexec (by simp [stuckCalls, sampleCalls]))
  exact ⟨log, r, hexec, fun hempty => hiff.mp hempty 11 m hm hstuck,
    hnever 11 m hm hstuck⟩

/-! ## Messages that were left behind -/

/-- A message keeps its pool, a messenger stays one, and other blocks do not change. -/
def Alike : Cell → Cell → Prop
  | .message m, b' => ∃ m', b' = .message m' ∧ m'.pool = m.pool
  | .messenger _, b' => ∃ m', b' = .messenger m'
  | b, b' => b' = b

theorem Alike.refl (b : Cell) : Alike b b := by
  cases b with
  | message m => exact ⟨m, rfl, rfl⟩
  | messenger m => exact ⟨m, rfl⟩
  | _ => rfl

theorem Alike.trans {b b₁ b' : Cell} (hfirst : Alike b b₁) (hsecond : Alike b₁ b') :
    Alike b b' := by
  cases b with
  | message m =>
      obtain ⟨m₁, rfl, hm₁⟩ := hfirst
      obtain ⟨m', rfl, hm'⟩ := hsecond
      exact ⟨m', rfl, hm'.trans hm₁⟩
  | messenger m =>
      obtain ⟨m₁, rfl⟩ := hfirst
      exact hsecond
  | _ =>
      obtain rfl := hfirst
      exact hsecond

/-- What is there below the address `n` was there before. -/
structure Later (n : Nat) (h h' : Store) : Prop where
  next : n ≤ h'.next
  before : ∀ x < n, ∀ b', h'.get x = some b' → ∃ b, h.get x = some b ∧ Alike b b'

section Later

variable {n : Nat} {h h' : Store}

theorem Later.refl (hn : n ≤ h.next) : Later n h h :=
  ⟨hn, fun _ _ b hb => ⟨b, hb, Alike.refl b⟩⟩

theorem Later.trans {h₁ : Store} (hfirst : Later n h h₁) (hsecond : Later n h₁ h') :
    Later n h h' := by
  refine ⟨hsecond.next, fun x hx b' hb' => ?_⟩
  obtain ⟨b₁, hb₁, halike₁⟩ := hsecond.before x hx b' hb'
  obtain ⟨b, hb, halike⟩ := hfirst.before x hx b₁ hb₁
  exact ⟨b, hb, halike.trans halike₁⟩

theorem later_alloc (hn : n ≤ h.next) (b : Cell) : Later n h (h.alloc b) := by
  refine ⟨?_, fun x hx b' hb' => ⟨b', ?_, Alike.refl b'⟩⟩
  · rw [Heap.next_alloc]
    omega
  · rwa [Heap.get_alloc, if_neg (by omega)] at hb'

/-- What is only freed. -/
theorem later_of_freed (hn : n ≤ h.next) (hnext : h'.next = h.next)
    (hget : ∀ x b, h'.get x = some b → h.get x = some b) : Later n h h' :=
  ⟨hnext ▸ hn, fun x _ b hb => ⟨b, hget x b hb, Alike.refl b⟩⟩

theorem later_heapFree (hn : n ≤ h.next) {a : Nat} (hrun : h.free a = some h') :
    Later n h h' := by
  obtain ⟨-, hnext, hget⟩ := Heap.free_eq_some hrun
  refine later_of_freed hn hnext fun x b hb => ?_
  rw [hget] at hb
  split at hb
  · cases hb
  · exact hb

theorem later_free (hn : n ≤ h.next) {p : Ptr} (hrun : free p h = some h') :
    Later n h h' := by
  cases p with
  | null =>
      obtain rfl := Option.some.inj hrun
      exact Later.refl hn
  | wild => cases hrun
  | addr a =>
      unfold free at hrun
      dsimp only at hrun
      split at hrun
      · cases hrun
      · exact later_heapFree hn hrun

theorem later_aprPoolDestroy (hn : n ≤ h.next) {p : Ptr}
    (hrun : aprPoolDestroy p h = some h') : Later n h h' := by
  unfold aprPoolDestroy at hrun
  split at hrun
  · split at hrun
    · exact later_heapFree hn hrun
    · cases hrun
  · cases hrun

theorem later_aprTerminate (hn : n ≤ h.next) (count : Nat) :
    Later n h (aprTerminate ⟨h, count⟩).heap := by
  refine later_of_freed hn ?_ fun x b hb => get_aprTerminate hb
  unfold aprTerminate
  dsimp only
  split <;> rfl

/-- Another content of a block that was there before, or is newer than `n`. -/
theorem later_store (hn : n ≤ h.next) {a : Nat} {b : Cell}
    (hrun : h.store a b = some h') (hb : a < n → ∀ v, h.get a = some v → Alike v b) :
    Later n h h' := by
  obtain ⟨⟨v, hv⟩, hnext, hget⟩ := Heap.store_eq_some hrun
  refine ⟨hnext ▸ hn, fun x hx b' hb' => ?_⟩
  rw [hget] at hb'
  split at hb'
  · rename_i hxa
    subst hxa
    cases hb'
    exact ⟨v, hv, hb hx v hv⟩
  · exact ⟨b', hb', Alike.refl b'⟩

theorem later_swap (hn : n ≤ h.next) {a : Nat} {b : Cell} {old : Ptr}
    {leaf : Option Cell} {object : Ptr → Cell} (hb : h.get a = some b)
    (halike : ∀ p v, Alike b v → Alike v (object p))
    (hrun : swap h a old leaf object = some h') : Later n h h' := by
  obtain ⟨h₁, hfree, hrun⟩ := Option.bind_eq_some_iff.mp hrun
  have hfreed := later_free hn hfree
  have hobject : ∀ h₂ : Store, Later n h h₂ → ∀ p,
      a < n → ∀ v, h₂.get a = some v → Alike v (object p) := by
    intro h₂ hlater p ha v hv
    obtain ⟨b', hb', hv'⟩ := hlater.before a ha v hv
    obtain rfl := Option.some.inj (hb.symm.trans hb')
    exact halike p v hv'
  cases leaf with
  | none => exact hfreed.trans (later_store hfreed.next hrun (hobject h₁ hfreed _))
  | some l =>
      have halloc := hfreed.trans (later_alloc hfreed.next l)
      exact halloc.trans (later_store halloc.next hrun (hobject _ halloc _))

theorem later_setStatus (hn : n ≤ h.next) {q : Ptr} {code : StatusCode} {text : CString}
    {printed : Bool} (hrun : setStatus q code text printed h = some h') :
    Later n h h' := by
  obtain ⟨a, m, rfl, hm, -⟩ : Reportable h q := by
    by_contra hnot
    rw [setStatus_undefined hnot] at hrun
    cases hrun
  rw [setStatus_eq hm] at hrun
  refine later_swap hn hm (fun p v halike => ?_) hrun
  obtain ⟨m', rfl⟩ := halike
  exact ⟨_, rfl⟩

theorem later_stompMessageFormat (hn : n ≤ h.next) {q : Ptr} {data : Bytes}
    {len : UInt64} {malloc : Bool}
    (hrun : stompMessageFormat q data len malloc h = some h') : Later n h h' := by
  by_cases hnot : messageAt q h = none ∨ ¬ Fits data len malloc
  · rw [stompMessageFormat_eq_none hnot] at hrun
    cases hrun
  · obtain ⟨hm, hfits⟩ := not_or.mp hnot
    obtain ⟨⟨a, m⟩, ham⟩ := Option.ne_none_iff_exists'.mp hm
    obtain ⟨rfl, hget⟩ := messageAt_eq_some.mp ham
    rw [stompMessageFormat_eq hget (not_not.mp hfits)] at hrun
    refine later_swap hn hget (fun p v halike => ?_) hrun
    obtain ⟨m', rfl, hpool⟩ := halike
    exact ⟨_, rfl, hpool.symm⟩

theorem later_stompMessageDestroy (hn : n ≤ h.next) {q : Ptr}
    (hrun : stompMessageDestroy q h = some h') : Later n h h' := by
  unfold stompMessageDestroy at hrun
  simp only [Option.bind_eq_bind, Option.bind_eq_some_iff] at hrun
  obtain ⟨⟨a, m⟩, -, h₁, hpool, h₂, hbody, hmessage⟩ := hrun
  have hfirst := later_aprPoolDestroy hn hpool
  have hsecond := later_free hfirst.next hbody
  exact (hfirst.trans hsecond).trans (later_free hsecond.next hmessage)

theorem later_aprPoolCreate {r r' : Machine} (hn : n ≤ r.heap.next) {found : Bool}
    {p : Ptr} (hrun : aprPoolCreate found r = some (p, r')) :
    Later n r.heap r'.heap := by
  unfold aprPoolCreate at hrun
  split at hrun
  · cases hrun
  · split at hrun
    · cases hrun
      exact later_alloc hn .pool
    · cases hrun
      exact Later.refl hn

/-- A function of the heap alone. -/
theorem later_onHeap {r r' : Machine} {f : Store → Option Store}
    (hf : ∀ h', f r.heap = some h' → Later n r.heap h') (hrun : r.onHeap f = some r') :
    Later n r.heap r'.heap := by
  obtain ⟨h', hf', rfl⟩ := Option.map_eq_some_iff.mp hrun
  exact hf h' hf'

theorem later_stompMessageCreate {r r' : Machine} (hn : n ≤ r.heap.next) {status p : Ptr}
    {calls : CreateCalls} (hrun : stompMessageCreate status calls r = some (p, r')) :
    Later n r.heap r'.heap := by
  unfold stompMessageCreate at hrun
  split at hrun
  · split at hrun
    · cases hrun
    · obtain ⟨r₁, hset, hr⟩ := Option.bind_eq_some_iff.mp hrun
      cases hr
      exact later_onHeap (fun _ => later_setStatus hn) hset
  · have halloc := later_alloc hn (.message ⟨Model.toSize (-1), .null, .wild⟩)
    obtain ⟨⟨pool, r₁⟩, hcreate, hrun⟩ := Option.bind_eq_some_iff.mp hrun
    have hpool := halloc.trans (later_aprPoolCreate halloc.next hcreate)
    dsimp only at hrun
    split at hrun
    · obtain ⟨r₂, hstore, hr⟩ := Option.bind_eq_some_iff.mp hrun
      cases hr
      exact hpool.trans (later_onHeap
        (fun _ h => later_store hpool.next h fun hlt => by omega) hstore)
    · obtain ⟨r₂, hfree, hrun⟩ := Option.bind_eq_some_iff.mp hrun
      obtain ⟨r₃, hset, hr⟩ := Option.bind_eq_some_iff.mp hrun
      cases hr
      have hfreed := hpool.trans (later_onHeap (fun _ => later_free hpool.next) hfree)
      exact hfreed.trans (later_onHeap (fun _ => later_setStatus hfreed.next) hset)

theorem later_initFailure {r r' : Machine} (hn : n ≤ r.heap.next) {ret : Nat} {p : Ptr}
    {text : CString} {printed : Bool}
    (hrun : initFailure ret text printed r = some (p, r')) : Later n r.heap r'.heap := by
  obtain ⟨r₁, hset, hr⟩ := Option.bind_eq_some_iff.mp hrun
  cases hr
  exact later_onHeap (fun _ => later_setStatus hn) hset

/-- A messenger that is being initialised is newer than `n`. -/
theorem later_stompMessengerInit {r r' : Machine} (hn : n ≤ r.heap.next) {p : Ptr}
    {calls : InitCalls} (hrun : stompMessengerInit calls r = some (p, r')) :
    Later n r.heap r'.heap := by
  by_cases hmalloc : calls.malloc = true
  · by_cases hapr : calls.apr = true
    · have halloc := later_alloc hn (.messenger .uninitialised)
      -- the block of the messenger is newer than `n`, and so may be written
      have hwrite : ∀ {r₁ r₂ : Machine} {b : Cell}, Later n r.heap r₁.heap →
          r₁.onHeap (·.store r.heap.next b) = some r₂ → Later n r.heap r₂.heap :=
        fun hlater hstore => hlater.trans (later_onHeap
          (fun _ h => later_store hlater.next h fun hlt => by omega) hstore)
      simp only [stompMessengerInit, hmalloc, hapr, Bool.not_true, Bool.false_eq_true,
        if_false, Option.bind_eq_bind, Option.bind_eq_some_iff] at hrun
      obtain ⟨⟨status, h₁⟩, hsuccess, ⟨pool, r₂⟩, hcreate, r₃, hstore, hrun⟩ := hrun
      cases hsuccess
      have hpool := halloc.trans (later_aprPoolCreate halloc.next hcreate)
      have hthird := hwrite hpool hstore
      split at hrun
      · exact hthird.trans (later_initFailure hthird.next hrun)
      split at hrun
      · obtain ⟨r₄, hstore', hrun⟩ := Option.bind_eq_some_iff.mp hrun
        have hfourth := hwrite hthird hstore'
        exact hfourth.trans (later_initFailure hfourth.next hrun)
      · obtain ⟨r₄, hstore', hrun⟩ := Option.bind_eq_some_iff.mp hrun
        have hblock := hthird.trans (later_alloc hthird.next .properties)
        have hfourth := hwrite hblock hstore'
        split at hrun
        · exact hfourth.trans (later_initFailure hfourth.next hrun)
        · cases hrun
          exact hfourth
    · rw [messengerInit_undefined hmalloc hapr] at hrun
      cases hrun
  · simp only [stompMessengerInit, hmalloc, Bool.not_false, if_true] at hrun
    cases hrun
    exact Later.refl hn

theorem later_stompMessengerDestroy {r r' : Machine} (hn : n ≤ r.heap.next) {q : Ptr}
    (hrun : stompMessengerDestroy q r = some r') : Later n r.heap r'.heap := by
  unfold stompMessengerDestroy stompStatusReset at hrun
  simp only [Option.bind_eq_bind, Option.bind_eq_some_iff] at hrun
  obtain ⟨⟨a, m⟩, hm, h₁, hproperties, ⟨status, h₂'⟩, ⟨h₂, hmessage, hreset⟩, h₃, hstore,
    h₄, hpool, h₅, hfree, hr⟩ := hrun
  cases hreset
  cases hr
  have hget := (messengerAt_eq_some.mp hm).2
  have hfirst := later_free hn hproperties
  have hsecond := hfirst.trans (later_free hfirst.next hmessage)
  have hthird := hsecond.trans (later_store hsecond.next hstore fun ha v hv => by
    obtain ⟨b, hb, halike⟩ := hsecond.before a ha v hv
    obtain rfl := Option.some.inj (hget.symm.trans hb)
    obtain ⟨m', rfl⟩ := halike
    exact ⟨_, rfl⟩)
  have hfourth := hthird.trans (later_aprPoolDestroy hthird.next hpool)
  have hfifth := hfourth.trans (later_free hfourth.next hfree)
  exact hfifth.trans (later_aprTerminate hfifth.next _)

theorem later_memoryStep {r r' : Machine} (hn : n ≤ r.heap.next) {call : MemoryCall}
    {p : Ptr} (hrun : memoryStep r call = some (p, r')) : Later n r.heap r'.heap := by
  cases call with
  | messengerInit calls => exact later_stompMessengerInit hn hrun
  | messengerDestroy q =>
      obtain ⟨r₁, hdestroy, hr⟩ := Option.map_eq_some_iff.mp hrun
      cases hr
      exact later_stompMessengerDestroy hn hdestroy
  | messageCreate q calls => exact later_stompMessageCreate hn hrun
  | messageFormat q data len malloc =>
      obtain ⟨r₁, hformat, hr⟩ := Option.map_eq_some_iff.mp hrun
      cases hr
      exact later_onHeap (fun _ => later_stompMessageFormat hn) hformat
  | messageDestroy q =>
      obtain ⟨r₁, hdestroy, hr⟩ := Option.map_eq_some_iff.mp hrun
      cases hr
      exact later_onHeap (fun _ => later_stompMessageDestroy hn) hdestroy
  | statusSet q code text printed =>
      obtain ⟨r₁, hset, hr⟩ := Option.map_eq_some_iff.mp hrun
      cases hr
      exact later_onHeap (fun _ => later_setStatus hn) hset

end Later

/-- The last messenger takes the pools with it. -/
theorem pool_gone {r r' : Machine} (hc : Consistent r) {q p : Ptr}
    (hstep : memoryStep r (.messengerDestroy q) = some (p, r'))
    (hlast : ¬ Orderly r (.messengerDestroy q)) (x : Nat) :
    r'.heap.get x ≠ some .pool := by
  have hsafe : Safe r (.messengerDestroy q) := by
    by_contra hnot
    rw [memoryStep_undefined hc hnot] at hstep
    cases hstep
  obtain ⟨a, m, rfl, hm, hpool, hw⟩ := hsafe
  obtain ⟨y, hy, hproperties⟩ := hc.sound.pool_of_ne_null hm hpool
  obtain ⟨h', hrun, -⟩ := stompMessengerDestroy_spec hc.sound hm hy hproperties hw
  have hone : r.initialized = 1 := by
    have hpos : r.initialized ≠ 0 := hc.counted.ne_zero.mpr ⟨a, m, hm⟩
    by_contra hne
    obtain ⟨c, m', hca, hm'⟩ := hc.counted.exists_ne (by omega) a
    exact hlast (.inl ⟨c, m', fun h => hca (Ptr.addr.inj h).symm, hm'⟩)
  obtain ⟨r₁, hrun', hr⟩ := Option.map_eq_some_iff.mp hstep
  cases hr
  obtain rfl := Option.some.inj (hrun.symm.trans hrun')
  unfold aprTerminate
  simp only [hone, if_true, Heap.get_sweep]
  intro hx
  obtain ⟨-, hkeep⟩ := Option.filter_eq_some_iff.mp hx
  simp at hkeep

/-- **Too late.**  If the last messenger is destroyed while there are messages, these
can never be destroyed, whatever is called afterwards. -/
theorem never_destroyed {log log' : List (Event Machine MemoryCall Ptr)}
    {r r₁ r₂ : Machine} (h : OrderlyRun log r) {q p : Ptr}
    (hstep : memoryStep r (.messengerDestroy q) = some (p, r₁))
    (hlast : ¬ Orderly r (.messengerDestroy q)) (hrun : Run memoryStep r₁ log' r₂)
    {a : Nat} {m : MessageObject} (hm : r.heap.get a = some (.message m)) :
    memoryStep r₂ (.messageDestroy (.addr a)) = none := by
  have hc := h.consistent.1
  obtain ⟨⟨x, hx⟩, -, hpools, -⟩ := hc.sound.typed a _ hm
  have hpool : r.heap.get x = some .pool := hpools x (hx ▸ List.mem_singleton_self x)
  have hlater₁ := later_memoryStep (le_refl r.heap.next) hstep
  -- the pool is gone with the messenger
  have hgone₁ : r₁.heap.get x = none := by
    cases hget : r₁.heap.get x with
    | none => rfl
    | some b' =>
        obtain ⟨b, hb, halike⟩ := hlater₁.before x (Heap.lt_next hpool) b' hget
        obtain rfl := Option.some.inj (hpool.symm.trans hb)
        obtain rfl : b' = .pool := halike
        exact absurd hget (pool_gone hc hstep hlast x)
  -- and nothing brings it back
  have hstays : ∀ (s : Machine) call p' s', Later r.heap.next r₁.heap s.heap → True →
      memoryStep s call = some (p', s') → Later r.heap.next r₁.heap s'.heap :=
    fun s call p' s' hs _ hs' => hs.trans (later_memoryStep hs.next hs')
  have hlater : Later r.heap.next r₁.heap r₂.heap :=
    (hrun.invariant_of_guard hstays (Later.refl hlater₁.next) fun _ _ => trivial).1
  have hgone₂ : r₂.heap.get x = none := by
    cases hget : r₂.heap.get x with
    | none => rfl
    | some b' =>
        obtain ⟨b, hb, -⟩ := hlater.before x (Heap.lt_next hpool) b' hget
        cases hgone₁.symm.trans hb
  show (Machine.onHeap r₂ _).map _ = none
  suffices hnone : stompMessageDestroy (.addr a) r₂.heap = none by
    rw [Machine.onHeap, hnone]
    rfl
  unfold stompMessageDestroy
  cases hm₂ : messageAt (.addr a) r₂.heap with
  | none => rfl
  | some am =>
      obtain ⟨a', m₂⟩ := am
      obtain ⟨ha, hget⟩ := messageAt_eq_some.mp hm₂
      obtain rfl := Ptr.addr.inj ha
      obtain ⟨b, hb, halike⟩ :=
        (hlater₁.trans hlater).before a (Heap.lt_next hm) _ hget
      obtain rfl := Option.some.inj (hm.symm.trans hb)
      obtain ⟨m', hm', hsame⟩ := halike
      obtain rfl := Cell.message.inj hm'
      simp only [Option.bind_eq_bind, Option.bind_some, hsame, hx, aprPoolDestroy, hgone₂]
      rfl

/-- A message is left behind by the only messenger. -/
theorem never_destroyed_sample : ∃ log r p r₁,
    exec memoryStep Machine.start sampleCalls = some (log, r) ∧
      memoryStep r (.messengerDestroy (.addr 0)) = some (p, r₁) ∧
      memoryStep r₁ (.messageDestroy (.addr 5)) = none := by
  obtain ⟨log, r, hrun, horderly⟩ := sample_run
  have hfacts : (exec memoryStep Machine.start sampleCalls).all (fun s =>
      (messengerAt (.addr 0) s.2.heap).isSome && (messageAt (.addr 5) s.2.heap).isSome &&
      (memoryStep s.2 (.messengerDestroy (.addr 0))).isSome &&
      s.2.initialized == 1) = true := by
    decide +kernel
  rw [hrun] at hfacts
  simp only [Option.all_some, Bool.and_eq_true, beq_iff_eq] at hfacts
  obtain ⟨⟨⟨hmessenger, hmessage⟩, hdestroy⟩, hone⟩ := hfacts
  obtain ⟨⟨a, m⟩, ham⟩ := Option.isSome_iff_exists.mp hmessenger
  obtain ⟨⟨a', m'⟩, ham'⟩ := Option.isSome_iff_exists.mp hmessage
  obtain ⟨⟨p, r₁⟩, hstep⟩ := Option.isSome_iff_exists.mp hdestroy
  obtain ⟨ha, hm⟩ := messengerAt_eq_some.mp ham
  obtain ⟨ha', hm'⟩ := messageAt_eq_some.mp ham'
  cases ha
  cases ha'
  have hlast : ¬ Orderly r (.messengerDestroy (.addr 0)) := by
    rintro (⟨c, m₂, hc, hm₂⟩ | hnone)
    · have hcounted := horderly.consistent.1.counted
      rw [hone] at hcounted
      exact hc (congrArg Ptr.addr (hcounted.eq_of_one hm hm₂))
    · exact hnone 5 m' hm'
  exact ⟨log, r, p, r₁, hrun, hstep, never_destroyed horderly hstep hlast (.nil r₁) hm'⟩

end LibStomp.Session.Teardown
