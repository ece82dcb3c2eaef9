import LibStomp.Model.Memory

/-!
# Who owns which block

A message owns its pool and its body; a messenger owns its pool, the structure around
its exchange properties and the text of its status.  What the functions of
`stomp_status.c` and `stomp_message.c` do is one of three things: an object appears,
it goes with all it owns, or it swaps one block for another.

## Main results

* `setStatus_spec`, `stompMessageFormat_spec`, `stompMessageDestroy_spec` — what
  becomes of the heap.
* `Sound.change` — memory stays sound when one object changes.
-/

namespace LibStomp.Session.Custody

open LibStomp.Model (Bytes CString StatusCode nul toSize)
open LibStomp.Model.Memory
open LibStomp.Verified.Allocation

/-! ## What the blocks own -/

/-- The address a pointer holds. -/
def targets : Ptr → List Nat
  | .addr a => [a]
  | _ => []

def isObject : Cell → Bool
  | .messenger _ => true
  | .message _ => true
  | _ => false

def ownedOf : Cell → List Nat
  | .messenger m =>
      targets m.pool ++ targets m.exchangeProperties ++ targets m.status.message
  | .message m => targets m.pool ++ targets m.body
  | _ => []

/-- The objects are the roots. -/
def custody : Custody Cell where
  isRoot := isObject
  owned := ownedOf
  owned_leaf b hb := by
    cases b with
    | messenger => cases hb
    | message => cases hb
    | _ => rfl

/-- The pointers of an object lead to blocks of the right kind.  What a messenger has
got depends on where its initialisation has stopped. -/
def WellTyped (h : Store) : Cell → Prop
  | .messenger m =>
      (m.pool = .null ∧ m.exchangeProperties = .wild ∨
        (∃ p, m.pool = .addr p) ∧ m.exchangeProperties ≠ .wild) ∧
      (∀ x ∈ targets m.pool, h.get x = some .pool) ∧
      (∀ x ∈ targets m.exchangeProperties, h.get x = some .properties) ∧
      ∀ x ∈ targets m.status.message, ∃ s, h.get x = some (.text s)
  | .message m => (∃ p, m.pool = .addr p) ∧ m.body ≠ .wild ∧
      (∀ x ∈ targets m.pool, h.get x = some .pool) ∧
      ∀ x ∈ targets m.body, ∃ bs, h.get x = some (.octets bs)
  | _ => True

/-- What is said of an object depends on what it owns. -/
theorem WellTyped.congr {h h' : Store} {b : Cell} (hb : WellTyped h b)
    (hsame : ∀ x ∈ ownedOf b, h'.get x = h.get x) : WellTyped h' b := by
  cases b with
  | messenger m =>
      obtain ⟨hparts, hpool, hproperties, htext⟩ := hb
      refine ⟨hparts, fun x hx => ?_, fun x hx => ?_, fun x hx => ?_⟩
      · rw [hsame x (List.mem_append_left _ (List.mem_append_left _ hx))]
        exact hpool x hx
      · rw [hsame x (List.mem_append_left _ (List.mem_append_right _ hx))]
        exact hproperties x hx
      · rw [hsame x (List.mem_append_right _ hx)]
        exact htext x hx
  | message m =>
      obtain ⟨hp, hbody, hpool, hoctets⟩ := hb
      refine ⟨hp, hbody, fun x hx => ?_, fun x hx => ?_⟩
      · rw [hsame x (List.mem_append_left _ hx)]
        exact hpool x hx
      · rw [hsame x (List.mem_append_right _ hx)]
        exact hoctets x hx
  | _ => trivial

/-- The state of memory that every run keeps. -/
structure Sound (h : Store) : Prop where
  tidy : Tidy custody h
  typed : ∀ a b, h.get a = some b → WellTyped h b

theorem sound_empty : Sound Heap.empty :=
  ⟨tidy_empty, fun _ _ h => by cases h⟩

/-- A change of one object keeps memory sound if the object is well typed. -/
theorem Sound.change {h h' : Store} {a : Nat} (hs : Sound h)
    (hc : RootChange custody h h' a)
    (htyped : ∀ b, h'.get a = some b → WellTyped h' b) : Sound h' := by
  refine ⟨hs.tidy.change hc, fun c b hb => ?_⟩
  by_cases hca : c = a
  · subst hca
    exact htyped b hb
  · cases hroot : isObject b with
    | false =>
        cases b with
        | messenger => cases hroot
        | message => cases hroot
        | _ => trivial
    | true =>
        have hbefore : h.get c = some b := hc.root_before hca hb hroot
        exact (hs.typed c b hbefore).congr fun x hx => hc.same hs.tidy hca hbefore hx

/-- A messenger that has got its pool has got its properties, or NULL. -/
theorem Sound.pool_of_ne_null {h : Store} (hs : Sound h) {a : Nat} {m : MessengerObject}
    (hm : h.get a = some (.messenger m)) (hpool : m.pool ≠ .null) :
    ∃ p, m.pool = .addr p ∧ m.exchangeProperties ≠ .wild := by
  rcases (hs.typed a _ hm).1 with ⟨hnull, -⟩ | ⟨⟨p, hp⟩, hproperties⟩
  · exact absurd hnull hpool
  · exact ⟨p, hp, hproperties⟩

theorem Sound.congr {h h' : Store} (hs : Sound h) (hget : ∀ x, h'.get x = h.get x) :
    Sound h' := by
  exact ⟨hs.tidy.congr hget, fun a b hb =>
    (hs.typed a b (hget a ▸ hb)).congr fun x _ => hget x⟩

/-- An object appears at the next address, in front of the blocks it owns. -/
theorem rootChange_new (leaf : Nat → Cell) {h h' : Store} {b : Cell}
    (hroot : isObject b = true) (hleaf : ∀ x, isObject (leaf x) = false)
    (hfresh : ∀ x ∈ ownedOf b, h.next < x) (hnodup : (ownedOf b).Nodup)
    (hget : ∀ x, h'.get x = if x = h.next then some b
      else if x ∈ ownedOf b then some (leaf x) else h.get x) :
    RootChange custody h h' h.next := by
  refine RootChange.create (h.fresh _ (le_refl _)) (by rw [hget, if_pos rfl]) hroot
    hnodup (fun x hx => h.fresh x (hfresh x hx).le) (fun x hx => ?_)
    (fun x hxa hx => (hget x).trans ((if_neg hxa).trans (if_neg hx)))
  have hne := (hfresh x hx).ne'
  have hx' : x ∈ ownedOf b := hx
  exact ⟨leaf x, by rw [hget, if_neg hne, if_pos hx'], hleaf x⟩

/-! ## Single functions -/

/-- NULL leads nowhere, and neither does what is not initialised. -/
theorem forall_targets_null {P : Nat → Prop} : ∀ x ∈ targets .null, P x :=
  fun _ hx => absurd hx List.not_mem_nil

theorem forall_targets_wild {P : Nat → Prop} : ∀ x ∈ targets .wild, P x :=
  fun _ hx => absurd hx List.not_mem_nil

theorem forall_targets_addr {P : Nat → Prop} {a : Nat} (ha : P a) :
    ∀ x ∈ targets (.addr a), P x :=
  fun _ hx => List.mem_singleton.mp hx ▸ ha

/-- Freeing what a pointer that was initialised leads to. -/
theorem free_eq {p : Ptr} (hp : p ≠ .wild) {h : Store}
    (hmalloc : ∀ x ∈ targets p, h.get x ≠ some .pool) :
    free p h = h.freeAll (targets p) := by
  cases p with
  | wild => exact absurd rfl hp
  | null => rfl
  | addr a =>
      have ha : h.get a ≠ some .pool := hmalloc a (List.mem_singleton_self a)
      simp only [free, ha, if_false, targets, Heap.freeAll, Option.bind_fun_some]

theorem free_addr {a : Nat} {h : Store} (ha : h.get a ≠ some .pool) :
    free (.addr a) h = h.free a :=
  if_neg ha

theorem aprPoolDestroy_eq {x : Nat} {h : Store} (hx : h.get x = some .pool) :
    aprPoolDestroy (.addr x) h = h.free x :=
  if_pos hx

theorem messengerAt_eq_some {p : Ptr} {h : Store} {a : Nat} {m : MessengerObject} :
    messengerAt p h = some (a, m) ↔ p = .addr a ∧ h.get a = some (.messenger m) := by
  constructor
  · intro hm
    unfold messengerAt at hm
    split at hm
    · split at hm
      · rename_i hget
        obtain ⟨rfl, rfl⟩ := Prod.mk.inj (Option.some.inj hm)
        exact ⟨rfl, hget⟩
      · cases hm
    · cases hm
  · rintro ⟨rfl, hget⟩
    unfold messengerAt
    simp only [hget]

theorem messageAt_eq_some {p : Ptr} {h : Store} {a : Nat} {m : MessageObject} :
    messageAt p h = some (a, m) ↔ p = .addr a ∧ h.get a = some (.message m) := by
  constructor
  · intro hm
    unfold messageAt at hm
    split at hm
    · split at hm
      · rename_i hget
        obtain ⟨rfl, rfl⟩ := Prod.mk.inj (Option.some.inj hm)
        exact ⟨rfl, hget⟩
      · cases hm
    · cases hm
  · rintro ⟨rfl, hget⟩
    unfold messageAt
    simp only [hget]

/-! ## Swapping one block for another -/

/-- An object `a` gives up what one of its pointers leads to and gets a new block, or
none if there is no memory for it. -/
def swap (h : Store) (a : Nat) (old : Ptr) (leaf : Option Cell) (object : Ptr → Cell) :
    Option Store :=
  (free old h).bind fun h =>
    match leaf with
    | some l => (h.alloc l).store a (object (.addr h.next))
    | none => h.store a (object .wild)

theorem swap_spec {h : Store} (ht : Tidy custody h) (leaf : Option Cell)
    (object : Ptr → Cell) {a : Nat} {b : Cell} {old : Ptr} {kept : List Nat}
    (hb : h.get a = some b) (hroot : isObject b = true)
    (hroot' : ∀ p, isObject (object p) = true) (hwild : old ≠ .wild)
    (hmalloc : ∀ x ∈ targets old, h.get x ≠ some .pool)
    (hold : ownedOf b = kept ++ targets old)
    (hnew : ∀ p, ownedOf (object p) = kept ++ targets p)
    (hleaf : ∀ l ∈ leaf, isObject l = false) :
    ∃ h' p, swap h a old leaf object = some h' ∧ RootChange custody h h' a ∧
      h'.get a = some (object p) ∧ (∀ x ∈ kept, h'.get x = h.get x) ∧
      match leaf with
      | some l => ∃ x, p = .addr x ∧ h'.get x = some l
      | none => p = .wild := by
  have howned : ∀ x ∈ targets old, x ∈ ownedOf b := fun x hx =>
    hold ▸ List.mem_append_right _ hx
  have hself : ∀ x ∈ targets old, x ≠ a := by
    rintro x hx rfl
    have hnot := ht.notMem_of_root hb hroot x
    rw [hb] at hnot
    exact hnot (howned x hx)
  have hnodup : (targets old).Nodup := by
    have hall := ht.nodup hb
    exact (List.nodup_append.mp (show (kept ++ targets old).Nodup from hold ▸ hall)).2.1
  obtain ⟨h₁, hfree, hnext₁, hget₁⟩ := Heap.freeAll_of_live hnodup fun x hx =>
    (ht.live hb (howned x hx)).imp fun _ hl => hl.1
  have ha₁ : h₁.get a = some b := by
    rw [hget₁, if_neg fun hmem => hself a hmem rfl, hb]
  have ha : a < h.next := Heap.lt_next hb
  have hdropped : ∀ x ∈ targets old, x < h.next := by
    intro x hx
    obtain ⟨l, hl, -⟩ := ht.live hb (howned x hx)
    exact Heap.lt_next hl
  cases leaf with
  | none =>
      obtain ⟨h', hstore, -, hget⟩ := Heap.store_spec (w := object .wild) ha₁
      have ha' : h'.get a = some (object .wild) := by rw [hget, if_pos rfl]
      have hfresh : ∀ x ∈ ([] : List Nat), h.get x = none :=
        fun x hx => absurd hx List.not_mem_nil
      have hkeep : ∀ x, x ≠ a → x ∉ targets old → x ∉ [] → h'.get x = h.get x := by
        intro x hxa hx _
        rw [hget, if_neg hxa, hget₁, if_neg hx]
      refine ⟨h', .wild, ?_, RootChange.replace ht hb hroot (hroot' _) hold
        (hnew .wild) hfresh List.nodup_nil ha'
        (fun x hx => absurd hx List.not_mem_nil) (fun x hx => ?_) hkeep, ha',
        fun x hx => (ht.kept hb hroot hold hfresh hkeep x hx).2, rfl⟩
      · rw [swap, free_eq hwild hmalloc, hfree]
        exact hstore
      · rw [hget, if_neg (hself x hx), hget₁, if_pos hx]
  | some l =>
      have ha₂ : (h₁.alloc l).get a = some b := by
        rw [Heap.get_alloc, if_neg (by omega), ha₁]
      obtain ⟨h', hstore, -, hget⟩ := Heap.store_spec (w := object (.addr h₁.next)) ha₂
      have ha' : h'.get a = some (object (.addr h₁.next)) := by rw [hget, if_pos rfl]
      have hblock : h'.get h₁.next = some l := by
        rw [hget, if_neg (by omega), Heap.get_alloc, if_pos rfl]
      have hcases : ∀ x ∈ targets (.addr h₁.next), x = h₁.next := fun x hx =>
        List.mem_singleton.mp hx
      have hfresh : ∀ x ∈ [h₁.next], h.get x = none := by
        intro x hx
        rw [hcases x hx]
        exact h.fresh _ hnext₁.ge
      have hkeep : ∀ x, x ≠ a → x ∉ targets old → x ∉ [h₁.next] →
          h'.get x = h.get x := by
        intro x hxa hx hx'
        have hne : x ≠ h₁.next := fun heq => hx' (List.mem_singleton.mpr heq)
        rw [hget, if_neg hxa, Heap.get_alloc, if_neg hne, hget₁, if_neg hx]
      refine ⟨h', .addr h₁.next, ?_, RootChange.replace ht hb hroot (hroot' _) hold
        (hnew (.addr h₁.next)) hfresh (List.nodup_singleton h₁.next) ha'
        (fun x hx => ?_) (fun x hx => ?_) hkeep, ha',
        fun x hx => (ht.kept hb hroot hold hfresh hkeep x hx).2, h₁.next, rfl, hblock⟩
      · rw [swap, free_eq hwild hmalloc, hfree]
        exact hstore
      · rw [hcases x hx]
        exact ⟨l, hblock, hleaf l rfl⟩
      · have hlt := hdropped x hx
        rw [hget, if_neg (hself x hx), Heap.get_alloc, if_neg (by omega), hget₁,
          if_pos hx]

/-! ## Setting a status -/

theorem stompStatusSet_eq (status : StatusObject) (code : StatusCode) (text : CString)
    (printed : Bool) (h : Store) :
    stompStatusSet status code (some text) printed h =
      (free status.message h).map fun h =>
        if printed then (⟨code, .addr h.next⟩, h.alloc (.text text))
        else (⟨code, .wild⟩, h) := by
  obtain ⟨code', message⟩ := status
  unfold stompStatusSet stompStatusReset
  cases message with
  | null => cases printed <;> rfl
  | wild => rfl
  | addr a =>
      dsimp only
      cases free (.addr a) h with
      | none => rfl
      | some h' => cases printed <;> rfl

/-- The text a pointer leads to. -/
def textAt (h : Store) : Ptr → Option CString
  | .addr x =>
      match h.get x with
      | some (.text s) => some s
      | _ => none
  | _ => none

theorem setStatus_eq {h : Store} {a : Nat} {m : MessengerObject}
    (hm : h.get a = some (.messenger m)) (code : StatusCode) (text : CString)
    (printed : Bool) :
    setStatus (.addr a) code text printed h =
      swap h a m.status.message (if printed then some (.text text) else none)
        (fun p => .messenger { m with status := ⟨code, p⟩ }) := by
  unfold setStatus swap
  rw [messengerAt_eq_some.mpr ⟨rfl, hm⟩]
  simp only [Option.bind_eq_bind, Option.bind_some, stompStatusSet_eq]
  cases free m.status.message h with
  | none => rfl
  | some h₁ => cases printed <;> rfl

/-- The status of a messenger can be set unless a text of it was lost before. -/
theorem setStatus_spec {h : Store} {a : Nat} {m : MessengerObject} (hs : Sound h)
    (hm : h.get a = some (.messenger m)) (hw : m.status.message ≠ .wild)
    (code : StatusCode) (text : CString) (printed : Bool) :
    ∃ h' p, setStatus (.addr a) code text printed h = some h' ∧
      RootChange custody h h' a ∧ Sound h' ∧
      h'.get a = some (.messenger { m with status := ⟨code, p⟩ }) ∧
      textAt h' p = (if printed then some text else none) ∧
      (p = .wild ↔ printed = false) := by
  obtain ⟨hparts, hpool, hproperties, htext⟩ := hs.typed a _ hm
  obtain ⟨h', p, hrun, hc, ha, hkept, hp⟩ := swap_spec hs.tidy
    (if printed then some (.text text) else none)
    (fun p => .messenger { m with status := ⟨code, p⟩ })
    hm rfl (fun _ => rfl) hw (fun x hx => by obtain ⟨s, hs⟩ := htext x hx; simp [hs])
    rfl (fun _ => rfl) (by cases printed <;> simp [isObject])
  refine ⟨h', p, (setStatus_eq hm code text printed).trans hrun, hc,
    hs.change hc fun b hb => ?_, ha, ?_⟩
  · obtain rfl := Option.some.inj (ha.symm.trans hb)
    refine ⟨hparts,
      fun x hx => (hkept x (List.mem_append_left _ hx)).trans (hpool x hx),
      fun x hx => (hkept x (List.mem_append_right _ hx)).trans (hproperties x hx),
      fun x hx => ?_⟩
    cases printed with
    | false =>
        obtain rfl : p = .wild := hp
        exact absurd hx List.not_mem_nil
    | true =>
        obtain ⟨y, rfl, hy⟩ := hp
        obtain rfl := List.mem_singleton.mp hx
        exact ⟨text, hy⟩
  · cases printed with
    | false =>
        obtain rfl : p = .wild := hp
        exact ⟨rfl, by simp⟩
    | true =>
        obtain ⟨y, rfl, hy⟩ := hp
        exact ⟨by simp only [textAt, hy, if_true], by simp⟩

/-- Without a messenger, or with a text that was lost, it cannot. -/
theorem setStatus_eq_none {h : Store} {q : Ptr} (code : StatusCode) (text : CString)
    (printed : Bool)
    (hq : ∀ a m, messengerAt q h = some (a, m) → m.status.message = .wild) :
    setStatus q code text printed h = none := by
  unfold setStatus
  cases hm : messengerAt q h with
  | none => rfl
  | some am =>
      obtain ⟨a, m⟩ := am
      simp only [Option.bind_eq_bind, Option.bind_some, stompStatusSet_eq, hq a m hm]
      rfl

/-! ## Filling and destroying a message -/

/-- The octets a pointer leads to. -/
def octetsAt (h : Store) : Ptr → Option Bytes
  | .addr x =>
      match h.get x with
      | some (.octets bs) => some bs
      | _ => none
  | _ => none

/-- There is room for a copy of the data, and the copy stays inside the data. -/
def Fits (data : Bytes) (len : UInt64) (malloc : Bool) : Prop :=
  malloc = true ∧ len + 1 ≠ 0 ∧ readable data len = true

/-- The octets of a formatted message. -/
def formatted (data : Bytes) (len : UInt64) : Bytes :=
  let text := CString.ofBuffer (data.take len.toNat)
  text.bytes ++ List.replicate (len.toNat + 1 - text.strlen) nul

theorem stompMessageFormat_eq {h : Store} {a : Nat} {m : MessageObject}
    (hm : h.get a = some (.message m)) {data : Bytes} {len : UInt64} {malloc : Bool}
    (hfits : Fits data len malloc) :
    stompMessageFormat (.addr a) data len malloc h =
      swap h a m.body (some (.octets (formatted data len))) (fun p => .message
        ⟨(Model.stompMessageFormat ⟨m.size, none⟩ data len).size, p, m.pool⟩) := by
  obtain ⟨hmalloc, hlen, hreadable⟩ := hfits
  unfold stompMessageFormat swap
  rw [messageAt_eq_some.mpr ⟨rfl, hm⟩]
  simp only [Option.bind_eq_bind, Option.bind_some, hmalloc, hreadable, hlen, ne_eq,
    not_false_eq_true, decide_true, Bool.and_self, if_true]
  cases hptr : m.body <;> rfl

theorem stompMessageFormat_spec {h : Store} {a : Nat} {m : MessageObject}
    (hs : Sound h) (hm : h.get a = some (.message m)) {data : Bytes} {len : UInt64}
    {malloc : Bool} (hfits : Fits data len malloc) :
    ∃ h' p, stompMessageFormat (.addr a) data len malloc h = some h' ∧
      RootChange custody h h' a ∧ Sound h' ∧
      h'.get a = some (.message
        ⟨(Model.stompMessageFormat ⟨m.size, none⟩ data len).size, p, m.pool⟩) ∧
      octetsAt h' p = (Model.stompMessageFormat ⟨m.size, none⟩ data len).body := by
  obtain ⟨hp, hbody, hpool, hold⟩ := hs.typed a _ hm
  obtain ⟨h', p, hrun, hc, ha, hkept, x, rfl, hx⟩ := swap_spec hs.tidy
    (some (.octets (formatted data len))) (fun p => .message
      ⟨(Model.stompMessageFormat ⟨m.size, none⟩ data len).size, p, m.pool⟩)
    hm rfl (fun _ => rfl) hbody (fun x hx => by obtain ⟨bs, hbs⟩ := hold x hx; simp [hbs])
    rfl (fun _ => rfl) (by simp [isObject])
  refine ⟨h', .addr x, (stompMessageFormat_eq hm hfits).trans hrun, hc,
    hs.change hc fun b hb => ?_, ha, ?_⟩
  · obtain rfl := Option.some.inj (ha.symm.trans hb)
    refine ⟨hp, by simp, fun y hy => (hkept y hy).trans (hpool y hy), fun y hy => ?_⟩
    obtain rfl := List.mem_singleton.mp hy
    exact ⟨_, hx⟩
  · simp only [octetsAt, hx]
    rfl

theorem stompMessageFormat_eq_none {h : Store} {q : Ptr} {data : Bytes} {len : UInt64}
    {malloc : Bool} (hnot : messageAt q h = none ∨ ¬ Fits data len malloc) :
    stompMessageFormat q data len malloc h = none := by
  unfold stompMessageFormat
  rcases hnot with hnone | hfits
  · rw [hnone]
    rfl
  · have hcond : (malloc && decide (len + 1 ≠ 0) && readable data len) = false := by
      rw [Bool.eq_false_iff]
      intro htrue
      simp only [Bool.and_eq_true, decide_eq_true_eq] at htrue
      exact hfits ⟨htrue.1.1, htrue.1.2, htrue.2⟩
    simp only [hcond, Bool.false_eq_true, if_false, Option.bind_eq_bind]
    cases messageAt q h with
    | none => rfl
    | some am => simp

theorem stompMessageDestroy_spec {h : Store} {a : Nat} {m : MessageObject}
    (hs : Sound h) (hm : h.get a = some (.message m)) :
    ∃ h', stompMessageDestroy (.addr a) h = some h' ∧
      RootChange custody h h' a ∧ Sound h' ∧ h'.get a = none := by
  obtain ⟨⟨p, hp⟩, hbody, hpool, hoctets⟩ := hs.typed a _ hm
  have hroot := hs.tidy.notMem_of_root hm rfl a
  rw [hm] at hroot
  have howned : ownedOf (.message m) = p :: targets m.body := by
    simp [ownedOf, hp, targets]
  have hnodup : (ownedOf (.message m)).Nodup := hs.tidy.nodup hm
  rw [howned] at hnodup
  obtain ⟨hpbody, hbodyNodup⟩ := List.nodup_cons.mp hnodup
  obtain ⟨hap, hab⟩ : a ≠ p ∧ a ∉ targets m.body := by
    simpa only [List.mem_cons, not_or] using
      show a ∉ p :: targets m.body from howned ▸ hroot
  have hppool : h.get p = some .pool := hpool p (hp ▸ List.mem_singleton_self p)
  obtain ⟨h₁, hfree₁, -, hget₁⟩ := Heap.free_spec hppool
  have hlive : ∀ x ∈ targets m.body, ∃ bs, h₁.get x = some (.octets bs) := by
    intro x hx
    rw [hget₁, if_neg (ne_of_mem_of_not_mem hx hpbody)]
    exact hoctets x hx
  obtain ⟨h₂, hfree₂, -, hget₂⟩ := Heap.freeAll_of_live hbodyNodup fun x hx =>
    (hlive x hx).imp' _ fun _ hbs => hbs
  have ha₂ : h₂.get a = some (.message m) := by
    rw [hget₂, if_neg hab, hget₁, if_neg hap, hm]
  obtain ⟨h', hfree', -, hget'⟩ := Heap.free_spec ha₂
  have hgone : h'.get a = none := by rw [hget', if_pos rfl]
  have hc : RootChange custody h h' a := by
    refine RootChange.destroy hm rfl fun x => ?_
    show h'.get x = if x = a ∨ x ∈ ownedOf (.message m) then none else h.get x
    rw [hget', hget₂, hget₁, howned]
    by_cases hxa : x = a
    · simp [hxa]
    · by_cases hxp : x = p
      · simp [hxp]
      · simp [hxa, hxp]
  refine ⟨h', ?_, hc, hs.change hc fun b hb => ?_, hgone⟩
  · unfold stompMessageDestroy
    rw [messageAt_eq_some.mpr ⟨rfl, hm⟩]
    simp only [Option.bind_eq_bind, Option.bind_some, hp, aprPoolDestroy_eq hppool,
      hfree₁]
    rw [free_eq hbody fun x hx => by obtain ⟨bs, hbs⟩ := hlive x hx; simp [hbs], hfree₂]
    exact (free_addr (by simp [ha₂])).trans hfree'
  · cases hgone.symm.trans hb

theorem stompMessageDestroy_eq_none {h : Store} {q : Ptr} (hnone : messageAt q h = none) :
    stompMessageDestroy q h = none := by
  unfold stompMessageDestroy
  rw [hnone]
  rfl

end LibStomp.Session.Custody
