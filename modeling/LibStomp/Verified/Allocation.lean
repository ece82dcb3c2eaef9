import Mathlib.Logic.Function.Basic
import Mathlib.Data.List.Nodup

/-!
# Heaps and what their blocks own

A heap maps addresses to live blocks; an address is given out once, so a pointer to
a block that was freed stays dangling.  Freeing or writing what is not live has
no result.

Some blocks are roots, which the program holds by pointers of its own, and a root
owns the blocks it points to.  A heap is tidy when every block that is not a root
is owned by exactly one root and every owned pointer leads to a live block.  Then
nothing is leaked, and a root can free what it owns.

## Main results

* `Tidy.change`, `RootChange.trans` — a change of one root and of what it owns keeps
  a heap tidy; several of them are one.
* `RootChange.replace`, `RootChange.create`, `RootChange.destroy` — the ways in which
  a root changes.
* `Tidy.sweep` — so does a sweep that drops roots with what they own.
* `Tidy.eq_empty` — a tidy heap without roots is empty.
-/

namespace LibStomp.Verified.Allocation

/-! ## Heaps -/

/-- The live blocks, and the first address that was never given out. -/
structure Heap (V : Type) where
  get : Nat → Option V
  next : Nat
  fresh : ∀ a, next ≤ a → get a = none

variable {V : Type}

namespace Heap

def empty : Heap V := ⟨fun _ => none, 0, fun _ _ => rfl⟩

/-- The heap with a new block, at the address `h.next`. -/
def alloc (h : Heap V) (v : V) : Heap V where
  get := Function.update h.get h.next (some v)
  next := h.next + 1
  fresh a ha := by
    rw [Function.update_of_ne (by omega)]
    exact h.fresh a (by omega)

theorem lt_next {h : Heap V} {a : Nat} {v : V} (hv : h.get a = some v) :
    a < h.next := by
  by_contra hge
  rw [h.fresh a (by omega)] at hv
  cases hv

/-- The heap with another content of a live block. -/
def store (h : Heap V) (a : Nat) (v : V) : Option (Heap V) :=
  if ha : (h.get a).isSome then
    some
      { get := Function.update h.get a (some v)
        next := h.next
        fresh := fun b hb => by
          have hne : b ≠ a := by
            rintro rfl
            rw [h.fresh b hb] at ha
            cases ha
          rw [Function.update_of_ne hne]
          exact h.fresh b hb }
  else none

/-- The heap without a live block. -/
def free (h : Heap V) (a : Nat) : Option (Heap V) :=
  if (h.get a).isSome then
    some
      { get := Function.update h.get a none
        next := h.next
        fresh := fun b hb => by
          by_cases hba : b = a
          · rw [hba, Function.update_self]
          · rw [Function.update_of_ne hba]
            exact h.fresh b hb }
  else none

/-- Free one block after the other. -/
def freeAll (h : Heap V) : List Nat → Option (Heap V)
  | [] => some h
  | a :: as => (h.free a).bind fun h' => h'.freeAll as

/-- The heap without the blocks that are dropped. -/
def sweep (h : Heap V) (drop : V → Bool) : Heap V where
  get a := (h.get a).filter fun v => !drop v
  next := h.next
  fresh a ha := by rw [h.fresh a ha]; rfl

@[simp] theorem get_empty (a : Nat) : (empty : Heap V).get a = none := rfl

theorem get_alloc (h : Heap V) (v : V) (a : Nat) :
    (h.alloc v).get a = if a = h.next then some v else h.get a :=
  Function.update_apply _ _ _ _

@[simp] theorem next_alloc (h : Heap V) (v : V) : (h.alloc v).next = h.next + 1 := rfl

/-- Freeing a live block, and what is left. -/
theorem free_spec {h : Heap V} {a : Nat} {v : V} (ha : h.get a = some v) :
    ∃ h', h.free a = some h' ∧ h'.next = h.next ∧
      ∀ b, h'.get b = if b = a then none else h.get b := by
  unfold free
  rw [if_pos (by rw [ha]; rfl)]
  exact ⟨_, rfl, rfl, fun b => Function.update_apply _ _ _ _⟩

/-- Writing a live block, and what is there then. -/
theorem store_spec {h : Heap V} {a : Nat} {v w : V} (ha : h.get a = some v) :
    ∃ h', h.store a w = some h' ∧ h'.next = h.next ∧
      ∀ b, h'.get b = if b = a then some w else h.get b := by
  unfold store
  rw [dif_pos (by rw [ha]; rfl)]
  exact ⟨_, rfl, rfl, fun b => Function.update_apply _ _ _ _⟩

theorem free_eq_some {h h' : Heap V} {a : Nat} (hfree : h.free a = some h') :
    (∃ v, h.get a = some v) ∧ h'.next = h.next ∧
      ∀ b, h'.get b = if b = a then none else h.get b := by
  cases ha : h.get a with
  | none => simp [free, ha] at hfree
  | some v =>
      obtain ⟨h₁, hrun, hnext, hget⟩ := free_spec ha
      obtain rfl := Option.some.inj (hrun.symm.trans hfree)
      exact ⟨⟨v, rfl⟩, hnext, hget⟩

theorem store_eq_some {h h' : Heap V} {a : Nat} {w : V} (hstore : h.store a w = some h') :
    (∃ v, h.get a = some v) ∧ h'.next = h.next ∧
      ∀ b, h'.get b = if b = a then some w else h.get b := by
  cases ha : h.get a with
  | none => simp [store, ha] at hstore
  | some v =>
      obtain ⟨h₁, hrun, hnext, hget⟩ := store_spec (w := w) ha
      obtain rfl := Option.some.inj (hrun.symm.trans hstore)
      exact ⟨⟨v, rfl⟩, hnext, hget⟩

theorem get_sweep (h : Heap V) (drop : V → Bool) (a : Nat) :
    (h.sweep drop).get a = (h.get a).filter fun v => !drop v := rfl

theorem sweep_eq_self {h : Heap V} {drop : V → Bool}
    (hkeep : ∀ a v, h.get a = some v → drop v = false) : h.sweep drop = h := by
  have hget : (h.sweep drop).get = h.get := by
    funext a
    rw [get_sweep]
    cases ha : h.get a with
    | none => rfl
    | some v => simp [hkeep a v ha]
  cases h
  simp only [sweep, mk.injEq, and_true] at hget ⊢
  exact hget

/-- Different live blocks can be freed, in any order. -/
theorem freeAll_of_live {as : List Nat} : ∀ {h : Heap V}, as.Nodup →
    (∀ a ∈ as, ∃ v, h.get a = some v) →
    ∃ h', h.freeAll as = some h' ∧ h'.next = h.next ∧
      ∀ x, h'.get x = if x ∈ as then none else h.get x := by
  induction as with
  | nil => intro h _ _; exact ⟨h, rfl, rfl, fun x => (if_neg List.not_mem_nil).symm⟩
  | cons a as ih =>
      intro h hnodup hlive
      obtain ⟨hnot, hrest⟩ := List.nodup_cons.mp hnodup
      obtain ⟨v, hv⟩ := hlive a List.mem_cons_self
      obtain ⟨h₁, hfree, hnext₁, hget₁⟩ := free_spec hv
      obtain ⟨h', hrun, hnext, hget⟩ := ih (h := h₁) hrest (fun x hx => by
        rw [hget₁, if_neg (ne_of_mem_of_not_mem hx hnot)]
        exact hlive x (List.mem_cons_of_mem _ hx))
      refine ⟨h', ?_, hnext.trans hnext₁, fun x => ?_⟩
      · rw [freeAll, hfree]
        exact hrun
      · rw [hget, hget₁]
        by_cases hxa : x = a
        · simp [hxa]
        · simp [hxa]

end Heap

/-! ## Custody -/

/-- Which blocks the program holds itself, and what they own.  The others own
nothing. -/
structure Custody (V : Type) where
  isRoot : V → Bool
  owned : V → List Nat
  owned_leaf : ∀ b, isRoot b = false → owned b = []

variable {own : Custody V}

/-- Every block but the roots is owned once, and owned pointers do not dangle. -/
structure Tidy (own : Custody V) (h : Heap V) : Prop where
  live : ∀ {a b x}, h.get a = some b → x ∈ own.owned b →
    ∃ l, h.get x = some l ∧ own.isRoot l = false
  nodup : ∀ {a b}, h.get a = some b → (own.owned b).Nodup
  once : ∀ {a a' b b' x}, h.get a = some b → h.get a' = some b' → x ∈ own.owned b →
    x ∈ own.owned b' → a = a'
  reached : ∀ {x l}, h.get x = some l → own.isRoot l = false →
    ∃ a b, h.get a = some b ∧ x ∈ own.owned b

theorem tidy_empty : Tidy own Heap.empty where
  live h := by cases h
  nodup h := by cases h
  once h := by cases h
  reached h := by cases h

/-- Only a root owns anything. -/
theorem isRoot_of_owned {b : V} {x : Nat} (h : x ∈ own.owned b) :
    own.isRoot b = true := by
  by_contra hleaf
  rw [own.owned_leaf b (by simpa using hleaf)] at h
  exact absurd h List.not_mem_nil

/-- **No leaks.**  What is not owned by anybody is not there. -/
theorem Tidy.eq_empty {h : Heap V} (ht : Tidy own h)
    (hnone : ∀ a b, h.get a = some b → own.isRoot b = false) (a : Nat) :
    h.get a = none := by
  by_contra hne
  obtain ⟨l, hl⟩ := Option.ne_none_iff_exists'.mp hne
  obtain ⟨a', b, hb, hx⟩ := ht.reached hl (hnone a l hl)
  have hroot := isRoot_of_owned hx
  rw [hnone a' b hb] at hroot
  cases hroot

/-- What a root owns, if it is there. -/
def ownedBy (own : Custody V) : Option V → List Nat
  | some b => own.owned b
  | none => []

/-- A root is owned by nobody. -/
theorem Tidy.notMem_of_root {h : Heap V} (ht : Tidy own h) {c : Nat} {b : V}
    (hb : h.get c = some b) (hroot : own.isRoot b = true) (a : Nat) :
    c ∉ ownedBy own (h.get a) := by
  intro hmem
  cases ha : h.get a with
  | none => rw [ha] at hmem; exact absurd hmem List.not_mem_nil
  | some b' =>
      rw [ha] at hmem
      obtain ⟨l, hl, hleaf⟩ := ht.live ha hmem
      obtain rfl := Option.some.inj (hl.symm.trans hb)
      rw [hroot] at hleaf
      cases hleaf

/-- A root appears, goes or changes together with what it owns: what it no longer owns
is freed, what it owns anew was not there before, and everything else stays as it
was. -/
structure RootChange (own : Custody V) (h h' : Heap V) (a : Nat) : Prop where
  before : ∀ b, h.get a = some b → own.isRoot b = true
  after : ∀ b, h'.get a = some b → own.isRoot b = true
  nodup : (ownedBy own (h'.get a)).Nodup
  new : ∀ x ∈ ownedBy own (h'.get a), x ∈ ownedBy own (h.get a) ∨ h.get x = none
  leaf : ∀ x ∈ ownedBy own (h'.get a), ∃ l, h'.get x = some l ∧ own.isRoot l = false
  gone : ∀ x ∈ ownedBy own (h.get a), x ∉ ownedBy own (h'.get a) → h'.get x = none
  keep : ∀ x, x ≠ a → x ∉ ownedBy own (h.get a) → x ∉ ownedBy own (h'.get a) →
    h'.get x = h.get x

section Change

variable {h h' : Heap V} {a : Nat} (ht : Tidy own h) (hc : RootChange own h h' a)
include ht hc

/-- Another root stays as it was. -/
theorem RootChange.root {c : Nat} {b : V} (hca : c ≠ a) (hb : h.get c = some b)
    (hroot : own.isRoot b = true) : h'.get c = some b := by
  have hold := ht.notMem_of_root hb hroot a
  refine (hc.keep c hca hold fun hnew => ?_).trans hb
  rcases hc.new c hnew with hmem | hnone
  · exact hold hmem
  · cases hnone.symm.trans hb

/-- What another root owns is not touched. -/
theorem RootChange.owned {c x : Nat} {b : V} (hca : c ≠ a) (hb : h.get c = some b)
    (hx : x ∈ own.owned b) :
    x ≠ a ∧ x ∉ ownedBy own (h.get a) ∧ x ∉ ownedBy own (h'.get a) := by
  obtain ⟨l, hl, hleaf⟩ := ht.live hb hx
  have hbefore : x ∉ ownedBy own (h.get a) := by
    intro hmem
    cases ha : h.get a with
    | none => rw [ha] at hmem; exact absurd hmem List.not_mem_nil
    | some b' =>
        rw [ha] at hmem
        exact hca (ht.once hb ha hx hmem)
  refine ⟨?_, hbefore, fun hmem => ?_⟩
  · rintro rfl
    rw [hc.before l hl] at hleaf
    cases hleaf
  · rcases hc.new x hmem with hold | hnone
    · exact hbefore hold
    · cases hnone.symm.trans hl

theorem RootChange.same {c x : Nat} {b : V} (hca : c ≠ a) (hb : h.get c = some b)
    (hx : x ∈ own.owned b) : h'.get x = h.get x := by
  obtain ⟨hxa, hxo, hxn⟩ := hc.owned ht hca hb hx
  exact hc.keep x hxa hxo hxn

omit ht in
/-- What owns something afterwards is the root that changed or was there before. -/
theorem RootChange.owner {c x : Nat} {b : V} (hb : h'.get c = some b)
    (hx : x ∈ own.owned b) :
    c = a ∧ x ∈ ownedBy own (h'.get a) ∨ c ≠ a ∧ h.get c = some b := by
  by_cases hca : c = a
  · subst hca
    exact .inl ⟨rfl, by rw [hb]; exact hx⟩
  · refine .inr ⟨hca, ?_⟩
    by_cases hnew : c ∈ ownedBy own (h'.get a)
    · obtain ⟨l, hl, hleaf⟩ := hc.leaf c hnew
      obtain rfl := Option.some.inj (hl.symm.trans hb)
      rw [own.owned_leaf l hleaf] at hx
      exact absurd hx List.not_mem_nil
    · by_cases hold : c ∈ ownedBy own (h.get a)
      · cases (hc.gone c hold hnew).symm.trans hb
      · rw [← hc.keep c hca hold hnew]
        exact hb

omit ht in
/-- A root that is there afterwards is the one that changed or was there before. -/
theorem RootChange.root_before {c : Nat} {b : V} (hca : c ≠ a)
    (hb : h'.get c = some b) (hroot : own.isRoot b = true) : h.get c = some b := by
  have hnew : c ∉ ownedBy own (h'.get a) := by
    intro hmem
    obtain ⟨l, hl, hleaf⟩ := hc.leaf c hmem
    obtain rfl := Option.some.inj (hl.symm.trans hb)
    rw [hroot] at hleaf
    cases hleaf
  by_cases hold : c ∈ ownedBy own (h.get a)
  · cases (hc.gone c hold hnew).symm.trans hb
  · rw [← hc.keep c hca hold hnew]
    exact hb

/-- **The change rule.**  A change of one root and of what it owns keeps a heap
tidy. -/
theorem Tidy.change : Tidy own h' := by
  constructor
  · intro c b x hb hx
    rcases hc.owner hb hx with ⟨-, hmem⟩ | ⟨hca, hold⟩
    · exact hc.leaf x hmem
    · obtain ⟨l, hl, hleaf⟩ := ht.live hold hx
      exact ⟨l, (hc.same ht hca hold hx).trans hl, hleaf⟩
  · intro c b hb
    by_cases hempty : own.owned b = []
    · rw [hempty]
      exact List.nodup_nil
    · obtain ⟨x, hx⟩ := List.exists_mem_of_ne_nil _ hempty
      rcases hc.owner hb hx with ⟨rfl, -⟩ | ⟨-, hold⟩
      · have hnodup := hc.nodup
        rw [hb] at hnodup
        exact hnodup
      · exact ht.nodup hold
  · intro c c' b b' x hb hb' hx hx'
    rcases hc.owner hb hx with ⟨rfl, hmem⟩ | ⟨hca, hold⟩
    · rcases hc.owner hb' hx' with ⟨rfl, -⟩ | ⟨hca', hold'⟩
      · rfl
      · exact absurd hmem (hc.owned ht hca' hold' hx').2.2
    · rcases hc.owner hb' hx' with ⟨rfl, hmem⟩ | ⟨hca', hold'⟩
      · exact absurd hmem (hc.owned ht hca hold hx).2.2
      · exact ht.once hold hold' hx hx'
  · intro x l hl hleaf
    by_cases hxn : x ∈ ownedBy own (h'.get a)
    · cases ha : h'.get a with
      | none => rw [ha] at hxn; exact absurd hxn List.not_mem_nil
      | some b =>
          rw [ha] at hxn
          exact ⟨a, b, ha, hxn⟩
    · have hxa : x ≠ a := by
        rintro rfl
        rw [hc.after l hl] at hleaf
        cases hleaf
      have hxo : x ∉ ownedBy own (h.get a) := fun hold => by
        cases (hc.gone x hold hxn).symm.trans hl
      rw [hc.keep x hxa hxo hxn] at hl
      obtain ⟨c, b, hb, hx⟩ := ht.reached hl hleaf
      have hca : c ≠ a := by
        rintro rfl
        exact hxo (by rw [hb]; exact hx)
      exact ⟨c, b, hc.root ht hca hb (isRoot_of_owned hx), hx⟩

/-- Two changes of one root are a change of it. -/
theorem RootChange.trans {h'' : Heap V} (hc' : RootChange own h' h'' a) :
    RootChange own h h'' a := by
  have ht' : Tidy own h' := ht.change hc
  -- what the root owns is never the root itself
  have hself : a ∉ ownedBy own (h'.get a) := by
    cases ha : h'.get a with
    | none => exact List.not_mem_nil
    | some b => exact ha ▸ ht'.notMem_of_root ha (hc.after b ha) a
  have hself' : a ∉ ownedBy own (h.get a) := by
    cases ha : h.get a with
    | none => exact List.not_mem_nil
    | some b => exact ha ▸ ht.notMem_of_root ha (hc.before b ha) a
  refine ⟨hc.before, hc'.after, hc'.nodup, fun x hx => ?_, hc'.leaf,
    fun x hx hx'' => ?_, fun x hxa hx hx'' => ?_⟩
  · by_cases hx' : x ∈ ownedBy own (h'.get a)
    · exact hc.new x hx'
    by_cases hold : x ∈ ownedBy own (h.get a)
    · exact .inl hold
    · rcases hc'.new x hx with hmem | hnone
      · exact absurd hmem hx'
      · have hxa : x ≠ a := by
          rintro rfl
          obtain ⟨l, hl, hleaf⟩ := hc'.leaf x hx
          rw [hc'.after l hl] at hleaf
          cases hleaf
        exact .inr ((hc.keep x hxa hold hx').symm.trans hnone)
  · by_cases hx' : x ∈ ownedBy own (h'.get a)
    · exact hc'.gone x hx' hx''
    · have hxa : x ≠ a := fun hxa => hself' (hxa ▸ hx)
      exact (hc'.keep x hxa hx' hx'').trans (hc.gone x hx hx')
  · by_cases hx' : x ∈ ownedBy own (h'.get a)
    · rcases hc.new x hx' with hold | hnone
      · exact absurd hold hx
      · exact (hc'.gone x hx' hx'').trans hnone.symm
    · exact (hc'.keep x hxa hx' hx'').trans (hc.keep x hxa hx hx')

end Change

section Changes

variable {h h' : Heap V} {a : Nat}

/-- A root keeps some of what it owns: that is untouched by what happens to the rest. -/
theorem Tidy.kept (ht : Tidy own h) {b : V} {kept dropped new : List Nat}
    (hb : h.get a = some b) (hroot : own.isRoot b = true)
    (hold : own.owned b = kept ++ dropped) (hfresh : ∀ x ∈ new, h.get x = none)
    (hkeep : ∀ x, x ≠ a → x ∉ dropped → x ∉ new → h'.get x = h.get x) :
    ∀ x ∈ kept, x ∉ new ∧ h'.get x = h.get x := by
  intro x hx
  have howned : x ∈ own.owned b := hold ▸ List.mem_append_left _ hx
  obtain ⟨l, hl, -⟩ := ht.live hb howned
  have hnew : x ∉ new := fun hmem => by cases (hfresh x hmem).symm.trans hl
  refine ⟨hnew, hkeep x ?_ (fun hd => ?_) hnew⟩
  · rintro rfl
    have hnot := ht.notMem_of_root hb hroot x
    rw [hb] at hnot
    exact hnot howned
  · have hdistinct := ht.nodup hb
    rw [hold] at hdistinct
    exact (List.nodup_append.mp hdistinct).2.2 x hx x hd rfl

/-- A root keeps some of what it owns; the rest is freed, and new blocks take its
place. -/
theorem RootChange.replace (ht : Tidy own h) {b b' : V} {kept dropped new : List Nat}
    (hb : h.get a = some b) (hroot : own.isRoot b = true)
    (hroot' : own.isRoot b' = true) (hold : own.owned b = kept ++ dropped)
    (hown : own.owned b' = kept ++ new) (hfresh : ∀ x ∈ new, h.get x = none)
    (hnodup : new.Nodup) (ha : h'.get a = some b')
    (hleaf : ∀ x ∈ new, ∃ l, h'.get x = some l ∧ own.isRoot l = false)
    (hdropped : ∀ x ∈ dropped, h'.get x = none)
    (hkeep : ∀ x, x ≠ a → x ∉ dropped → x ∉ new → h'.get x = h.get x) :
    RootChange own h h' a := by
  have hkept := ht.kept hb hroot hold hfresh hkeep
  have hdistinct := ht.nodup hb
  rw [hold] at hdistinct
  refine ⟨?_, ?_, ?_, ?_, ?_, ?_, ?_⟩
  · intro c hc
    obtain rfl := Option.some.inj (hb.symm.trans hc)
    exact hroot
  · intro c hc
    obtain rfl := Option.some.inj (ha.symm.trans hc)
    exact hroot'
  · rw [ha]
    show (own.owned b').Nodup
    rw [hown]
    refine List.nodup_append.mpr ⟨(List.nodup_append.mp hdistinct).1, hnodup, ?_⟩
    rintro x hx y hy rfl
    exact (hkept x hx).1 hy
  · rw [ha, hb]
    show ∀ x ∈ own.owned b', x ∈ own.owned b ∨ h.get x = none
    rw [hown, hold]
    intro x hx
    rcases List.mem_append.mp hx with hx | hx
    · exact .inl (List.mem_append_left _ hx)
    · exact .inr (hfresh x hx)
  · rw [ha]
    show ∀ x ∈ own.owned b', _
    rw [hown]
    intro x hx
    rcases List.mem_append.mp hx with hx | hx
    · rw [(hkept x hx).2]
      exact ht.live hb (hold ▸ List.mem_append_left _ hx)
    · exact hleaf x hx
  · rw [ha, hb]
    show ∀ x ∈ own.owned b, x ∉ own.owned b' → _
    rw [hown, hold]
    intro x hx hx'
    rcases List.mem_append.mp hx with hx | hx
    · exact absurd (List.mem_append_left _ hx) hx'
    · exact hdropped x hx
  · rw [ha, hb]
    show ∀ x, x ≠ a → x ∉ own.owned b → x ∉ own.owned b' → _
    rw [hown, hold]
    intro x hxa hx hx'
    exact hkeep x hxa (fun hd => hx (List.mem_append_right _ hd))
      fun hn => hx' (List.mem_append_right _ hn)

/-- A root appears, with new blocks of its own. -/
theorem RootChange.create {b : V} (hfresh : h.get a = none) (ha : h'.get a = some b)
    (hroot : own.isRoot b = true) (hnodup : (own.owned b).Nodup)
    (hnew : ∀ x ∈ own.owned b, h.get x = none)
    (hleaf : ∀ x ∈ own.owned b, ∃ l, h'.get x = some l ∧ own.isRoot l = false)
    (hkeep : ∀ x, x ≠ a → x ∉ own.owned b → h'.get x = h.get x) :
    RootChange own h h' a := by
  refine ⟨?_, ?_, ?_, ?_, ?_, ?_, ?_⟩
  · intro c hc
    cases hfresh.symm.trans hc
  · intro c hc
    obtain rfl := Option.some.inj (ha.symm.trans hc)
    exact hroot
  · rw [ha]
    exact hnodup
  · rw [ha]
    exact fun x hx => .inr (hnew x hx)
  · rw [ha]
    exact hleaf
  · rw [hfresh]
    exact fun x hx => absurd hx List.not_mem_nil
  · rw [ha]
    exact fun x hxa _ hx => hkeep x hxa hx

/-- A root goes, with all it owns. -/
theorem RootChange.destroy {b : V} (hb : h.get a = some b) (hroot : own.isRoot b = true)
    (hget : ∀ x, h'.get x = if x = a ∨ x ∈ own.owned b then none else h.get x) :
    RootChange own h h' a := by
  have hgone : h'.get a = none := by rw [hget, if_pos (.inl rfl)]
  refine ⟨?_, ?_, ?_, ?_, ?_, ?_, ?_⟩
  · intro c hc
    obtain rfl := Option.some.inj (hb.symm.trans hc)
    exact hroot
  · intro c hc
    cases hgone.symm.trans hc
  · rw [hgone]
    exact List.nodup_nil
  · rw [hgone]
    exact fun x hx => absurd hx List.not_mem_nil
  · rw [hgone]
    exact fun x hx => absurd hx List.not_mem_nil
  · rw [hb]
    exact fun x hx _ => (hget x).trans (if_pos (.inr hx))
  · rw [hb]
    exact fun x hxa hx _ => (hget x).trans (if_neg (not_or.mpr ⟨hxa, hx⟩))

/-- A change starts from any heap with the same blocks. -/
theorem RootChange.congr {h₁ : Heap V} (hc : RootChange own h₁ h' a)
    (hget : ∀ x, h₁.get x = h.get x) : RootChange own h h' a := by
  obtain ⟨before, after, nodup, new, leaf, gone, keep⟩ := hc
  simp only [hget] at before new gone keep
  exact ⟨before, after, nodup, new, leaf, gone, keep⟩

/-- So does tidiness. -/
theorem Tidy.congr (ht : Tidy own h) (hget : ∀ x, h'.get x = h.get x) :
    Tidy own h' := by
  obtain ⟨live, nodup, once, reached⟩ := ht
  simp only [← hget] at live nodup once reached
  exact ⟨live, nodup, once, reached⟩

/-- A sweep that drops a root together with what it owns keeps a heap tidy. -/
theorem Tidy.sweep (ht : Tidy own h) {drop : V → Bool}
    (hdrop : ∀ {a b x l}, h.get a = some b → x ∈ own.owned b → h.get x = some l →
      drop l = drop b) : Tidy own (h.sweep drop) := by
  have hleft : ∀ {a b}, (h.sweep drop).get a = some b →
      h.get a = some b ∧ drop b = false := by
    intro a b hb
    rw [Heap.get_sweep, Option.filter_eq_some_iff] at hb
    exact ⟨hb.1, by simpa using hb.2⟩
  have hstays : ∀ {a b}, h.get a = some b → drop b = false →
      (h.sweep drop).get a = some b := by
    intro a b hb hkeep
    rw [Heap.get_sweep, hb]
    simp [hkeep]
  constructor
  · intro a b x hb hx
    obtain ⟨hold, hkeep⟩ := hleft hb
    obtain ⟨l, hl, hleaf⟩ := ht.live hold hx
    exact ⟨l, hstays hl ((hdrop hold hx hl).trans hkeep), hleaf⟩
  · exact fun hb => ht.nodup (hleft hb).1
  · exact fun hb hb' hx hx' => ht.once (hleft hb).1 (hleft hb').1 hx hx'
  · intro x l hl hleaf
    obtain ⟨hold, hkeep⟩ := hleft hl
    obtain ⟨a, b, hb, hx⟩ := ht.reached hold hleaf
    exact ⟨a, b, hstays hb ((hdrop hb hx hold).symm.trans hkeep), hx⟩

end Changes

end LibStomp.Verified.Allocation
