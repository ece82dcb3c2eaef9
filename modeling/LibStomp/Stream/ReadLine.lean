import LibStomp.Model.Io
import LibStomp.Verified.Lines

/-!
# What one line read does

`stomp_read_line` and `stomp_read_buffer` receive one byte per call into a chain
of blocks and copy the chain out.  This module states both as equations on the
bytes that such receives deliver before one of them fails, `supply`: the outcome
is the line scan of `LibStomp.Verified.Lines` on them, whatever the sizes the
schedule allows, because a one-byte receive cannot be cut.  As long as no
scheduled receive fails these are the bytes of the inbox.

`Io.advance n` is the state after `n` one-byte receives.  The index into the
schedule is part of it, so that a reader of the equations can tell which turn
the next, larger receive will meet.
-/

namespace LibStomp.Stream.ReadLine

open LibStomp.Model
open LibStomp.Verified.BlockChain
open LibStomp.Verified.Lines

/-! ## Sequencing -/

theorem bind_of_ok {α β : Type} {x : IoM α} {f : α → IoM β} {io io' : Io} {a : α}
    (h : x io = .ok a io') : (x >>= f) io = f a io' := by
  show EStateM.bind x f io = f a io'
  simp only [EStateM.bind, h]

theorem bind_of_error {α β : Type} {x : IoM α} {f : α → IoM β} {io io' : Io}
    {rc : AprError}
    (h : x io = .error rc io') : (x >>= f) io = .error rc io' := by
  show EStateM.bind x f io = .error rc io'
  simp only [EStateM.bind, h]

theorem bind_eq_ok {α β : Type} {x : IoM α} {f : α → IoM β} {io io' : Io} {b : β}
    (h : (x >>= f) io = .ok b io') :
    ∃ a io₁, x io = .ok a io₁ ∧ f a io₁ = .ok b io' := by
  cases hx : x io with
  | ok a io₁ => exact ⟨a, io₁, rfl, (bind_of_ok hx).symm.trans h⟩
  | error rc io₁ => cases (bind_of_error hx).symm.trans h

theorem bind_eq_error {α β : Type} {x : IoM α} {f : α → IoM β} {io io' : Io}
    {rc : AprError} (h : (x >>= f) io = .error rc io') :
    x io = .error rc io' ∨ ∃ a io₁, x io = .ok a io₁ ∧ f a io₁ = .error rc io' := by
  cases hx : x io with
  | ok a io₁ => exact .inr ⟨a, io₁, rfl, (bind_of_ok hx).symm.trans h⟩
  | error rc' io₁ =>
      obtain ⟨rfl, rfl⟩ :=
        EStateM.Result.error.inj ((bind_of_error (f := f) hx).symm.trans h)
      exact .inl rfl

theorem get_bind {α : Type} (f : Io → IoM α) (io : Io) :
    ((get : IoM Io) >>= f) io = f io io := rfl

theorem onError_of_ok {α : Type} {x : IoM α} {note : AprError → Io → Io}
    {io io' : Io} {a : α}
    (h : x io = .ok a io') : onError x note io = .ok a io' := by
  simp only [onError, h]

theorem onError_of_error {α : Type} {x : IoM α} {note : AprError → Io → Io}
    {io io' : Io} {rc : AprError} (h : x io = .error rc io') :
    onError x note io = .error rc (note rc io') := by
  simp only [onError, h]

/-- What succeeds with its failures noted succeeds without. -/
theorem onError_eq_ok {α : Type} {x : IoM α} {note : AprError → Io → Io}
    {io io' : Io} {a : α} (h : onError x note io = .ok a io') : x io = .ok a io' := by
  cases hx : x io with
  | ok a' io₁ => exact (onError_of_ok hx).symm.trans h
  | error rc io₁ => cases (onError_of_error hx).symm.trans h

theorem onError_eq_error {α : Type} {x : IoM α} {note : AprError → Io → Io}
    {io io' : Io} {rc : AprError} (h : onError x note io = .error rc io') :
    ∃ io₁, x io = .error rc io₁ ∧ io' = note rc io₁ := by
  cases hx : x io with
  | ok a io₁ => cases (onError_of_ok hx).symm.trans h
  | error rc' io₁ =>
      obtain ⟨rfl, rfl⟩ := EStateM.Result.error.inj ((onError_of_error hx).symm.trans h)
      exact ⟨io₁, rfl, rfl⟩

/-! ## One-byte receives -/

/-- No scheduled receive fails. -/
def Delivering (io : Io) : Prop :=
  ∀ turn ∈ io.socket.recvs, ∃ extra, turn = .upTo extra

/-- The state in which the bytes `s` and the turns `turns` are still to come. -/
def remaining (s : Bytes) (turns : List Turn) (io : Io) : Io :=
  { io with socket := { io.socket with inbox := s, recvs := turns } }

@[simp] theorem remaining_inbox (s : Bytes) (turns : List Turn) (io : Io) :
    (remaining s turns io).socket.inbox = s := rfl

@[simp] theorem remaining_recvs (s : Bytes) (turns : List Turn) (io : Io) :
    (remaining s turns io).socket.recvs = turns := rfl

/-- The state after `n` one-byte receives. -/
def advance (n : Nat) (io : Io) : Io :=
  { io with socket :=
    { io.socket with
      inbox := io.socket.inbox.drop n
      recvs := io.socket.recvs.drop n } }

theorem advance_eq (n : Nat) (io : Io) :
    advance n io =
      remaining (io.socket.inbox.drop n) (io.socket.recvs.drop n) io := rfl

@[simp] theorem advance_inbox (n : Nat) (io : Io) :
    (advance n io).socket.inbox = io.socket.inbox.drop n := rfl

@[simp] theorem advance_recvs (n : Nat) (io : Io) :
    (advance n io).socket.recvs = io.socket.recvs.drop n := rfl

theorem advance_advance (m n : Nat) (io : Io) :
    advance n (advance m io) = advance (m + n) io := by
  simp only [advance, List.drop_drop]

theorem Delivering.advance {io : Io} (h : Delivering io) (n : Nat) :
    Delivering (advance n io) :=
  fun turn ht => h turn (List.mem_of_mem_drop ht)

theorem advance_length_inbox {io : Io} {l t : Bytes}
    (hin : io.socket.inbox = l ++ t) :
    (advance l.length io).socket.inbox = t := by
  rw [advance_inbox, hin, List.drop_left]

theorem advance_succ_inbox {io : Io} {l t : Bytes} {b : UInt8}
    (hin : io.socket.inbox = l ++ b :: t) :
    (advance (l.length + 1) io).socket.inbox = t := by
  rw [← advance_advance, advance_inbox, advance_length_inbox hin]
  rfl

/-! ## One-byte receives under any schedule -/

/-- What the next receive is scheduled to fail with. -/
def scheduled : List Turn → Option AprError
  | .fail rc :: _ => some rc
  | _ => none

/-- The bytes that receives of one byte deliver before one of them fails. -/
def supplied : Bytes → List Turn → Bytes
  | [], _ => []
  | b :: bs, turns =>
      match scheduled turns with
      | some _ => []
      | none => b :: supplied bs (turns.drop 1)

/-- The status of the receive that fails. -/
def brokenBy (atEnd : AprError) : Bytes → List Turn → AprError
  | [], turns => (scheduled turns).getD atEnd
  | _ :: bs, turns =>
      match scheduled turns with
      | some rc => rc
      | none => brokenBy atEnd bs (turns.drop 1)

def supply (io : Io) : Bytes := supplied io.socket.inbox io.socket.recvs

def cause (io : Io) : AprError :=
  brokenBy io.socket.atEnd io.socket.inbox io.socket.recvs

/-- The state after a receive that fails. -/
def failed (io : Io) : Io :=
  { io with socket := { io.socket with recvs := io.socket.recvs.drop 1 } }

/-- **A receive of one byte takes the next byte that is supplied**; when there is none
it fails. -/
theorem recv_one_cases (io : Io) :
    (supply io = [] ∧ recv 1 io = .error (cause io) (failed io)) ∨
      ∃ b t, io.socket.inbox = b :: t ∧ recv 1 io = .ok [b] (advance 1 io) ∧
        supply io = b :: supply (advance 1 io) ∧ cause (advance 1 io) = cause io := by
  obtain ⟨⟨fd, inbox, outbox, recvs, sends, waits, atEnd⟩, error, endline⟩ := io
  cases recvs with
  | nil =>
      cases inbox with
      | nil => exact .inl ⟨rfl, rfl⟩
      | cons b t => exact .inr ⟨b, t, rfl, rfl, rfl, rfl⟩
  | cons turn rest =>
      cases turn with
      | fail rc => cases inbox <;> exact .inl ⟨rfl, rfl⟩
      | upTo extra =>
          cases inbox with
          | nil =>
              refine .inl ⟨rfl, ?_⟩
              simp [recv, aprSocketRecv, Socket.pull, failed, cause, brokenBy,
                scheduled]
          | cons b t =>
              refine .inr ⟨b, t, rfl, ?_, rfl, rfl⟩
              simp [recv, aprSocketRecv, Socket.pull, advance]

/-- What is supplied is the beginning of the stream, and is supplied in pieces. -/
theorem supply_append {p t : Bytes} :
    ∀ {io : Io}, supply io = p ++ t →
      io.socket.inbox = p ++ (advance p.length io).socket.inbox ∧
        supply (advance p.length io) = t ∧ cause (advance p.length io) = cause io := by
  induction p with
  | nil => intro io h; exact ⟨rfl, h, rfl⟩
  | cons b p ih =>
      intro io h
      rcases recv_one_cases io with ⟨hnone, -⟩ | ⟨b', t', hin, -, hsupply, hcause⟩
      · rw [hnone] at h
        cases h
      · rw [hsupply] at h
        obtain ⟨rfl, hrest⟩ := List.cons.inj h
        obtain ⟨hin', hsupply', hcause'⟩ := ih hrest
        rw [advance_advance, Nat.add_comm] at hin' hsupply' hcause'
        refine ⟨?_, hsupply', hcause'.trans hcause⟩
        rw [List.length_cons, List.cons_append, ← hin', hin, advance_inbox, hin]
        rfl

theorem supply_drop {io : Io} {n : Nat} (h : n ≤ (supply io).length) :
    supply (advance n io) = (supply io).drop n ∧ cause (advance n io) = cause io := by
  have hsplit := supply_append (List.take_append_drop n (supply io)).symm
  rw [List.length_take_of_le h] at hsplit
  exact hsplit.2

theorem exists_inbox_eq (io : Io) : ∃ t, io.socket.inbox = supply io ++ t :=
  ⟨_, (supply_append (List.append_nil (supply io)).symm).1⟩

/-- When no receive fails, the stream is supplied to its end. -/
theorem Delivering.supply_eq {io : Io} (hd : Delivering io) :
    supply io = io.socket.inbox ∧ cause io = io.socket.atEnd := by
  obtain ⟨⟨fd, inbox, outbox, recvs, sends, waits, atEnd⟩, error, endline⟩ := io
  have hnone : ∀ {turns : List Turn}, (∀ turn ∈ turns, ∃ extra, turn = .upTo extra) →
      scheduled turns = none := by
    intro turns h
    cases turns with
    | nil => rfl
    | cons turn rest =>
        obtain ⟨extra, rfl⟩ := h turn List.mem_cons_self
        rfl
  have hall : ∀ {turns : List Turn}, (∀ turn ∈ turns, ∃ extra, turn = .upTo extra) →
      supplied inbox turns = inbox ∧ brokenBy atEnd inbox turns = atEnd := by
    induction inbox with
    | nil =>
        intro turns h
        refine ⟨rfl, ?_⟩
        rw [brokenBy, hnone h]
        rfl
    | cons b t ih =>
        intro turns h
        obtain ⟨hsupplied, hbroken⟩ :=
          ih hd fun turn ht => h turn (List.mem_of_mem_drop ht)
        rw [supplied, brokenBy, hnone h]
        exact ⟨congrArg (List.cons b) hsupplied, hbroken⟩
  exact hall hd

/-- A loop that takes one byte per round has rounds enough for the rest. -/
private theorem inbox_lt_of_cons {io : Io} {b : UInt8} {t : Bytes} {fuel : Nat}
    (hin : io.socket.inbox = b :: t) (h : io.socket.inbox.length < fuel + 1) :
    (advance 1 io).socket.inbox.length < fuel := by
  rw [hin, List.length_cons] at h
  rw [advance_inbox, hin]
  show t.length < fuel
  omega

/-! ## `stomp_read_line` -/

/-- The loop takes the bytes of a line one by one into the chain. -/
theorem readLineLoop_scan (A : Apr) {fuel : Nat} :
    ∀ (chain : Chain UInt8 blockSize) (k : Nat) (io : Io),
      io.socket.inbox.length < fuel →
      match scanLine lf nul (supply io) with
      | .line l _ =>
          readLineLoop A fuel chain k io =
            .ok ((l.foldl (Chain.push nul) chain).store nul, k + (l.length + 1))
              (advance (l.length + 1) io)
      | .stop l _ =>
          readLineLoop A fuel chain k io =
            failWith .egeneral
              (.lit "protocol error (end-of-string before end-of-line)")
              (advance (l.length + 1) io)
      | .short =>
          readLineLoop A fuel chain k io =
            .error (cause io) (Io.setError A
              (.lit "unable to read data from the socket") (cause io)
              (failed (advance (supply io).length io))) := by
  induction fuel with
  | zero => intro chain k io h; omega
  | succ fuel ih =>
      intro chain k io hfuel
      rw [readLineLoop]
      rcases recv_one_cases io with ⟨hnone, hrecv⟩ | ⟨b, t, hin, hrecv, hsupply, hcause⟩
      · rw [hnone, bind_of_error (onError_of_error hrecv)]
        rfl
      rw [hsupply, bind_of_ok (onError_of_ok hrecv), scanLine]
      by_cases hlf : b = lf
      · simp only [hlf, if_true]
        rfl
      by_cases hnul : b = nul
      · subst hnul
        rfl
      simp only [hlf, hnul, if_false]
      have hrest := ih (chain.push nul b) (k + 1) (advance 1 io)
        (inbox_lt_of_cons hin hfuel)
      cases hscan : scanLine lf nul (supply (advance 1 io)) with
      | line l t' =>
          rw [hscan] at hrest
          have hk : k + 1 + (l.length + 1) = k + (l.length + 1 + 1) := by omega
          simp only [] at hrest ⊢
          rw [hrest, advance_advance, hk, Nat.add_comm 1]
          rfl
      | stop l t' =>
          rw [hscan] at hrest
          simp only [] at hrest ⊢
          rw [hrest, advance_advance, Nat.add_comm 1]
          rfl
      | short =>
          rw [hscan] at hrest
          simp only [] at hrest ⊢
          rw [hrest, advance_advance, hcause, List.length_cons, Nat.add_comm 1]

/-- Copying out the chain that holds `l` and a terminator gives `l` and the
terminator. -/
theorem copyOut_pushed (l : Bytes) :
    copyOut ((l.foldl (Chain.push nul) firstBlock).store nul)
      (l.length + 1) = l ++ [nul] := by
  have hcontent : (l.foldl (Chain.push nul) firstBlock).content = l := by
    rw [Chain.content_foldl_push, firstBlock, Chain.content_fresh,
      List.nil_append]
  have h := (l.foldl (Chain.push nul) firstBlock).copyOut_store nul
  rwa [hcontent] at h

/-- **A line is read exactly when a newline is supplied before any NUL**, and then the
buffer is the line with its terminator and the line and its newline are consumed.
The reported length is the length of the line narrowed to `int`. -/
theorem stompReadLine_scan (A : Apr) (io : Io) :
    match scanLine lf nul (supply io) with
    | .line l _ =>
        stompReadLine A io = .ok (l ++ [nul], cInt l.length) (advance (l.length + 1) io)
    | .stop l _ =>
        stompReadLine A io =
          failWith .egeneral (.lit "protocol error (end-of-string before end-of-line)")
            (advance (l.length + 1) io)
    | .short =>
        stompReadLine A io =
          .error (cause io) (Io.setError A (.lit "unable to read data from the socket")
            (cause io) (failed (advance (supply io).length io))) := by
  have hloop := readLineLoop_scan A firstBlock 0 io (Nat.lt_succ_self _)
  cases hscan : scanLine lf nul (supply io) with
  | line l t =>
      rw [hscan] at hloop
      have hlen : ((0 + (l.length + 1) : Nat) : Int) - 1 = l.length := by omega
      simp only [] at hloop ⊢
      rw [stompReadLine, get_bind, bind_of_ok hloop]
      show EStateM.Result.ok (copyOut _ _,
        cInt (((0 + (l.length + 1) : Nat) : Int) - 1)) _ = _
      rw [hlen, Nat.zero_add, copyOut_pushed]
  | stop l t =>
      rw [hscan] at hloop
      simp only [] at hloop ⊢
      rw [stompReadLine, get_bind]
      exact bind_of_error hloop
  | short =>
      rw [hscan] at hloop
      simp only [] at hloop ⊢
      rw [stompReadLine, get_bind]
      exact bind_of_error hloop

/-! ## `stomp_read_buffer` -/

/-- The byte the end-of-frame test looks at: the one after the NUL, or the
uninitialised local when none is supplied there. -/
def endlineOf (io : Io) (t : Bytes) : UInt8 := t.head?.getD io.endline

/-- The state behind the end of the frame, where `t` is still to be supplied. -/
def behindEnd (t : Bytes) (io : Io) : Io :=
  if t = [] then failed io else advance 1 io

private theorem recvEndline_eq (io : Io) :
    recvEndline io = .ok (endlineOf io (supply io)) (behindEnd (supply io) io) := by
  rcases recv_one_cases io with ⟨hnone, hrecv⟩ | ⟨b, t, -, hrecv, hsupply, -⟩
  · simp [recvEndline, hrecv, hnone, endlineOf, behindEnd, failed]
  · simp [recvEndline, hrecv, hsupply, endlineOf, behindEnd]

/-- On a stream that delivers it is the state one receive later. -/
private theorem behindEnd_of_delivering {io : Io} {t : Bytes}
    (hin : io.socket.inbox = t) : behindEnd t io = advance 1 io := by
  unfold behindEnd
  split
  · rename_i hnil
    obtain ⟨⟨fd, inbox, outbox, recvs, sends, waits, atEnd⟩, error, endline⟩ := io
    obtain rfl : inbox = [] := hin.trans hnil
    rfl
  · rfl

/-- The same for a body and its NUL, and one byte more. -/
theorem readBufferLoop_scan (A : Apr) {fuel : Nat} :
    ∀ (chain : Chain UInt8 blockSize) (k : Nat) (io : Io),
      io.socket.inbox.length < fuel →
      match scanLine nul nul (supply io) with
      | .line p t =>
          readBufferLoop A fuel chain k io =
            (if endlineOf io t ≠ lf then failWith .egeneral (.lit "protocol error")
              else pure ((p.foldl (Chain.push nul) chain).store nul,
                k + (p.length + 1)) : IoM (List Block × Nat))
              (behindEnd t (advance (p.length + 1) io))
      | _ =>
          readBufferLoop A fuel chain k io =
            .error (cause io) (Io.setError A (.lit "unable to read buffer data")
              (cause io) (failed (advance (supply io).length io))) := by
  induction fuel with
  | zero => intro chain k io h; omega
  | succ fuel ih =>
      intro chain k io hfuel
      rw [readBufferLoop]
      rcases recv_one_cases io with ⟨hnone, hrecv⟩ | ⟨b, t, hin, hrecv, hsupply, hcause⟩
      · rw [hnone, bind_of_error (onError_of_error hrecv)]
        rfl
      rw [hsupply, bind_of_ok (onError_of_ok hrecv), scanLine]
      by_cases hnul : b = nul
      · subst hnul
        simp only [if_true]
        rw [bind_of_ok (recvEndline_eq (advance 1 io))]
        rfl
      simp only [hnul, if_false]
      have hrest := ih (chain.push nul b) (k + 1) (advance 1 io)
        (inbox_lt_of_cons hin hfuel)
      cases hscan : scanLine nul nul (supply (advance 1 io)) with
      | line p u =>
          rw [hscan] at hrest
          have hk : k + 1 + (p.length + 1) = k + (p.length + 1 + 1) := by omega
          simp only [] at hrest ⊢
          rw [hrest, advance_advance, hk, Nat.add_comm 1]
          rfl
      | stop p u =>
          rw [hscan] at hrest
          simp only [] at hrest ⊢
          rw [hrest, advance_advance, hcause, List.length_cons, Nat.add_comm 1]
      | short =>
          rw [hscan] at hrest
          simp only [] at hrest ⊢
          rw [hrest, advance_advance, hcause, List.length_cons, Nat.add_comm 1]

/-- **A NUL-terminated body is read up to and including its first NUL**, and one
byte after it is asked for, which must be a newline. -/
theorem stompReadBuffer_scan (A : Apr) (io : Io) :
    match scanLine nul nul (supply io) with
    | .line p t =>
        stompReadBuffer A io =
          (if endlineOf io t ≠ lf then failWith .egeneral (.lit "protocol error")
            else pure (p ++ [nul], p.length + 1) : IoM (Bytes × Nat))
            (behindEnd t (advance (p.length + 1) io))
    | _ =>
        stompReadBuffer A io =
          .error (cause io) (Io.setError A (.lit "unable to read buffer data")
            (cause io) (failed (advance (supply io).length io))) := by
  have hloop := readBufferLoop_scan A firstBlock 0 io (Nat.lt_succ_self _)
  cases hscan : scanLine nul nul (supply io) with
  | line p t =>
      rw [hscan] at hloop
      simp only [] at hloop ⊢
      rw [stompReadBuffer, get_bind]
      by_cases he : endlineOf io t = lf
      · rw [if_neg (not_not_intro he)] at hloop ⊢
        rw [bind_of_ok hloop, Nat.zero_add]
        show EStateM.Result.ok (copyOut _ _, _) _ = _
        rw [copyOut_pushed]
        rfl
      · rw [if_pos he] at hloop ⊢
        exact bind_of_error hloop
  | stop p t =>
      rw [hscan] at hloop
      simp only [] at hloop ⊢
      rw [stompReadBuffer, get_bind]
      exact bind_of_error hloop
  | short =>
      rw [hscan] at hloop
      simp only [] at hloop ⊢
      rw [stompReadBuffer, get_bind]
      exact bind_of_error hloop

theorem stompReadBuffer_nul (A : Apr) {io : Io} (hd : Delivering io) {p t : Bytes}
    (hp : nul ∉ p) (hin : io.socket.inbox = p ++ nul :: t) :
    stompReadBuffer A io =
      if endlineOf io t ≠ lf then
        failWith .egeneral (.lit "protocol error") (advance (p.length + 2) io)
      else .ok (p ++ [nul], p.length + 1) (advance (p.length + 2) io) := by
  have h := stompReadBuffer_scan A io
  rw [hd.supply_eq.1, hin, scanLine_append ⟨hp, hp⟩] at h
  simp only [] at h
  rw [h, behindEnd_of_delivering (advance_succ_inbox hin), advance_advance]
  split <;> rfl

/-- A stream that ends within a body. -/
theorem stompReadBuffer_short (A : Apr) {io : Io} (hd : Delivering io)
    (hp : nul ∉ io.socket.inbox) :
    ∃ io', io'.socket.inbox = [] ∧
      stompReadBuffer A io = .error io.socket.atEnd io' := by
  have h := stompReadBuffer_scan A io
  rw [hd.supply_eq.1, scanLine_clean ⟨hp, hp⟩, hd.supply_eq.2] at h
  refine ⟨_, ?_, h⟩
  exact List.drop_length

end LibStomp.Stream.ReadLine
