import LibStomp.Stream.ReadBody

/-!
# How far the cuts of the stream matter

TCP delivers the same bytes in pieces of any size.  Lines and NUL-terminated
bodies are received byte by byte and cannot be cut, so for them `stomp_read`
depends on the bytes alone.  A counted body is a single receive and so is its
terminator, and neither is repeated when it comes short; `CutsAgree` is exactly
what two ways of cutting must have in common for the outcome to be the same.

## Main results

* `stompRead_sameOutcome_iff` — the outcome under two cuts is the same if and
  only if the cuts agree in that sense.
-/

namespace LibStomp.Stream.Chunking

open LibStomp.Model
open LibStomp.Stream.Grammar
open LibStomp.Stream.ReadLine
open LibStomp.Stream.ReadFrame
open LibStomp.Stream.ReadBody

/-- The stream of `io`, cut into pieces: the `i`-th receive delivers at most
`cut[i] + 1` bytes, later ones all they are asked for. -/
def withCut (io : Io) (cut : List Nat) : Io :=
  { io with socket := { io.socket with recvs := cut.map .upTo } }

theorem delivering_withCut (io : Io) (cut : List Nat) :
    Delivering (withCut io cut) := by
  intro turn ht
  obtain ⟨extra, -, rfl⟩ := List.mem_map.mp ht
  exact ⟨extra, rfl⟩

@[simp] theorem withCut_inbox (io : Io) (cut : List Nat) :
    (withCut io cut).socket.inbox = io.socket.inbox := rfl

/-- What a caller of `stomp_read` can tell: the frame, if one is returned, and
the number of bytes consumed. -/
structure Outcome where
  frame : Option Frame
  consumed : Nat
deriving DecidableEq

def outcomeOf (s : Bytes) : EStateM.Result AprError Io Frame → Outcome
  | .ok frame io => ⟨some frame, s.length - io.socket.inbox.length⟩
  | .error _ io => ⟨none, s.length - io.socket.inbox.length⟩

def outcome (A : Apr) (io : Io) : Outcome :=
  outcomeOf io.socket.inbox (stompRead A io)

/-- The two cuts cannot be told apart. -/
def SameOutcome (A : Apr) (io : Io) (cut₁ cut₂ : List Nat) : Prop :=
  outcome A (withCut io cut₁) = outcome A (withCut io cut₂)

/-- The two receives at the end of a counted frame move as many bytes in total,
and both or neither of the terminator pieces is NUL LF. -/
def PiecesAgree (p q : Bytes × Bytes) : Prop :=
  p.1.length + p.2.length = q.1.length + q.2.length ∧
    (p.2 = [nul, lf] ↔ q.2 = [nul, lf])

/-- The pieces that a cut of `s` makes of the end of a counted frame whose head
leaves `rest`: one turn of the cut has gone to each byte of the head. -/
def cutPieces (s rest : Bytes) (n : Nat) (cut : List Nat) : Bytes × Bytes :=
  endPieces n rest ((cut.drop (s.length - rest.length)).map .upTo)

/-- What two cuts of `s` must have in common.  Only a frame with a complete head
and a `content-length` other than 0 asks for anything. -/
def CutsAgree (s : Bytes) (cut₁ cut₂ : List Nat) : Prop :=
  match scanHead s with
  | .failed _ => True
  | .head _ ls _ rest =>
      match contentLength ls with
      | none => True
      | some v =>
          announced v = 0 ∨
            PiecesAgree (cutPieces s rest (announced v) cut₁)
              (cutPieces s rest (announced v) cut₂)

/-! ## Pieces and positions -/

/-- The two receives move bytes of the stream, so the total tells the position. -/
private theorem consumed_inj {a b m n : Nat} (hle : m ≤ n) (ha : a ≤ m)
    (hb : b ≤ m) (hab : n - (m - a) = n - (m - b)) : a = b := by
  omega

private theorem cutPieces_length_le (s rest : Bytes) (n : Nat) (cut : List Nat) :
    (cutPieces s rest n cut).1.length + (cutPieces s rest n cut).2.length ≤
      rest.length := by
  obtain ⟨k, hk⟩ :=
    endPieces_append n rest ((cut.drop (s.length - rest.length)).map .upTo)
  have hlen := congrArg List.length hk
  rw [List.length_append, List.length_take] at hlen
  rw [cutPieces, hlen]
  exact Nat.min_le_right _ _

/-- Body pieces of one length are the same octets. -/
private theorem cutPieces_fst {s rest : Bytes} {n : Nat} {cut : List Nat}
    {p : Bytes × Bytes}
    (hp : p = cutPieces s rest n cut) : p.1 = rest.take p.1.length := by
  rw [hp]
  show rest.take _ = rest.take (rest.take _).length
  rw [List.length_take, List.take_eq_take_iff]
  omega

/-! ## Outcomes by kind of frame -/

section Outcomes

variable (A : Apr) {io : Io}

private theorem outcome_of_failed {rest : Bytes}
    (h : scanHead io.socket.inbox = .failed rest) (cut : List Nat) :
    outcome A (withCut io cut) =
      ⟨none, io.socket.inbox.length - rest.length⟩ := by
  obtain ⟨rc, io', hinbox, heq⟩ :=
    stompRead_of_failed A (delivering_withCut io cut) h
  rw [outcome, heq, outcomeOf, hinbox, withCut_inbox]

variable {command last rest : Bytes} {ls : List Bytes}
variable (h : scanHead io.socket.inbox = .head command ls last rest)
include h

/-- After the head, the cut has lost one turn for each byte consumed. -/
private theorem stompRead_head_cut (cut : List Nat) :
    ∃ io', Delivering io' ∧ io'.socket.inbox = rest ∧ io'.endline = io.endline ∧
      io'.socket.recvs =
        (cut.drop (io.socket.inbox.length - rest.length)).map .upTo ∧
      stompRead A (withCut io cut) =
        readBody A (CString.ofBuffer command) (table ls) io' := by
  have hd := delivering_withCut io cut
  obtain ⟨n, hn, hinbox, heq⟩ := stompRead_of_head A hd h
  refine ⟨_, hd.advance n, hinbox, rfl, ?_, heq⟩
  rw [withCut_inbox] at hn
  show (cut.map Turn.upTo).drop n = _
  rw [← List.map_drop]
  congr 2
  omega

private theorem outcome_of_uncounted (hv : contentLength ls = none)
    (cut₁ cut₂ : List Nat) :
    outcome A (withCut io cut₁) = outcome A (withCut io cut₂) := by
  obtain ⟨io₁, hd₁, hin₁, hend₁, -, heq₁⟩ := stompRead_head_cut A h cut₁
  obtain ⟨io₂, hd₂, hin₂, hend₂, -, heq₂⟩ := stompRead_head_cut A h cut₂
  rw [outcome, outcome, heq₁, heq₂, withCut_inbox, withCut_inbox]
  by_cases hnul : nul ∈ rest
  · obtain ⟨p, t, hsplit, hp⟩ := List.eq_append_cons_of_mem hnul
    have hread₁ := readBody_uncounted A (CString.ofBuffer command) hd₁ hv hp
      (hin₁.trans hsplit)
    have hread₂ := readBody_uncounted A (CString.ofBuffer command) hd₂ hv hp
      (hin₂.trans hsplit)
    have hendline : endlineOf io₁ t = endlineOf io₂ t := by
      rw [endlineOf, endlineOf, hend₁, hend₂]
    rw [← hendline] at hread₂
    split at hread₁
    · rename_i he
      rw [if_pos he] at hread₂
      obtain ⟨rc₁, io₁', hin₁', hrun₁⟩ := hread₁
      obtain ⟨rc₂, io₂', hin₂', hrun₂⟩ := hread₂
      rw [hrun₁, hrun₂, outcomeOf, outcomeOf, hin₁', hin₂', hin₁, hin₂]
    · rename_i he
      rw [if_neg he] at hread₂
      rw [hread₁, hread₂, outcomeOf, outcomeOf, advance_inbox, advance_inbox,
        hin₁, hin₂]
  · obtain ⟨rc₁, io₁', hin₁', hrun₁⟩ := readBody_unterminated A
      (CString.ofBuffer command) hd₁ hv (by rw [hin₁]; exact hnul)
    obtain ⟨rc₂, io₂', hin₂', hrun₂⟩ := readBody_unterminated A
      (CString.ofBuffer command) hd₂ hv (by rw [hin₂]; exact hnul)
    rw [hrun₁, hrun₂, outcomeOf, outcomeOf, hin₁', hin₂']

private theorem outcome_of_zero {v : CString} (hv : contentLength ls = some v)
    (hzero : announced v = 0) (cut : List Nat) :
    outcome A (withCut io cut) =
      ⟨none, io.socket.inbox.length - rest.length⟩ := by
  obtain ⟨io', hd, hin, -, -, heq⟩ := stompRead_head_cut A h cut
  obtain ⟨rc, io'', hinbox, hrun⟩ :=
    readBody_zero A (CString.ofBuffer command) _ hv hzero
  rw [outcome, heq, hrun, outcomeOf, hinbox, hin, withCut_inbox]

/-- A counted frame ends with its two pieces, whatever was announced. -/
private theorem outcome_of_counted {v : CString} (hv : contentLength ls = some v)
    (hpos : 0 < announced v) {cut : List Nat} {p : Bytes × Bytes}
    (hp : p = cutPieces io.socket.inbox rest (announced v) cut) :
    outcome A (withCut io cut) =
      if p.2 = [nul, lf] then
        ⟨some (frameOf (CString.ofBuffer command) (table ls)
            (padded (announced v) p.1) p.1.length),
          io.socket.inbox.length - (rest.drop (p.1.length + 2)).length⟩
      else
        ⟨none, io.socket.inbox.length -
          (rest.drop (p.1.length + p.2.length)).length⟩ := by
  obtain ⟨io', hd, hin, -, hrecvs, heq⟩ := stompRead_head_cut A h cut
  have hp' : p = endPieces (announced v) io'.socket.inbox io'.socket.recvs := by
    rw [hp, cutPieces, hin, hrecvs]
  have hread := readBody_counted A (CString.ofBuffer command) hd hv hpos hp'
  rw [outcome, heq, withCut_inbox]
  split at hread
  · rename_i he
    rw [if_pos he, hread, outcomeOf, takePiece_inbox, takePiece_inbox, hin,
      List.drop_drop]
  · rename_i he
    obtain ⟨rc, io'', hinbox, hrun⟩ := hread
    rw [if_neg he, hrun, outcomeOf, hinbox, hin]

private theorem outcome_counted_iff {v : CString} (hv : contentLength ls = some v)
    (hpos : 0 < announced v) {cut₁ cut₂ : List Nat} {p q : Bytes × Bytes}
    (hp : p = cutPieces io.socket.inbox rest (announced v) cut₁)
    (hq : q = cutPieces io.socket.inbox rest (announced v) cut₂) :
    outcome A (withCut io cut₁) = outcome A (withCut io cut₂) ↔
      PiecesAgree p q := by
  have hle : rest.length ≤ io.socket.inbox.length := by
    obtain ⟨n, hn, -, -⟩ := stompRead_of_head A (delivering_withCut io cut₁) h
    rw [withCut_inbox] at hn
    omega
  have hple : p.1.length + p.2.length ≤ rest.length :=
    hp ▸ cutPieces_length_le _ _ _ _
  have hqle : q.1.length + q.2.length ≤ rest.length :=
    hq ▸ cutPieces_length_le _ _ _ _
  rw [outcome_of_counted A h hv hpos hp, outcome_of_counted A h hv hpos hq,
    PiecesAgree]
  simp only [List.length_drop]
  by_cases hpe : p.2 = [nul, lf] <;> by_cases hqe : q.2 = [nul, lf]
  · rw [hpe] at hple ⊢
    rw [hqe] at hqle ⊢
    simp only [List.length_cons, List.length_nil] at hple hqle ⊢
    constructor
    · intro heq
      have hcount := consumed_inj hle hple hqle (congrArg Outcome.consumed heq)
      exact ⟨hcount, trivial⟩
    · rintro ⟨hcount, -⟩
      have hlen : p.1.length = q.1.length := by omega
      have hbody : p.1 = q.1 := by rw [cutPieces_fst hp, cutPieces_fst hq, hlen]
      rw [hbody]
  · rw [if_pos hpe, if_neg hqe]
    simp [hpe, hqe]
  · rw [if_neg hpe, if_pos hqe]
    simp [hpe, hqe]
  · rw [if_neg hpe, if_neg hqe]
    constructor
    · intro heq
      have hcount := consumed_inj hle hple hqle (congrArg Outcome.consumed heq)
      exact ⟨hcount, by simp [hpe, hqe]⟩
    · rintro ⟨hcount, -⟩
      rw [hcount]

end Outcomes

/-! ## The main result -/

/-- **The outcome is the same under two cuts exactly when they agree** on the two
receives that end a counted frame. -/
theorem stompRead_sameOutcome_iff (A : Apr) (io : Io) (cut₁ cut₂ : List Nat) :
    SameOutcome A io cut₁ cut₂ ↔ CutsAgree io.socket.inbox cut₁ cut₂ := by
  rw [SameOutcome, CutsAgree]
  cases h : scanHead io.socket.inbox with
  | failed rest =>
      rw [outcome_of_failed A h, outcome_of_failed A h]
      simp
  | head command ls last rest =>
      cases hv : contentLength ls with
      | none => simpa [hv] using outcome_of_uncounted A h hv cut₁ cut₂
      | some v =>
          simp only [hv]
          by_cases hzero : announced v = 0
          · rw [outcome_of_zero A h hv hzero, outcome_of_zero A h hv hzero]
            simp [hzero]
          · rw [outcome_counted_iff A h hv (Nat.pos_of_ne_zero hzero) rfl rfl]
            simp [hzero]

/-- A frame with a body of two octets. -/
def countedFrame : Bytes := ascii "M\ncontent-length:2\n\nab" ++ [nul, lf]

/-- Delivered whole the frame is accepted; delivered byte by byte its body is cut
short and its end is not found. -/
theorem stompRead_sameOutcome_fails :
    ¬ ∀ (A : Apr) (io : Io) (cut₁ cut₂ : List Nat),
      SameOutcome A io cut₁ cut₂ := by
  intro h
  have hcut := h .sample (.fresh countedFrame) [] (List.replicate 24 0)
  revert hcut
  unfold SameOutcome
  decide +kernel

end LibStomp.Stream.Chunking
