import LibStomp.Stream.WholeFrames

/-!
# Values of `content-length`

The value is chosen by the peer and can be any string.  `stomp_read` stores what
`apr_atoi64` makes of it in an `apr_size_t`, allocates as many octets and asks the
socket for them; nothing is checked on the way.

## Main results

* `asks_announced` — that number is asked for whatever the value, and it is the one
  the value denotes when it denotes one.
-/

namespace LibStomp.Stream.ContentLength

open LibStomp.Model
open LibStomp.Stream.Grammar
open LibStomp.Stream.ReadLine
open LibStomp.Stream.ReadBody
open LibStomp.Stream.WholeFrames

/-! ## Numbers -/

/-- The text is a plain decimal number in the range of `apr_atoi64`. -/
structure Denotes (v : CString) (n : Nat) : Prop where
  nonempty : v.bytes ≠ []
  digits : ∀ b ∈ v.bytes, isDigit b = true
  value : digitRun v.bytes = n
  fits : n < 2 ^ 63

theorem Denotes.announced {v : CString} {n : Nat} (h : Denotes v n) :
    announced v = n := by
  have hvalue := aprAtoi64_digits h.nonempty h.digits
  have hfits := h.fits
  rw [h.value] at hvalue
  rw [ReadBody.announced, toSize, hvalue, UInt64.toNat_ofNat']
  omega

/-! ## The receive of the body -/

/-- The head of a frame has been received and has the value `v` for its length; the
state behind it is `io'`. -/
def HeadRead (A : Apr) (io : Io) (v : CString) (io' : Io) : Prop :=
  ∃ line io₁ headers, stompReadLine A io = .ok line io₁ ∧
    readHeaders A (io₁.socket.inbox.length + 1) ∅ io₁ = .ok headers io' ∧
    headers.lookup (.lit "content-length") = some v

/-- The outcomes of a read that allocates `n` octets and asks the socket for `n` in the
state `io`, then for the two that end the frame. -/
inductive AsksFor (n : Nat) (io : Io) : EStateM.Result AprError Io Frame → Prop
  | unreceived {rc : AprError} {io₁ io' : Io} (hrecv : recv n io = .error rc io₁)
      (hsocket : io'.socket = io₁.socket) : AsksFor n io (.error rc io')
  | unended {bytes : Bytes} {rc : AprError} {io₁ io₂ io' : Io}
      (hrecv : recv n io = .ok bytes io₁) (hend : recv 2 io₁ = .error rc io₂)
      (hsocket : io'.socket = io₂.socket) : AsksFor n io (.error rc io')
  | misended {bytes endbuffer : Bytes} {io₁ io₂ io' : Io}
      (hrecv : recv n io = .ok bytes io₁) (hend : recv 2 io₁ = .ok endbuffer io₂)
      (hne : endbuffer ≠ [nul, lf]) (hsocket : io'.socket = io₂.socket) :
      AsksFor n io (.error .egeneral io')
  | read {bytes : Bytes} {frame : Frame} {io₁ io' : Io}
      (hrecv : recv n io = .ok bytes io₁) (hend : recv 2 io₁ = .ok [nul, lf] io')
      (hbody : frame.body = some (padded n bytes))
      (hlength : frame.bodyLength = UInt64.ofNat bytes.length) :
      AsksFor n io (.ok frame io')

private theorem asksFor_readBody (A : Apr) (command : CString) {headers : Hash}
    {v : CString} (hlookup : headers.lookup (.lit "content-length") = some v)
    (io : Io) : AsksFor (announced v) io (readBody A command headers io) := by
  cases hresult : readBody A command headers io with
  | ok frame io' =>
      rw [readBody, hlookup] at hresult
      obtain ⟨⟨body, length⟩, io₁, hcounted, hpure⟩ := bind_eq_ok hresult
      obtain ⟨rfl, rfl⟩ := EStateM.Result.ok.inj hpure
      obtain ⟨bytes, io₂, hrecv, hmore⟩ := bind_eq_ok hcounted
      obtain ⟨endbuffer, io₃, hend, hdone⟩ := bind_eq_ok hmore
      by_cases heq : endbuffer = [nul, lf]
      · rw [if_neg (not_not_intro heq)] at hdone
        obtain ⟨hpair, rfl⟩ := EStateM.Result.ok.inj hdone
        obtain ⟨rfl, rfl⟩ := Prod.mk.inj hpair
        subst heq
        exact .read (onError_eq_ok hrecv) (onError_eq_ok hend) rfl rfl
      · rw [if_pos heq] at hdone
        cases hdone
  | error rc io' =>
      rw [readBody, hlookup] at hresult
      rcases bind_eq_error hresult with hcounted | ⟨_, _, -, hpure⟩
      · rcases bind_eq_error hcounted with hrecv | ⟨bytes, io₁, hrecv, hmore⟩
        · obtain ⟨io₁, hfails, rfl⟩ := onError_eq_error hrecv
          exact .unreceived hfails rfl
        rcases bind_eq_error hmore with hend | ⟨endbuffer, io₂, hend, hdone⟩
        · obtain ⟨io₂, hfails, rfl⟩ := onError_eq_error hend
          exact .unended (onError_eq_ok hrecv) hfails rfl
        by_cases heq : endbuffer = [nul, lf]
        · rw [if_neg (not_not_intro heq)] at hdone
          cases hdone
        · rw [if_pos heq] at hdone
          obtain ⟨rfl, rfl⟩ := EStateM.Result.error.inj hdone
          exact .misended (onError_eq_ok hrecv) (onError_eq_ok hend) heq rfl
      · cases hpure

private theorem asksFor_stompRead (A : Apr) {io io' : Io} {v : CString}
    (h : HeadRead A io v io') : AsksFor (announced v) io' (stompRead A io) := by
  obtain ⟨⟨p, length⟩, io₁, headers, hline, hheaders, hlookup⟩ := h
  have hbody : stompRead A io = readBody A (CString.ofBuffer p) headers io' :=
    (bind_of_ok hline).trans (bind_of_ok hheaders)
  rw [hbody]
  exact asksFor_readBody A _ hlookup io'

/-- **Whatever the value of the length, `stomp_read` asks for the size it parses to**,
which is the number it denotes if it denotes one; when it is none, the read fails and
takes nothing. -/
theorem asks_announced (A : Apr) (io io' : Io) (v : CString)
    (h : HeadRead A io v io') :
    AsksFor (announced v) io' (stompRead A io) ∧
      (announced v : Int) = aprAtoi64 v % 2 ^ 64 ∧
      (∀ n, Denotes v n → announced v = n) ∧
      (aprAtoi64 v = 0 → ∃ rc io'', stompRead A io = .error rc io'' ∧
        io''.socket.inbox = io'.socket.inbox) := by
  have hasks := asksFor_stompRead A h
  refine ⟨hasks, ?_, fun n hn => hn.announced, fun hzero => ?_⟩
  · rw [announced, toSize, UInt64.toNat_ofNat']
    omega
  · have hnone : announced v = 0 := by
      rw [announced, toSize, hzero]
      decide
    obtain ⟨rc, io₁, hrecv, hinbox⟩ := recv_zero io'
    rw [← hnone] at hrecv
    cases hresult : stompRead A io with
    | error rc' io'' =>
        rw [hresult] at hasks
        cases hasks with
        | unreceived hrecv' hsocket =>
            obtain ⟨-, rfl⟩ := EStateM.Result.error.inj (hrecv.symm.trans hrecv')
            exact ⟨rc', io'', rfl, by rw [hsocket, hinbox]⟩
        | unended hrecv' => cases hrecv.symm.trans hrecv'
        | misended hrecv' => cases hrecv.symm.trans hrecv'
    | ok frame io'' =>
        rw [hresult] at hasks
        cases hasks with
        | read hrecv' => cases hrecv.symm.trans hrecv'

/-! ## A value that is no number -/

/-- A malformed length is refused before anything is received for it, and any other
one is the size that is asked for. -/
def ChecksLength (v : CString) (io : Io) (r : EStateM.Result AprError Io Frame) :
    Prop :=
  (∀ n, Denotes v n → AsksFor n io r) ∧
    ((∀ n, ¬ Denotes v n) → ∃ rc io', r = .error rc io' ∧ io'.socket = io.socket)

/-- A message with five octets, announced as `5x`. -/
def sloppyFrame : WireFrame where
  command := ascii "MESSAGE"
  lines := [ascii "content-length:5x"]
  payload := ascii "hello"
  command_clean := by decide
  lines_header := by decide +kernel
  payload_ok := by decide +kernel

private theorem sloppyFrame_read :
    ∃ io io', stompRead .sample (Io.fresh sloppyFrame.bytes) =
        .ok sloppyFrame.frame io' ∧
      HeadRead .sample (Io.fresh sloppyFrame.bytes) (.lit "5x") io := by
  have hd : Delivering (Io.fresh sloppyFrame.bytes) := by
    simp [Delivering, Io.fresh]
  obtain ⟨turns, -, hread⟩ := stompRead_wire .sample hd (w := sloppyFrame) (t := [])
    (by decide +kernel) (by decide +kernel) (fun v _ => whole_nil _)
    (by simp [Io.fresh])
  obtain ⟨line, io₁, hline, hrest⟩ := bind_eq_ok hread
  simp only [get_bind] at hrest
  obtain ⟨headers, io₂, hheaders, hbody⟩ := bind_eq_ok hrest
  refine ⟨io₂, _, hread, line, io₁, headers, hline, hheaders, ?_⟩
  have htable := readBody_headers .sample hbody
  rw [WireFrame.frame, denote_headers] at htable
  obtain rfl := Option.some.inj htable
  decide +kernel

theorem asks_announced_sloppyFrame :
    ∃ io, AsksFor 5 io (stompRead .sample (Io.fresh sloppyFrame.bytes)) := by
  obtain ⟨io, -, -, hhead⟩ := sloppyFrame_read
  have hfive : announced (.lit "5x") = 5 := by decide +kernel
  have hasks := (asks_announced .sample _ _ _ hhead).1
  rw [hfive] at hasks
  exact ⟨io, hasks⟩

theorem checksLength_fails :
    ¬ ∀ (A : Apr) (io io' : Io) (v : CString), HeadRead A io v io' →
      ChecksLength v io' (stompRead A io) := by
  intro h
  obtain ⟨io, io', hread, hhead⟩ := sloppyFrame_read
  have hletter : ∀ n, ¬ Denotes (.lit "5x") n := fun n hn =>
    absurd (hn.digits 120 (by decide)) (by decide)
  obtain ⟨rc, io'', herror, -⟩ := (h .sample _ _ _ hhead).2 hletter
  cases hread.symm.trans herror

end LibStomp.Stream.ContentLength
